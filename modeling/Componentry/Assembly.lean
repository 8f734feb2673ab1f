import Componentry.Registry

/-!
# Componentry.Assembly

Assembling a registry from configurations. A configuration is a group of declarations that is
itself registered as a component, ahead of them. Each declaration is registered if all its
conditions match, judged against what was registered before it; a configuration that is not
registered takes its components with it.

A run stops at the first registration that is refused and keeps what was registered and reported
until then. Configurations run in the order of descending priority, and those of equal priority in
the order in which they were submitted (`Plan.ordered`).
-/

namespace Componentry

structure Registration where
  declaration : Declaration
  conditions : List Condition := []

/-- A group of registrations, declared and guarded as a whole. -/
structure Configuration where
  declaration : Declaration
  conditions : List Condition := []
  /-- Higher priorities come first. -/
  priority : Int := 0
  components : List Registration := []

/-- What conditions get to see, given what can be seen from the registry that is being filled. -/
abbrev Viewpoint := Hierarchy → Hierarchy

/-- Conditions see the registry that is being filled. -/
def Viewpoint.own : Viewpoint := id

/-- Conditions see one hierarchy throughout. -/
def Viewpoint.fixed (h : Hierarchy) : Viewpoint := fun _ => h

/-- What a run leaves behind: the registry as it is then, what was logged, and the error that
stopped the run, if any. -/
structure Run where
  registry : Registry
  events : List Event := []
  error? : Option RegistryError := none

namespace Run

def andThen (run : Run) (next : Registry → Run) : Run :=
  match run.error? with
  | some _ => run
  | none =>
    let continued := next run.registry
    { continued with events := run.events ++ continued.events }

def result (run : Run) : Except RegistryError Registry :=
  match run.error? with
  | some e => .error e
  | none => .ok run.registry

end Run

namespace Registry

/-- Adds a definition and logs events, whether the definition is accepted or not. -/
def runDefine (r : Registry) (d : Definition) (events : List Event) : Run :=
  match r.define d with
  | .ok registry => { registry, events }
  | .error e => { registry := r, events, error? := some e }

def runComponent (view : Viewpoint) (configuration : String) (c : Registration) (r : Registry) :
    Run :=
  let name := c.declaration.name
  let judged := judge c.conditions (view r.hierarchy) (.component c.declaration)
  let reported := r.record name judged.value
  if allMatched judged.value then
    reported.runDefine { declaration := c.declaration, source? := some configuration }
      (judged.events ++ [.registeringComponent name configuration])
  else
    { registry := reported
      events := judged.events ++ [.skippingComponent name configuration] }

def runComponents (view : Viewpoint) (configuration : String) : List Registration → Registry → Run
  | [], r => { registry := r }
  | c :: cs, r =>
    (r.runComponent view configuration c).andThen (runComponents view configuration cs)

/-- Judges the conditions on a configuration. If all of them match, the configuration is
registered and its components are run. -/
def runConfiguration (view : Viewpoint) (c : Configuration) (r : Registry) : Run :=
  let name := c.declaration.name
  let judged := judge c.conditions (view r.hierarchy) (.configuration c.declaration)
  let reported := r.record name judged.value
  if allMatched judged.value then
    (reported.runDefine { declaration := c.declaration } judged.events).andThen
      (runComponents view name c.components)
  else
    { registry := reported
      events := judged.events ++ [.skippingConfiguration name] }

def runConfigurations (view : Viewpoint) : List Configuration → Registry → Run
  | [], r => { registry := r }
  | c :: cs, r => (r.runConfiguration view c).andThen (runConfigurations view cs)

end Registry

structure Plan where
  configurations : List Configuration := []
  overriding : Bool := false
  parent? : Option Hierarchy := none
  view : Viewpoint := .own

namespace Plan

/-- The configurations in the order in which they run. -/
def ordered (p : Plan) : List Configuration :=
  p.configurations.mergeSort fun a b => b.priority ≤ a.priority

def run (p : Plan) : Run :=
  (Registry.create p.overriding p.parent?).runConfigurations p.view p.ordered

def build (p : Plan) : Logged (Except RegistryError Registry) :=
  ⟨p.run.result, p.run.events⟩

end Plan

end Componentry
