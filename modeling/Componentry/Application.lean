import Componentry.Assembly
import Componentry.Settings

/-!
# Componentry.Application

Applications. An application is run from its settings and its configurations; what comes of it is a
context, through which the assembled registry is queried and which other applications may have as
their parent. A context also finds what any of its ancestors registers, however many there are.
-/

namespace Componentry

inductive ApplicationError where
  | settings (cause : SettingsError)
  | assembly (cause : RegistryError)
deriving DecidableEq, Repr

structure Context where
  registry : Registry

namespace Context

variable (context : Context)

def containsLocal (name : String) : Bool := context.registry.catalog.isRegistered name

/-- Whether a name is registered in the context or in any of its ancestors. -/
def contains (name : String) : Bool := context.registry.hierarchy.isRegistered name

/-- The names of the context's own components and factories that are of a type. -/
def namesOfType (target : ComponentType) : List String :=
  context.registry.catalog.namesOfType .all target

def component? (name : String) : Option Definition := context.registry.catalog.component? name

def report : Report := context.registry.report

end Context

structure Application where
  settings : Settings := {}
  configurations : List Configuration := []
  parent? : Option Context := none

namespace Application

/-- An application with the settings of its surroundings. -/
def load (surroundings : Surroundings) : Except ApplicationError Application :=
  match surroundings.settings with
  | .ok settings => .ok { settings }
  | .error cause => .error (.settings cause)

def plan (a : Application) : Plan where
  configurations := a.configurations
  overriding := a.settings.allowOverriding
  parent? := a.parent?.map (·.registry.hierarchy)

/-- Assembles the context of an application. If the settings ask for a logger, one is installed
first; where that is refused, as it is where there is one already, the application goes on without.
`refusal?` is what the refusal says. -/
def run (a : Application) (refusal? : Option String) :
    Logged (Except ApplicationError Context) := do
  if a.settings.installLogger then
    if let some cause := refusal? then Logged.emit (.loggerRefused cause)
  Logged.emit .assembling
  match ← a.plan.build with
  | .error cause => return .error (.assembly cause)
  | .ok registry =>
    if a.settings.logReport then Logged.emit (.conditionReport registry.report.render)
    return .ok { registry }

end Application

/-- Configurations to be tried out. Each run assembles a context anew, and no logger is installed
unless the settings say so. -/
structure Trial where
  configurations : List Configuration := []
  parent? : Option Context := none
  settings : Settings := { installLogger := false }

namespace Trial

def build (t : Trial) (refusal? : Option String) : Logged (Except ApplicationError Context) :=
  Application.run
    { settings := t.settings, configurations := t.configurations, parent? := t.parent? } refusal?

def run {α : Type} (t : Trial) (refusal? : Option String) (f : Context → α) :
    Logged (Except ApplicationError α) :=
  return (← t.build refusal?).map f

end Trial

/-- The wording of an error that an application fails with during assembly. -/
def RegistryError.assemblyMessage (cause : RegistryError) : String :=
  "Error assembling component registry: " ++ cause.message

end Componentry
