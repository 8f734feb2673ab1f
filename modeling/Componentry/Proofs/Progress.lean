import Componentry.Proofs.Run

/-!
# Componentry.Proofs.Progress

A run as a sequence of steps. A `Stage` is a registry, the tasks that were registered and those that
are pending. `Stage.Step` takes the first pending task: it is registered, and what it opens comes
next, or it is skipped, or it is refused and nothing is pending any more. A configuration opens its
components.

`Plan.Reaches` are the stages of a run of a plan, one after the other
(`Stage.Step.deterministic`), and the last one has the registry that the run leaves behind
(`Plan.reaches_run`).
-/

namespace Componentry

/-- A declaration that is to be run, with its guards. -/
inductive Task where
  | component (source : String) (c : Registration)
  | configuration (c : Configuration)

namespace Task

def conditions : Task → List Condition
  | component _ c => c.conditions
  | configuration c => c.conditions

def subject : Task → Subject
  | component _ c => .component c.declaration
  | configuration c => .configuration c.declaration

def definition : Task → Definition
  | component source c => c.definition source
  | configuration c => c.definition

/-- What is to be run once the task is registered. -/
def opens : Task → List Task
  | component _ _ => []
  | configuration c => c.components.map (component c.declaration.name)

end Task

/-- A point of a run. -/
structure Stage where
  registry : Registry
  registered : List Task := []
  pending : List Task

namespace Stage

inductive Step (view : Viewpoint) : Stage → Stage → Prop where
  | register {r r' : Registry} {registered later : List Task} {t : Task} :
      r.admits view t.conditions t.subject = true →
      (r.reported view t.conditions t.subject).define t.definition = .ok r' →
      Step view ⟨r, registered, t :: later⟩ ⟨r', registered ++ [t], t.opens ++ later⟩
  | refuse {r : Registry} {registered later : List Task} {t : Task} {e : RegistryError} :
      r.admits view t.conditions t.subject = true →
      (r.reported view t.conditions t.subject).define t.definition = .error e →
      Step view ⟨r, registered, t :: later⟩
        ⟨r.reported view t.conditions t.subject, registered, []⟩
  | skip {r : Registry} {registered later : List Task} {t : Task} :
      r.admits view t.conditions t.subject = false →
      Step view ⟨r, registered, t :: later⟩
        ⟨r.reported view t.conditions t.subject, registered, later⟩

inductive Steps (view : Viewpoint) : Stage → Stage → Prop where
  | refl {s : Stage} : Steps view s s
  | cons {s s' s'' : Stage} : Step view s s' → Steps view s' s'' → Steps view s s''

theorem Step.deterministic {view : Viewpoint} {s s' s'' : Stage} (h : Step view s s')
    (h' : Step view s s'') : s' = s'' := by
  cases h with
  | register ha hd =>
    cases h' with
    | register _ hd' => rw [hd] at hd'; cases hd'; rfl
    | refuse _ hd' => rw [hd] at hd'; cases hd'
    | skip ha' => rw [ha] at ha'; cases ha'
  | refuse ha hd =>
    cases h' with
    | register _ hd' => rw [hd] at hd'; cases hd'
    | refuse _ _ => rfl
    | skip ha' => rw [ha] at ha'; cases ha'
  | skip ha =>
    cases h' with
    | register ha' _ => rw [ha] at ha'; cases ha'
    | refuse ha' _ => rw [ha] at ha'; cases ha'
    | skip _ => rfl

namespace Steps

theorem single {view : Viewpoint} {s s' : Stage} (h : Step view s s') : Steps view s s' :=
  .cons h .refl

theorem trans {view : Viewpoint} {s s' s'' : Stage} (h : Steps view s s')
    (h' : Steps view s' s'') : Steps view s s'' := by
  induction h with
  | refl => exact h'
  | cons hs _ ih => exact .cons hs (ih h')

end Steps

end Stage

theorem Registry.Kept.step {P : Registry → Prop} (k : Kept P) {view : Viewpoint} {s s' : Stage}
    (h : P s.registry) (hs : Stage.Step view s s') : P s'.registry := by
  cases hs with
  | register _ hd => exact k.define (k.record _ _ h) hd
  | refuse _ _ => exact k.record _ _ h
  | skip _ => exact k.record _ _ h

/-! ## The stages of a run -/

/-- The stage that a run leaves. After an error nothing is pending. -/
def Run.stage (run : Run) (registered later : List Task) : Stage where
  registry := run.registry
  registered
  pending := if run.error?.isSome then [] else later

theorem Run.stage_of_none {run : Run} (h : run.error? = none) (registered later : List Task) :
    run.stage registered later = ⟨run.registry, registered, later⟩ := by
  simp [stage, h]

theorem Run.stage_of_error {run : Run} {e : RegistryError} (h : run.error? = some e)
    (registered later : List Task) :
    run.stage registered later = ⟨run.registry, registered, []⟩ := by
  simp [stage, h]

/-- Steps that lead to the end of a run and on to the end of the next one. -/
theorem Stage.Steps.andThen {view : Viewpoint} {s : Stage} {run : Run} {next : Registry → Run}
    {tasks later : List Task}
    (h : ∃ registered, Stage.Steps view s (run.stage registered (tasks ++ later)))
    (hnext : ∀ r registered, ∃ registered', Stage.Steps view ⟨r, registered, tasks ++ later⟩
      ((next r).stage registered' later)) :
    ∃ registered, Stage.Steps view s ((run.andThen next).stage registered later) := by
  obtain ⟨registered, hs⟩ := h
  cases he : run.error? with
  | none =>
    rw [Run.stage_of_none he] at hs
    obtain ⟨registered', hs'⟩ := hnext run.registry registered
    rw [Run.andThen_of_none he]
    exact ⟨registered', hs.trans hs'⟩
  | some e =>
    rw [Run.stage_of_error he] at hs
    rw [Run.andThen_of_error he]
    exact ⟨registered, (Run.stage_of_error he registered later) ▸ hs⟩

namespace Registry

variable {view : Viewpoint} {r : Registry} {registered later : List Task}

theorem steps_runDefine {t : Task} (ha : r.admits view t.conditions t.subject = true)
    (events : List Event) :
    ∃ registered', Stage.Steps view ⟨r, registered, t :: later⟩
      (((r.reported view t.conditions t.subject).runDefine t.definition events).stage registered'
        (t.opens ++ later)) := by
  cases hd : (r.reported view t.conditions t.subject).define t.definition with
  | ok r' =>
    rw [runDefine_of_ok hd]
    exact ⟨_, .single (.register ha hd)⟩
  | error e =>
    rw [runDefine_of_error hd]
    exact ⟨_, .single (.refuse ha hd)⟩

theorem steps_runComponent (source : String) (c : Registration) :
    ∃ registered', Stage.Steps view ⟨r, registered, .component source c :: later⟩
      ((r.runComponent view source c).stage registered' later) := by
  rw [runComponent_eq]
  cases ha : r.admits view c.conditions (.component c.declaration) with
  | true => exact steps_runDefine (t := .component source c) ha _
  | false => exact ⟨registered, .single (.skip ha)⟩

theorem steps_runComponents (source : String) (cs : List Registration) :
    ∃ registered', Stage.Steps view ⟨r, registered, cs.map (.component source) ++ later⟩
      ((r.runComponents view source cs).stage registered' later) := by
  induction cs generalizing r registered with
  | nil => exact ⟨registered, .refl⟩
  | cons c cs ih => exact Stage.Steps.andThen (steps_runComponent source c) fun _ _ => ih

theorem steps_runConfiguration (c : Configuration) :
    ∃ registered', Stage.Steps view ⟨r, registered, .configuration c :: later⟩
      ((r.runConfiguration view c).stage registered' later) := by
  rw [runConfiguration_eq]
  cases ha : r.admits view c.conditions (.configuration c.declaration) with
  | true =>
    exact Stage.Steps.andThen (steps_runDefine (t := .configuration c) ha _) fun _ _ =>
      steps_runComponents _ _
  | false => exact ⟨registered, .single (.skip ha)⟩

theorem steps_runConfigurations (cs : List Configuration) :
    ∃ registered', Stage.Steps view ⟨r, registered, cs.map .configuration ++ later⟩
      ((r.runConfigurations view cs).stage registered' later) := by
  induction cs generalizing r registered with
  | nil => exact ⟨registered, .refl⟩
  | cons c cs ih => exact Stage.Steps.andThen (steps_runConfiguration c) fun _ _ => ih

end Registry

namespace Plan

/-- Where a run of a plan starts. -/
def start (p : Plan) : Stage where
  registry := Registry.create p.overriding p.parent?
  pending := p.ordered.map .configuration

/-- The stages of a run of a plan. -/
inductive Reaches (p : Plan) : Stage → Prop where
  | start : Reaches p p.start
  | step {s s' : Stage} : Reaches p s → Stage.Step p.view s s' → Reaches p s'

theorem Reaches.steps {p : Plan} {s s' : Stage} (h : p.Reaches s) (hs : Stage.Steps p.view s s') :
    p.Reaches s' := by
  induction hs with
  | refl => exact h
  | cons hs _ ih => exact ih (h.step hs)

/-- A configuration that is registered gives way to its components. -/
theorem Reaches.opened {p : Plan} {r r' : Registry} {registered later : List Task}
    {c : Configuration} (h : p.Reaches ⟨r, registered, .configuration c :: later⟩)
    (ha : r.admits p.view c.conditions (.configuration c.declaration) = true)
    (hd : (r.reported p.view c.conditions (.configuration c.declaration)).define c.definition =
      .ok r') :
    p.Reaches ⟨r', registered ++ [.configuration c],
      c.components.map (.component c.declaration.name) ++ later⟩ :=
  h.step (.register (t := .configuration c) ha hd)

/-- A component that is run without an error gives way to the next task. -/
theorem Reaches.next {p : Plan} {s : Stage} {source : String} {k : Registration}
    {later : List Task} (h : p.Reaches s) (hpending : s.pending = .component source k :: later)
    (hok : (s.registry.runComponent p.view source k).error? = none) :
    ∃ registered, p.Reaches
      ⟨(s.registry.runComponent p.view source k).registry, registered, later⟩ := by
  obtain ⟨r, before, pending⟩ := s
  cases hpending
  have hsteps : ∃ registered, Stage.Steps p.view ⟨r, before, .component source k :: later⟩
      ((r.runComponent p.view source k).stage registered later) :=
    Registry.steps_runComponent source k
  obtain ⟨registered, hs⟩ := hsteps
  rw [Run.stage_of_none hok] at hs
  exact ⟨registered, h.steps hs⟩

/-- The steps of a plan lead to what a run of it leaves behind. -/
theorem reaches_run (p : Plan) :
    ∃ s, p.Reaches s ∧ s.pending = [] ∧ s.registry = p.run.registry := by
  have h : ∃ registered, Stage.Steps p.view ⟨_, [], p.ordered.map .configuration ++ []⟩
      (p.run.stage registered []) := Registry.steps_runConfigurations p.ordered
  obtain ⟨registered, hs⟩ := h
  rw [List.append_nil] at hs
  refine ⟨_, Reaches.start.steps hs, ?_, rfl⟩
  show (if p.run.error?.isSome then [] else []) = []
  split <;> rfl

theorem Reaches.kept {P : Registry → Prop} (k : Registry.Kept P) {p : Plan} {s : Stage}
    (hs : p.Reaches s) (h : P (Registry.create p.overriding p.parent?)) : P s.registry := by
  induction hs with
  | start => exact h
  | step _ hstep ih => exact k.step ih hstep

end Plan
end Componentry
