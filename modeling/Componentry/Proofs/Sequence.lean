import Componentry.Proofs.Run

/-!
# Componentry.Proofs.Sequence

Runs of many items, one after the other. Components and configurations are run alike: `runEach`
takes any step for an item and stops at the first item whose step fails. What a list of items comes
to is what its front comes to, followed by the rest (`runEach_append`); a run fails if and only if
some item fails after all of those before it succeeded (`error?_runEach_iff`).
-/

namespace Componentry

namespace Run

theorem andThen_assoc (run : Run) (f g : Registry → Run) :
    (run.andThen f).andThen g = run.andThen fun r => (f r).andThen g := by
  cases h : run.error? with
  | some e => rw [andThen_of_error h, andThen_of_error h, andThen_of_error h]
  | none =>
    rw [andThen_of_none h, andThen_of_none h]
    cases hf : (f run.registry).error? with
    | some e => simp [andThen, hf]
    | none => simp [andThen, hf, List.append_assoc]

/-- Nothing more to be done is nothing done. -/
theorem andThen_nothing (run : Run) : (run.andThen fun r => { registry := r }) = run := by
  cases h : run.error? with
  | some e => rw [andThen_of_error h]
  | none =>
    rw [andThen_of_none h, List.append_nil, ← h]

theorem error?_andThen_of_none {run : Run} (h : run.error? = none) (next : Registry → Run) :
    (run.andThen next).error? = (next run.registry).error? := by
  rw [andThen_of_none h]

end Run

namespace Registry

variable {α : Type} {step : α → Registry → Run} {r : Registry}

/-- Runs a step for every item, until one of them fails. -/
def runEach (step : α → Registry → Run) : List α → Registry → Run
  | [], r => { registry := r }
  | x :: xs, r => (step x r).andThen (runEach step xs)

theorem runComponents_eq_runEach (view : Viewpoint) (source : String) :
    runComponents view source = runEach (runComponent view source) := by
  funext cs r
  induction cs generalizing r with
  | nil => rfl
  | cons c cs ih =>
    rw [runComponents, runEach]
    congr 1
    funext r
    exact ih r

theorem runConfigurations_eq_runEach (view : Viewpoint) :
    runConfigurations view = runEach (runConfiguration view) := by
  funext cs r
  induction cs generalizing r with
  | nil => rfl
  | cons c cs ih =>
    rw [runConfigurations, runEach]
    congr 1
    funext r
    exact ih r

theorem runEach_append (xs ys : List α) (r : Registry) :
    runEach step (xs ++ ys) r = (runEach step xs r).andThen (runEach step ys) := by
  induction xs generalizing r with
  | nil => simp [runEach, Run.andThen]
  | cons x xs ih =>
    rw [List.cons_append, runEach, runEach, Run.andThen_assoc]
    congr 1
    funext r
    exact ih r

theorem runEach_singleton (x : α) : runEach step [x] = step x := by
  funext r
  exact Run.andThen_nothing (step x r)

/-- An item that fails is the last one to be run, whatever comes after it. -/
theorem runEach_of_error {before : List α} {x : α} {e : RegistryError}
    (hbefore : (runEach step before r).error? = none)
    (hx : (step x (runEach step before r).registry).error? = some e) (later : List α) :
    runEach step (before ++ x :: later) r = (runEach step before r).andThen (step x) := by
  rw [runEach_append, Run.andThen_of_none hbefore, Run.andThen_of_none hbefore, runEach,
    Run.andThen_of_error hx]

theorem error?_runEach_iff {xs : List α} {e : RegistryError} :
    (runEach step xs r).error? = some e ↔ ∃ before x after, xs = before ++ x :: after ∧
      (runEach step before r).error? = none ∧
        (step x (runEach step before r).registry).error? = some e := by
  constructor
  · intro h
    induction xs generalizing r with
    | nil => cases h
    | cons x xs ih =>
      rw [runEach] at h
      cases hx : (step x r).error? with
      | some e' =>
        rw [Run.andThen_of_error hx, hx] at h
        exact ⟨[], x, xs, rfl, rfl, hx.trans h⟩
      | none =>
        rw [Run.error?_andThen_of_none hx] at h
        obtain ⟨before, y, after, hs, hbefore, hy⟩ := ih h
        refine ⟨x :: before, y, after, by rw [hs, List.cons_append], ?_, ?_⟩
        · rw [runEach, Run.error?_andThen_of_none hx]
          exact hbefore
        · rw [runEach, Run.registry_andThen_of_none hx]
          exact hy
  · intro ⟨before, x, after, hs, hbefore, hx⟩
    rw [hs, runEach_of_error hbefore hx, Run.error?_andThen_of_none hbefore]
    exact hx

/-- What every step keeps is kept by the run. -/
theorem kept_runEach {P : Registry → Prop} {xs : List α}
    (h : ∀ x ∈ xs, ∀ r, P r → P (step x r).registry) (hr : P r) :
    P (runEach step xs r).registry := by
  induction xs generalizing r with
  | nil => exact hr
  | cons x xs ih =>
    have hrest : ∀ y ∈ xs, ∀ r, P r → P (step y r).registry := by
      intro y hy
      exact h y (List.mem_cons_of_mem x hy)
    exact Kept.andThen (h x List.mem_cons_self r hr) fun _ => ih hrest

/-- A configuration is run up to any of its components as if there were no more of them. -/
theorem runConfiguration_append {view : Viewpoint} {c : Configuration}
    (ha : r.admits view c.conditions (.configuration c.declaration) = true)
    (before later : List Registration) :
    r.runConfiguration view { c with components := before ++ later } =
      (r.runConfiguration view { c with components := before }).andThen
        (runEach (runComponent view c.declaration.name) later) := by
  rw [runConfiguration_eq, runConfiguration_eq]
  simp only [ha, if_true]
  rw [Run.andThen_assoc, runComponents_eq_runEach]
  congr 1
  funext r
  exact runEach_append before later r

end Registry

namespace Plan

/-- A run of the first configurations of a plan only. -/
def runThrough (p : Plan) (configurations : List Configuration) : Run :=
  (Registry.create p.overriding p.parent?).runConfigurations p.view configurations

theorem build_eq_error_iff {p : Plan} {e : RegistryError} :
    p.build.value = .error e ↔ ∃ before c after, p.ordered = before ++ c :: after ∧
      (p.runThrough before).error? = none ∧
        ((p.runThrough before).registry.runConfiguration p.view c).error? = some e := by
  have herror : p.build.value = .error e ↔ p.run.error? = some e := Run.result_eq_error_iff
  rw [herror, run, Registry.runConfigurations_eq_runEach, Registry.error?_runEach_iff]
  simp only [runThrough, Registry.runConfigurations_eq_runEach]

end Plan
end Componentry
