import Componentry.Proofs.Failure
import Mathlib.Data.List.Basic
import Mathlib.Data.List.Induction

/-!
# Componentry.Proofs.Extent

How far a run gets. A run of several items adds to its front what the next item comes to
(`RunsInTurn`), so it is told by the runs of its first items: an item is reached if those before it
run without an error (`reached`), and a run fails at the first item that its front fails with
(`RunsInTurn.error?_iff`). Components are the items of a configuration, and configurations those of
a plan. `Registry.FailsAt` and `Plan.FailsAt` name the declaration that a run fails at.
-/

namespace Componentry

/-! ## Runs in turn -/

section Turns

variable {α : Type} {step : α → Registry → Run} {front : List α → Run}

/-- The items that a run reaches, each with the registry that it finds. `front` runs the first items
only: an item is reached if those before it can be run without an error. -/
def reached (front : List α → Run) (xs : List α) : List (α × Registry) :=
  xs.zipIdx.filterMap fun (x, i) =>
    if (front (xs.take i)).error? = none then some (x, (front (xs.take i)).registry) else none

theorem reached_concat (front : List α → Run) (xs : List α) (x : α) :
    reached front (xs ++ [x]) = reached front xs ++
      if (front xs).error? = none then [(x, (front xs).registry)] else [] := by
  rw [reached, List.zipIdx_append, List.filterMap_append]
  congr 1
  · refine List.filterMap_congr fun ⟨y, i⟩ hy => ?_
    have hlt : i < xs.length := by simpa using List.snd_lt_of_mem_zipIdx hy
    simp only [List.take_append_of_le_length (Nat.le_of_lt hlt)]
  · split <;> simp [*]

/-- Each item adds to what the items before it come to. -/
def RunsInTurn (step : α → Registry → Run) (front : List α → Run) : Prop :=
  ∀ xs x, front (xs ++ [x]) = (front xs).andThen (step x)

namespace RunsInTurn

theorem events_eq (h : RunsInTurn step front) (xs : List α) :
    (front xs).events = (front []).events ++
      (reached front xs).flatMap fun (x, seen) => (step x seen).events := by
  induction xs using List.reverseRecOn with
  | nil => simp [reached]
  | append_singleton xs x ih =>
    rw [h, reached_concat]
    cases he : (front xs).error? with
    | some e =>
      rw [Run.andThen_of_error he, ih]
      simp
    | none =>
      rw [Run.andThen_of_none he, ih]
      simp

/-- A run without an error reaches every item. -/
theorem map_fst_reached (h : RunsInTurn step front) {xs : List α}
    (hxs : (front xs).error? = none) : (reached front xs).map Prod.fst = xs := by
  induction xs using List.reverseRecOn with
  | nil => rfl
  | append_singleton xs x ih =>
    rw [h, Run.error?_andThen_eq_none_iff] at hxs
    rw [reached_concat, if_pos hxs.1, List.map_append, ih hxs.1]
    rfl

/-- Items after one that fails are not run. -/
theorem append_of_error (h : RunsInTurn step front) {xs : List α} {e : RegistryError}
    (he : (front xs).error? = some e) (later : List α) : front (xs ++ later) = front xs := by
  induction later using List.reverseRecOn with
  | nil => rw [List.append_nil]
  | append_singleton later x ih =>
    rw [← List.append_assoc, h, ih]
    exact Run.andThen_of_error he _

theorem append_cons_of_error (h : RunsInTurn step front) {before : List α} {x : α}
    {e : RegistryError} (he : (front (before ++ [x])).error? = some e) (after : List α) :
    front (before ++ x :: after) = (front before).andThen (step x) := by
  rw [List.append_cons, h.append_of_error he, h]

/-- A run fails if it fails before any item, or if there is a first item that it fails with. -/
theorem error?_iff (h : RunsInTurn step front) {xs : List α} {e : RegistryError} :
    (front xs).error? = some e ↔ (front []).error? = some e ∨
      ∃ before x after, xs = before ++ x :: after ∧ (front before).error? = none ∧
        (front (before ++ [x])).error? = some e := by
  constructor
  · intro he
    induction xs using List.reverseRecOn with
    | nil => exact Or.inl he
    | append_singleton xs x ih =>
      cases hxs : (front xs).error? with
      | none => exact Or.inr ⟨xs, x, [], rfl, hxs, he⟩
      | some e' =>
        rw [h, Run.andThen_of_error hxs] at he
        rcases ih he with hnil | ⟨before, y, after, rfl, hbefore, hy⟩
        · exact Or.inl hnil
        · exact Or.inr ⟨before, y, after ++ [x], by simp, hbefore, hy⟩
  · rintro (hnil | ⟨before, x, after, rfl, -, hx⟩)
    · rwa [← List.nil_append xs, h.append_of_error hnil]
    · rwa [List.append_cons, h.append_of_error hx]

end RunsInTurn

end Turns

/-! ## Components and configurations -/

/-- A run of a configuration with its first components only. -/
def Configuration.runThrough (view : Viewpoint) (c : Configuration) (r : Registry)
    (components : List Registration) : Run :=
  r.runConfiguration view { c with components }

/-- The components that a run of a configuration reaches. -/
def Configuration.reachedComponents (view : Viewpoint) (c : Configuration) (r : Registry) :
    List (Registration × Registry) :=
  reached (c.runThrough view r) c.components

/-- The configurations that a run of a plan reaches. -/
def Plan.reachedConfigurations (p : Plan) : List (Configuration × Registry) :=
  reached p.runThrough p.ordered

/-- A run of a configuration fails at the declaration of the configuration if it fails without any
components, and at that of a component if it fails once this component has joined those before
it. -/
inductive Registry.FailsAt (view : Viewpoint) (r : Registry) (c : Configuration)
    (e : RegistryError) : Subject → Prop where
  | configuration : (c.runThrough view r []).error? = some e →
      FailsAt view r c e (.configuration c.declaration)
  | component {before : List Registration} {k : Registration} {after : List Registration} :
      c.components = before ++ k :: after → (c.runThrough view r before).error? = none →
      (c.runThrough view r (before ++ [k])).error? = some e →
      FailsAt view r c e (.component k.declaration)

/-- A run of a plan fails at a declaration of `c` if it comes as far as `c`, after the
configurations in `before`, and `c` fails there. -/
structure Plan.FailsAt (p : Plan) (before : List Configuration) (c : Configuration)
    (e : RegistryError) (subject : Subject) : Prop where
  ordered : ∃ after, p.ordered = before ++ c :: after
  succeeded : (p.runThrough before).error? = none
  failed : (p.runThrough before).registry.FailsAt p.view c e subject

namespace Registry

variable {view : Viewpoint} {r : Registry} {c : Configuration} {e : RegistryError}

theorem runsInTurn_components
    (ha : r.admits view c.conditions (.configuration c.declaration) = true) :
    RunsInTurn (runComponent view c.declaration.name) (c.runThrough view r) := by
  intro components k
  rw [Configuration.runThrough, runConfiguration_append ha, runEach_singleton]
  rfl

theorem admits_of_error {components : List Registration}
    (h : (c.runThrough view r components).error? = some e) :
    r.admits view c.conditions (.configuration c.declaration) = true := by
  cases ha : r.admits view c.conditions (.configuration c.declaration) with
  | true => rfl
  | false =>
    have hnone : (c.runThrough view r components).error? = none :=
      error?_runConfiguration_of_not_admits ha
    rw [hnone] at h
    cases h

theorem error?_runConfiguration_iff :
    (r.runConfiguration view c).error? = some e ↔ ∃ subject, r.FailsAt view c e subject := by
  have hrun : r.runConfiguration view c = c.runThrough view r c.components := rfl
  constructor
  · intro h
    have hturns := runsInTurn_components (admits_of_error (hrun ▸ h))
    rw [hrun, hturns.error?_iff] at h
    rcases h with hown | ⟨before, k, after, hs, hbefore, hk⟩
    · exact ⟨_, .configuration hown⟩
    · exact ⟨_, .component hs hbefore hk⟩
  · rintro ⟨_, hown | ⟨hs, hbefore, hk⟩⟩
    · rw [hrun, (runsInTurn_components (admits_of_error hown)).error?_iff]
      exact Or.inl hown
    · rw [hrun, (runsInTurn_components (admits_of_error hk)).error?_iff]
      exact Or.inr ⟨_, _, _, hs, hbefore, hk⟩

end Registry

namespace Plan

theorem runsInTurn_configurations (p : Plan) :
    RunsInTurn (Registry.runConfiguration p.view) p.runThrough := by
  intro configurations c
  simp only [runThrough, Registry.runConfigurations_eq_runEach]
  rw [Registry.runEach_append, Registry.runEach_singleton]

theorem build_eq_error_iff_failsAt {p : Plan} {e : RegistryError} :
    p.build.value = .error e ↔ ∃ before c subject, p.FailsAt before c e subject := by
  simp only [build_eq_error_iff, Registry.error?_runConfiguration_iff]
  constructor
  · intro ⟨before, c, after, hs, hbefore, subject, h⟩
    exact ⟨before, c, subject, ⟨after, hs⟩, hbefore, h⟩
  · intro ⟨before, c, subject, ⟨after, hs⟩, hbefore, h⟩
    exact ⟨before, c, after, hs, hbefore, subject, h⟩

end Plan
end Componentry
