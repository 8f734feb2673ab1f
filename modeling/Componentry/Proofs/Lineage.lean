import Componentry.Proofs.Run

/-!
# Componentry.Proofs.Lineage

Registries as they come about. `Registry.Reachable` are the registries that calls make of an empty
one, refused calls included, and a `Lineage` is a reachable registry with the reachable registries
above it. All catalogs of a lineage are sound (`Lineage.sound`), and what is seen from its first
registry are the levels of these catalogs (`Lineage.ancestors_eq`).
-/

namespace Componentry

/-- What a registry may be asked to do. -/
inductive Call where
  | register (d : Declaration)
  | runConfiguration (view : Viewpoint) (c : Configuration)

namespace Registry

/-- The registry after a call. A call that is refused leaves behind what was done until then. -/
def call (r : Registry) : Call → Registry
  | .register d =>
    match r.register d with
    | .ok r' => r'
    | .error _ => r
  | .runConfiguration view c => (r.runConfiguration view c).registry

/-- The registries that calls make of an empty one, under a policy and below a parent. -/
inductive Reachable (overriding : Bool) (parent? : Option Hierarchy) : Registry → Prop where
  | empty : Reachable overriding parent? (create overriding parent?)
  | call {r : Registry} : Reachable overriding parent? r → (k : Call) →
      Reachable overriding parent? (r.call k)

theorem Kept.call {P : Registry → Prop} (k : Kept P) {r : Registry} (h : P r) (c : Call) :
    P (r.call c) := by
  cases c with
  | register d =>
    simp only [Registry.call]
    split
    · rename_i r' hd
      exact k.define h hd
    · exact h
  | runConfiguration view c => exact k.runConfiguration view c h

theorem Kept.reachable {P : Registry → Prop} (k : Kept P) {overriding : Bool}
    {parent? : Option Hierarchy} {r : Registry} (h : P (create overriding parent?))
    (hr : r.Reachable overriding parent?) : P r := by
  induction hr with
  | empty => exact h
  | call _ c ih => exact k.call ih c

variable {overriding : Bool} {parent? : Option Hierarchy} {r : Registry}

theorem Reachable.calls (h : r.Reachable overriding parent?) (calls : List Call) :
    (calls.foldl Registry.call r).Reachable overriding parent? := by
  induction calls generalizing r with
  | nil => exact h
  | cons k calls ih => exact ih (h.call k)

theorem Reachable.sound (h : r.Reachable overriding parent?) : r.catalog.Sound :=
  kept_sound.reachable Catalog.sound_empty h

theorem Reachable.ancestors_eq (h : r.Reachable overriding parent?) :
    r.ancestors = (parent?.map (·.levels)).getD [] :=
  (kept_ancestors _).reachable rfl h

theorem Reachable.overriding_eq (h : r.Reachable overriding parent?) :
    r.overriding = overriding :=
  (kept_overriding _).reachable rfl h

end Registry

/-- A registry and the registries above it, the closest one first, each of them reachable under a
policy of its own. -/
inductive Lineage : List Registry → Prop where
  | root {overriding : Bool} {r : Registry} : r.Reachable overriding none → Lineage [r]
  | child {overriding : Bool} {r parent : Registry} {ancestors : List Registry} :
      Lineage (parent :: ancestors) → r.Reachable overriding (some parent.hierarchy) →
      Lineage (r :: parent :: ancestors)

theorem Lineage.sound {registries : List Registry} (h : Lineage registries) :
    ∀ r ∈ registries, r.catalog.Sound := by
  induction h with
  | root hr =>
    intro s hs
    rw [List.mem_singleton.1 hs]
    exact hr.sound
  | child _ hr ih =>
    intro s hs
    rcases List.mem_cons.1 hs with rfl | hs
    · exact hr.sound
    · exact ih s hs

theorem Lineage.ancestors_eq {r : Registry} {ancestors : List Registry}
    (h : Lineage (r :: ancestors)) : r.ancestors = ancestors.map (·.catalog.level) := by
  generalize hl : r :: ancestors = registries at h
  induction h generalizing r ancestors with
  | root hr =>
    cases hl
    exact hr.ancestors_eq
  | child _ hr ih =>
    cases hl
    rw [hr.ancestors_eq, List.map_cons, ← ih rfl]
    rfl

end Componentry
