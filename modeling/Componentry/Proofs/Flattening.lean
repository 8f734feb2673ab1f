import Componentry.Proofs.Lineage
import Componentry.Proofs.Meaning
import Componentry.Proofs.Visibility

/-!
# Componentry.Proofs.Flattening

Searching a hierarchy of registries is searching one registry. `Registry.flatten` walks registries
from the closest to the farthest and adopts each definition whose name is still free; what it ends
with are the unhidden definitions (`definitions_flatten`). `evaluate_flatten`: criteria that name no
factory find the same names, in the same order, in a hierarchy and in what its searched registries
flatten to.
-/

namespace Componentry
namespace Registry

/-- Registers a definition unless its name is taken. -/
def adopt (r : Registry) (d : Definition) : Registry :=
  if r.catalog.isRegistered d.name then r
  else
    match r.define d with
    | .ok r' => r'
    | .error _ => r

/-- The registry without a parent that adopts the definitions of all registries, one registry after
the other. -/
def flatten (registries : List Registry) : Registry :=
  (registries.flatMap (·.definitions)).foldl adopt (create false none)

/-- The registries that a search from `r` covers, given those above it. -/
def searched (r : Registry) (ancestors : List Registry) : Reach → List Registry
  | .current => [r]
  | .ancestors => ancestors.take 64
  | .all => r :: ancestors.take 64

theorem Kept.adopt {P : Registry → Prop} (k : Kept P) {r : Registry} (h : P r) (d : Definition) :
    P (r.adopt d) := by
  rw [Registry.adopt]
  split
  · exact h
  · split
    · rename_i r' hd
      exact k.define h hd
    · exact h

theorem Kept.foldl_adopt {P : Registry → Prop} (k : Kept P) {r : Registry} (h : P r)
    (ds : List Definition) : P (ds.foldl Registry.adopt r) := by
  induction ds generalizing r with
  | nil => exact h
  | cons d ds ih => exact ih (k.adopt h d)

theorem definitions_adopt {r : Registry} {d : Definition} (hs : r.catalog.Sound)
    (ho : r.overriding = false) (hv : isValidName d.name = true) :
    (r.adopt d).definitions =
      r.definitions ++ if r.catalog.isRegistered d.name then [] else [d] := by
  rw [adopt]
  split
  · rw [List.append_nil]
  · rename_i hfree
    have hnone : r.catalog.position? d.name = none := by
      rw [hs.position?_eq_none_iff]
      intro e he heq
      exact hfree (heq ▸ hs.isRegistered_of_mem he)
    have hd : r.define d = .ok { r with catalog := r.catalog.put d } :=
      define_eq_ok_iff.2 ⟨hv, Or.inr hnone, rfl⟩
    rw [hd]
    exact definitions_define ho hd

/-- Adopting definitions of different names adds those whose names were free before. -/
theorem definitions_foldl_adopt {r : Registry} {ds : List Definition} (hs : r.catalog.Sound)
    (ho : r.overriding = false) (hv : ∀ d ∈ ds, isValidName d.name = true)
    (hn : (ds.map (·.name)).Nodup) :
    (ds.foldl adopt r).definitions =
      r.definitions ++ ds.filter fun d => !r.catalog.isRegistered d.name := by
  induction ds generalizing r with
  | nil => simp
  | cons d ds ih =>
    have hd := hv d (by simp)
    have hnd := List.nodup_cons.1 hn
    have hadopt := definitions_adopt hs ho hd
    have hs' := kept_sound.adopt hs d
    rw [List.foldl_cons, ih hs' ((kept_overriding _).adopt ho d)
      (fun e he => hv e (List.mem_cons_of_mem d he)) hnd.2, hadopt, List.append_assoc,
      List.filter_cons]
    have hrest : ds.filter (fun e => !(r.adopt d).catalog.isRegistered e.name) =
        ds.filter fun e => !r.catalog.isRegistered e.name := by
      refine List.filter_congr fun e he => ?_
      have he' := unmarked_of_isValidName (hv e (List.mem_cons_of_mem d he))
      have hne : d.name ≠ e.name := by
        intro heq
        exact hnd.1 (List.mem_map.2 ⟨e, he, heq.symm⟩)
      congr 1
      rw [Bool.eq_iff_iff, hs'.isRegistered_iff_of_unmarked he',
        hs.isRegistered_iff_of_unmarked he']
      show (∃ x ∈ (r.adopt d).definitions, _) ↔ _
      rw [hadopt]
      constructor
      · rintro ⟨x, hx, hxe⟩
        rcases List.mem_append.1 hx with hx | hx
        · exact ⟨x, hx, hxe⟩
        · split at hx
          · cases hx
          · rw [List.mem_singleton.1 hx] at hxe
            exact absurd hxe hne
      · rintro ⟨x, hx, hxe⟩
        exact ⟨x, List.mem_append_left _ hx, hxe⟩
    rw [hrest]
    cases r.catalog.isRegistered d.name <;> rfl

theorem flatten_concat (registries : List Registry) (r : Registry) :
    flatten (registries ++ [r]) = r.definitions.foldl adopt (flatten registries) := by
  simp [flatten, List.flatMap_append, List.foldl_append]

theorem sound_flatten (registries : List Registry) : (flatten registries).catalog.Sound :=
  kept_sound.foldl_adopt Catalog.sound_empty _

theorem overriding_flatten (registries : List Registry) :
    (flatten registries).overriding = false :=
  (kept_overriding false).foldl_adopt rfl _

theorem definitions_flatten {registries : List Registry}
    (hs : ∀ r ∈ registries, r.catalog.Sound) :
    (flatten registries).definitions = unhidden (registries.map (·.catalog)) := by
  induction registries using List.reverseRecOn with
  | nil => rfl
  | append_singleton registries r ih =>
    have hs' : ∀ r ∈ registries, r.catalog.Sound := fun r hr =>
      hs r (List.mem_append_left _ hr)
    have hr := hs r (by simp)
    have hcatalogs : ∀ c ∈ registries.map (·.catalog), c.Sound := List.forall_mem_map.2 hs'
    have hfold : (r.definitions.foldl adopt (flatten registries)).definitions = _ :=
      definitions_foldl_adopt (sound_flatten _) (overriding_flatten _) hr.valid hr.nodup_names
    rw [flatten_concat, hfold, ih hs', List.map_append, List.map_singleton, unhidden_concat]
    congr 1
    refine List.filter_congr fun d hd => ?_
    rw [Bool.eq_iff_iff, Bool.not_eq_true', Bool.not_eq_true', ← Bool.not_eq_true,
      ← Bool.not_eq_true, (sound_flatten _).isRegistered_iff_of_unmarked (hr.unmarked hd),
      ← exists_mem_unhidden_iff hcatalogs (hr.unmarked hd), ← ih hs']
    rfl

theorem searched_subset {r s : Registry} {ancestors : List Registry} {reach : Reach}
    (h : s ∈ r.searched ancestors reach) : s ∈ r :: ancestors := by
  cases reach with
  | current => exact List.mem_cons.2 (Or.inl (List.mem_singleton.1 h))
  | ancestors => exact List.mem_cons_of_mem r (List.mem_of_mem_take h)
  | all =>
    rcases List.mem_cons.1 h with rfl | h
    · exact List.mem_cons_self
    · exact List.mem_cons_of_mem r (List.mem_of_mem_take h)

theorem sound_searched {r : Registry} {ancestors : List Registry}
    (hs : ∀ s ∈ r :: ancestors, s.catalog.Sound) (reach : Reach) :
    ∀ c ∈ (r.searched ancestors reach).map (·.catalog), c.Sound :=
  List.forall_mem_map.2 fun s h => hs s (searched_subset h)

theorem searched_hierarchy {r : Registry} {ancestors : List Registry}
    (h : r.ancestors = ancestors.map (·.catalog.level)) (reach : Reach) :
    r.hierarchy.searched reach = ((r.searched ancestors reach).map (·.catalog)).map (·.level) := by
  rw [List.map_map]
  cases reach with
  | current => rfl
  | ancestors => simp [Hierarchy.searched, searched, hierarchy, h]; rfl
  | all => simp [Hierarchy.searched, searched, hierarchy, h]; rfl

theorem findings_flatten {r : Registry} {ancestors : List Registry}
    (h : Lineage (r :: ancestors)) (reach : Reach) {c : Criteria}
    (hn : ∀ name ∈ c.names, isFactoryName name = false) :
    c.findings (r.hierarchy.searched reach) =
      c.findings ((flatten (r.searched ancestors reach)).hierarchy.searched .current) := by
  have hsound : ∀ s ∈ r.searched ancestors reach, s.catalog.Sound := fun s hs =>
    h.sound s (searched_subset hs)
  have hsingle : ∀ k ∈ [(flatten (r.searched ancestors reach)).catalog], k.Sound := by
    intro k hk
    rw [List.mem_singleton.1 hk]
    exact sound_flatten _
  have hflat : unhidden ((r.searched ancestors reach).map (·.catalog)) =
      unhidden [(flatten (r.searched ancestors reach)).catalog] := by
    rw [unhidden_singleton, ← definitions_flatten hsound, definitions]
  rw [searched_hierarchy h.ancestors_eq,
    findings_congr (sound_searched h.sound reach) hsingle hflat hn, List.map_singleton]
  rfl

end Registry

theorem forSubject?_withReach (c : Criteria) (reach : Reach) (subject : Subject) :
    ({ c with reach } : Criteria).forSubject? subject =
      (c.forSubject? subject).map fun e => { e with reach } := by
  show (if c.isOpen then _ else _) = (if c.isOpen then _ else _ : Option Criteria).map _
  split
  · cases subject.impliedType? c.container? <;> rfl
  · rfl

/-- What criteria find in a hierarchy of registries they find in the one registry that the searched
ones flatten to. -/
theorem evaluate_flatten {r : Registry} {ancestors : List Registry}
    (h : Lineage (r :: ancestors)) (subject : Subject) {c : Criteria}
    (hn : ∀ name ∈ c.names, isFactoryName name = false) :
    (evaluate subject c r.hierarchy).value.matched =
        (evaluate subject { c with reach := .current }
          (Registry.flatten (r.searched ancestors c.reach)).hierarchy).value.matched ∧
      (evaluate subject c r.hierarchy).value.names =
        (evaluate subject { c with reach := .current }
          (Registry.flatten (r.searched ancestors c.reach)).hierarchy).value.names := by
  have hnames : (evaluate subject c r.hierarchy).value.names =
      (evaluate subject { c with reach := .current }
        (Registry.flatten (r.searched ancestors c.reach)).hierarchy).value.names := by
    rw [names_evaluate, names_evaluate, forSubject?_withReach c .current]
    cases he : c.forSubject? subject with
    | none => rw [Option.map_none, Option.elim_none, Option.elim_none]
    | some e =>
      obtain ⟨hnames, hreach⟩ := names_and_reach_of_forSubject? he
      have hfindings := Registry.findings_flatten h c.reach (hnames ▸ hn)
      rw [Option.map_some, Option.elim_some, Option.elim_some, hreach]
      exact congrArg (fun findings => (findings.flatMap (·.names)).eraseDups) hfindings
  refine ⟨?_, hnames⟩
  rw [Match.matched, Match.matched, hnames]

/-- A name that a child registers for another type hides that of its parent, also in the flattened
registry. -/
theorem evaluate_flatten_hidden :
    let parent := ((Registry.create false none).call
      (.register { name := "a", hint? := some (.plain "T") })).call
        (.register { name := "b", hint? := some (.plain "T") })
    let child := (Registry.create true (some parent.hierarchy)).call
      (.register { name := "a", hint? := some (.plain "U") })
    let subject := Subject.component { name := "c" }
    let criteria : Criteria := { names := ["c"], types := [.plain "T"] }
    Lineage [child, parent] ∧ (∀ name ∈ criteria.names, isFactoryName name = false) ∧
      (evaluate subject criteria child.hierarchy).value.names = ["b"] ∧
      (evaluate subject { criteria with reach := .current }
        (Registry.flatten [child, parent]).hierarchy).value.names = ["b"] := by
  intro parent child subject criteria
  have hlineage : Lineage [child, parent] :=
    .child (.root (.call (.call .empty _) _)) (.call .empty _)
  have hunmarked : ∀ name ∈ criteria.names, isFactoryName name = false := by decide +kernel
  have hchild : (evaluate subject criteria child.hierarchy).value.names = ["b"] := by
    decide +kernel
  have hflat := evaluate_flatten hlineage subject hunmarked
  exact ⟨hlineage, hunmarked, hchild, hflat.2.symm.trans hchild⟩

end Componentry
