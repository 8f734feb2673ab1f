import Componentry.Proofs.Containment
import Componentry.Proofs.Flattening

/-!
# Componentry.Proofs.Shadowing

Names behind the mark in a hierarchy of registries. A name leads to the definition of the closest
registry that has one (`Registry.closest?`), and that one hides what farther registries define under
the name: these are the definitions that searches by type go through (`closest?_eq_some_iff`).
Criteria by name go another way: it is enough that a name is present at any level that is searched,
so nothing hides a factory from a search for its marked name. `marked_name_found_iff`: such a search
matches if and only if there is a factory at any level. `hidden_factory_found` is a factory that is
found by its name although a closer definition hides it from searches by type.
-/

namespace Componentry
namespace Registry

/-- The definition that a name without the mark leads to: that of the closest registry. -/
def closest? (registries : List Registry) (name : String) : Option Definition :=
  registries.findSome? (·.catalog.component? name)

/-- A registry defines a factory under a name. -/
def HasFactory (r : Registry) (name : String) : Prop :=
  ∃ d ∈ r.definitions, d.name = name ∧ d.declaration.isFactory = true

/-- The closest definition of a name is no factory, and a registry behind it defines one. -/
structure HidesFactory (registries : List Registry) (name : String) : Prop where
  closest : ∃ d, closest? registries name = some d ∧ d.declaration.isFactory = false
  hidden : ∃ r ∈ registries, r.HasFactory name

variable {registries : List Registry} {name : String} {d : Definition}

theorem closest?_cons (r : Registry) (registries : List Registry) (name : String) :
    closest? (r :: registries) name =
      (r.catalog.component? name).or (closest? registries name) := by
  rw [closest?, List.findSome?_cons]
  cases r.catalog.component? name <;> rfl

/-- A name leads to the one definition of it that is unhidden. -/
theorem closest?_eq_some_iff (hs : ∀ r ∈ registries, r.catalog.Sound)
    (hn : isFactoryName name = false) :
    closest? registries name = some d ↔
      d ∈ unhidden (registries.map (·.catalog)) ∧ d.name = name := by
  induction registries with
  | nil => simp [closest?, unhidden]
  | cons r registries ih =>
    have hr := hs r List.mem_cons_self
    have ih := ih fun s h => hs s (List.mem_cons_of_mem r h)
    rw [closest?_cons, List.map_cons, unhidden_cons, List.mem_append, List.mem_filter, or_and_right,
      Option.or_eq_some_iff, hr.component?_eq_some_iff_of_unmarked hn, ih]
    refine or_congr_right ?_
    -- the closest registry is passed over if it does not register the name
    have hfree : r.catalog.component? name = none ↔ (!r.catalog.isRegistered name) = true := by
      rw [Catalog.isRegistered]
      cases r.catalog.component? name <;> simp
    rw [hfree]
    constructor
    · rintro ⟨hnew, hd, rfl⟩
      exact ⟨⟨hd, hnew⟩, rfl⟩
    · rintro ⟨⟨hd, hnew⟩, rfl⟩
      exact ⟨hnew, hd, rfl⟩

theorem hasFactory_of_closest? (hs : ∀ r ∈ registries, r.catalog.Sound)
    (hn : isFactoryName name = false) (hd : closest? registries name = some d)
    (hf : d.declaration.isFactory = true) : ∃ r ∈ registries, r.HasFactory name := by
  obtain ⟨r, hr, hd⟩ := List.exists_of_findSome?_eq_some hd
  obtain ⟨hd, hname⟩ := ((hs r hr).component?_eq_some_iff_of_unmarked hn).1 hd
  exact ⟨r, hr, d, hd, hname, hf⟩

/-- What a registry defines is found there or hidden by something closer. -/
theorem exists_closest? {r : Registry} (hs : ∀ r ∈ registries, r.catalog.Sound)
    (hr : r ∈ registries) (hf : r.HasFactory name) :
    ∃ d, closest? registries name = some d := by
  obtain ⟨d, hd, rfl, _⟩ := hf
  refine Option.isSome_iff_exists.1 (List.findSome?_isSome_iff.2 ⟨r, hr, ?_⟩)
  rw [(hs r hr).component?_of_mem hd]
  rfl

theorem isRegistered_factoryName_iff {r : Registry} (s : r.catalog.Sound) :
    r.catalog.isRegistered (factoryName name) = true ↔ r.HasFactory name := by
  rw [Catalog.isRegistered, Option.isSome_iff_exists]
  simp only [s.component?_eq_some_iff, baseName_factoryName, isFactoryName_factoryName,
    true_implies]
  exact exists_congr fun d => Iff.rfl

end Registry

/-- In a hierarchy whose registries are all within reach, a search for a marked name matches if and
only if any of them defines a factory under the name. That the closest definition of the name is a
factory comes to the same, unless a closest definition that is none hides a factory. -/
theorem marked_name_found_iff {r : Registry} {ancestors : List Registry}
    (h : Lineage (r :: ancestors)) (hshort : ancestors.length ≤ 64) (subject : Subject)
    (container? : Option ComponentType) {name : String} (hn : isFactoryName name = false) :
    let criteria : Criteria := { names := [factoryName name], container?, reach := .all }
    let found := (evaluate subject criteria r.hierarchy).value
    (found.matched = true ↔ ∃ s ∈ r :: ancestors, s.HasFactory name) ∧
      ((found.matched = true ↔ ∃ d, Registry.closest? (r :: ancestors) name = some d ∧
          d.declaration.isFactory = true) ↔
        ¬ Registry.HidesFactory (r :: ancestors) name) := by
  intro criteria found
  have hfound : found.matched = true ↔ ∃ s ∈ r :: ancestors, s.HasFactory name := by
    have hall : r.searched ancestors .all = r :: ancestors := by
      have htake : ancestors.take 64 = ancestors := List.take_of_length_le hshort
      rw [Registry.searched, htake]
    rw [show found.matched = _ from matched_evaluate_name subject _ _ container? .all,
      Registry.searched_hierarchy h.ancestors_eq, hall, List.any_map, List.any_map,
      List.any_eq_true]
    exact exists_congr fun s => and_congr_right fun hs =>
      Registry.isRegistered_factoryName_iff (h.sound s hs)
  refine ⟨hfound, ?_⟩
  rw [hfound]
  constructor
  · rintro hagree ⟨⟨d, hd, hplain⟩, hhidden⟩
    obtain ⟨e, he, hfactory⟩ := hagree.1 hhidden
    rw [hd] at he
    cases he
    rw [hplain] at hfactory
    cases hfactory
  · intro hopen
    constructor
    · rintro ⟨s, hs, hf⟩
      obtain ⟨d, hd⟩ := Registry.exists_closest? h.sound hs hf
      refine ⟨d, hd, ?_⟩
      by_contra hplain
      exact hopen ⟨⟨d, hd, Bool.eq_false_iff.2 hplain⟩, s, hs, hf⟩
    · rintro ⟨d, hd, hf⟩
      exact Registry.hasFactory_of_closest? h.sound hn hd hf

/-- A factory is found whether it hides a plain component or is hidden by one, and where it hides
one, it is what its name leads to. -/
theorem marked_name_found_iff_either :
    let plain : Declaration := { name := "n" }
    let factory : Declaration :=
      { name := "n", type? := some ((ComponentType.plain "F").asFactory none) }
    let parent (d : Declaration) := (Registry.create false none).call (.register d)
    let child (d above : Declaration) :=
      (Registry.create false (some (parent above).hierarchy)).call (.register d)
    let found (d above : Declaration) := (evaluate (.configuration { name := "c" })
      { names := [factoryName "n"], reach := .all } (child d above).hierarchy).value
    (∀ d above, Lineage [child d above, parent above]) ∧ [parent plain].length ≤ 64 ∧
      isFactoryName "n" = false ∧ (parent factory).HasFactory "n" ∧
      (found plain factory).matched = true ∧ (found factory plain).matched = true ∧
      ¬ Registry.HidesFactory [child factory plain, parent plain] "n" ∧
      ∃ d, Registry.closest? [child factory plain, parent plain] "n" = some d ∧
        d.declaration.isFactory = true := by
  intro plain factory parent child found
  have hlineage : ∀ d above, Lineage [child d above, parent above] := fun _ _ =>
    .child (.root (.call .empty _)) (.call .empty _)
  have hshort : [parent plain].length ≤ 64 := by decide
  have hunmarked : isFactoryName "n" = false := by decide
  have hhas : (parent factory).HasFactory "n" :=
    ⟨{ declaration := factory }, by decide +kernel, rfl, rfl⟩
  have hclosest : Registry.closest? [child factory plain, parent plain] "n" =
      some { declaration := factory } := by decide +kernel
  have hopen : ¬ Registry.HidesFactory [child factory plain, parent plain] "n" := by
    rintro ⟨⟨d, hd, hplain⟩, _⟩
    rw [hclosest] at hd
    cases hd
    exact absurd hplain (by decide)
  have hfactory : ∃ d, Registry.closest? [child factory plain, parent plain] "n" = some d ∧
      d.declaration.isFactory = true := ⟨_, hclosest, rfl⟩
  obtain ⟨hanywhere, _⟩ := marked_name_found_iff (hlineage plain factory) hshort
    (.configuration { name := "c" }) none hunmarked
  obtain ⟨_, hagree⟩ := marked_name_found_iff (hlineage factory plain) hshort
    (.configuration { name := "c" }) none hunmarked
  exact ⟨hlineage, hshort, hunmarked, hhas,
    hanywhere.2 ⟨parent factory, List.mem_cons_of_mem _ List.mem_cons_self, hhas⟩,
    (hagree.2 hopen).2 hfactory, hopen, hfactory⟩

/-- A plain component hides the factory of its parent under both names where the search is by type,
but a search for the marked name finds the factory. -/
theorem hidden_factory_found :
    let factory : Declaration :=
      { name := "n", type? := some ((ComponentType.plain "F").asFactory none) }
    let parent := (Registry.create false none).call (.register factory)
    let child := (Registry.create false (some parent.hierarchy)).call (.register { name := "n" })
    let search (c : Criteria) := (evaluate (.configuration { name := "c" }) c child.hierarchy).value
    let found := search { names := [factoryName "n"], reach := .all }
    Lineage [child, parent] ∧
      (search { types := [.plain "F"], reach := .all }).names = [] ∧ found.matched = true ∧
      ¬ (found.matched = true ↔ ∃ d, Registry.closest? [child, parent] "n" = some d ∧
        d.declaration.isFactory = true) := by
  intro factory parent child search found
  have hlineage : Lineage [child, parent] :=
    .child (.root (.call .empty _)) (.call .empty _)
  have hfound : found.matched = true := by decide +kernel
  refine ⟨hlineage, by decide +kernel, hfound, fun hagree => ?_⟩
  obtain ⟨d, hd, hfactory⟩ := hagree.1 hfound
  have hclosest : Registry.closest? [child, parent] "n" =
      some { declaration := { name := "n" } } := by decide +kernel
  rw [hclosest] at hd
  cases hd
  exact absurd hfactory (by decide)

end Componentry
