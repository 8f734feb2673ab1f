import Componentry.Proofs.Listing
import Componentry.Proofs.Queries
import Componentry.Proofs.Shadowing

/-!
# Componentry.Proofs.Elements

How far a search by type looks into containers. A type asks for an element by its name, so what the
element in turn contains plays no part (`ComponentType.conformsTo_congr`). `found_elements_named`:
whatever is found for a container of an element holds an element of the same name, and what is found
depends on nothing but that name. A `Box<Bag<T>>` is therefore found for a `Box<Bag<U>>`
(`nested_element_found`).
-/

namespace Componentry

/-- The type that a name of a definition stands for: what the component provides or, behind the
mark, the factory that it is. -/
def Definition.typeUnder? (d : Definition) (name : String) : Option ComponentType :=
  if isFactoryName name then d.declaration.type?.filter (·.isFactory) else d.declaration.produced?

namespace ComponentType

variable {target target' : ComponentType}

/-- Two types ask for the same if their own names and those of their elements are the same. -/
theorem conformsTo_congr (hname : target.name = target'.name)
    (helement : target.element?.map (·.name) = target'.element?.map (·.name))
    (t : ComponentType) : t.conformsTo target = t.conformsTo target' := by
  rw [Bool.eq_iff_iff]
  cases he : target.element? with
  | none =>
    rw [he, Option.map_none, eq_comm, Option.map_eq_none_iff] at helement
    rw [conformsTo_iff_of_no_element he, conformsTo_iff_of_no_element helement, hname]
  | some element =>
    rw [he, Option.map_some, eq_comm, Option.map_eq_some_iff] at helement
    obtain ⟨element', he', hsame⟩ := helement
    rw [conformsTo_iff_of_element he, conformsTo_iff_of_element he', hname, hsame]

end ComponentType

namespace Definition

variable {target : ComponentType} {d : Definition} {name : String}

theorem namesOfType_congr {target' : ComponentType}
    (h : ∀ t : ComponentType, t.conformsTo target = t.conformsTo target') (d : Definition) :
    d.namesOfType target = d.namesOfType target' := by
  have hprovides : d.declaration.provides target = d.declaration.provides target' := by
    simp only [Declaration.provides, h]
  have hfactory : d.declaration.isFactoryOfType target = d.declaration.isFactoryOfType target' := by
    simp only [Declaration.isFactoryOfType, h]
  rw [namesOfType, namesOfType, hprovides, hfactory]

/-- A name answers to a type if what it stands for conforms to the type. -/
theorem exists_typeUnder? (hd : isFactoryName d.name = false) (hn : name ∈ d.namesOfType target) :
    ∃ t, d.typeUnder? name = some t ∧ t.conformsTo target = true := by
  rcases mem_namesOfType_iff.1 hn with ⟨rfl, hprovides⟩ | ⟨rfl, hfactory⟩
  · obtain ⟨produced, hp, hconforms⟩ := Declaration.provides_iff.1 hprovides
    exact ⟨produced, by rw [typeUnder?, hd, if_neg Bool.false_ne_true, hp], hconforms⟩
  · obtain ⟨hmark, t, ht, hconforms⟩ := Declaration.isFactoryOfType_iff.1 hfactory
    rw [Declaration.isFactory, ht, Option.any_some] at hmark
    refine ⟨t, ?_, hconforms⟩
    rw [typeUnder?, if_pos (isFactoryName_factoryName d.name), ht, Option.filter_some, if_pos hmark]

end Definition

/-- What is listed for one type is answered by an unhidden definition. -/
theorem exists_unhidden_of_mem_listed {catalogs : List Catalog} {target : ComponentType}
    {ignored : List ComponentType} {name : String}
    (h : name ∈ listed catalogs [target] ignored [] []) :
    ∃ d ∈ unhidden catalogs, name ∈ d.namesOfType target := by
  simp only [listed, List.flatMap_nil, List.filter_nil, List.append_nil, List.mem_eraseDups,
    List.mem_filter, mem_answers_iff, List.mem_singleton, exists_eq_left] at h
  exact h.1

theorem listed_congr {catalogs : List Catalog} {target target' : ComponentType}
    (h : ∀ t : ComponentType, t.conformsTo target = t.conformsTo target')
    (ignored : List ComponentType) :
    listed catalogs [target] ignored [] [] = listed catalogs [target'] ignored [] [] := by
  simp only [listed, answers, List.flatMap_singleton, Definition.namesOfType_congr h]

/-- Every name that a search for a container of an element finds leads to a definition that, under
that name, stands for a container of an element with the same name. Any other element of that name
would have been as good. -/
theorem found_elements_named {r : Registry} {ancestors : List Registry}
    (h : Lineage (r :: ancestors)) (subject : Subject) {target element : ComponentType}
    (he : target.element? = some element) (ignored : List ComponentType) (reach : Reach) :
    let found (target : ComponentType) : List String :=
      (evaluate subject { types := [target], ignored, reach } r.hierarchy).value.names
    (∀ name ∈ found target, ∃ d t own,
      Registry.closest? (r.searched ancestors reach) (baseName name) = some d ∧
        d.typeUnder? name = some t ∧ t.element? = some own ∧ own.name = element.name) ∧
    ∀ element' : ComponentType, element'.name = element.name →
      found (target.containing element') = found target := by
  intro found
  have hsound : ∀ s ∈ r.searched ancestors reach, s.catalog.Sound := fun s hs =>
    h.sound s (Registry.searched_subset hs)
  have hfound : ∀ target, found target =
      listed ((r.searched ancestors reach).map (·.catalog)) [target] ignored [] [] := by
    intro target
    have hlisted := names_evaluate_eq_listed h 
      (c := { types := [target], ignored, reach }) (Or.inr (Or.inl (List.cons_ne_nil _ _)))
      subject
    simp only [ComponentType.flatMap_alternatives_none] at hlisted
    exact hlisted
  constructor
  · intro name hname
    rw [hfound] at hname
    obtain ⟨d, hd, hname⟩ := exists_unhidden_of_mem_listed hname
    have hunmarked := unmarked_of_mem_unhidden (Registry.sound_searched h.sound reach) hd
    have hbase := baseName_of_mem_namesOfType hunmarked hname
    obtain ⟨t, ht, hconforms⟩ := Definition.exists_typeUnder? hunmarked hname
    obtain ⟨_, own, hown, hsame⟩ := (ComponentType.conformsTo_iff_of_element he).1 hconforms
    refine ⟨d, t, own, ?_, ht, hown, hsame⟩
    rw [hbase]
    exact (Registry.closest?_eq_some_iff hsound hunmarked).2 ⟨hd, rfl⟩
  · intro element' hsame
    have hnamed : (target.containing element').element?.map (·.name) =
        target.element?.map (·.name) := by
      rw [he, Option.map_some, ← hsame]
      rfl
    have hasked : ∀ t : ComponentType,
        t.conformsTo (target.containing element') = t.conformsTo target :=
      ComponentType.conformsTo_congr rfl hnamed
    rw [hfound, hfound]
    exact listed_congr hasked ignored

/-- A factory of boxes is found under its own name. Behind the mark it stands for itself, which is
no box. -/
theorem found_elements_named_factory :
    let target := (ComponentType.plain "Box").containing (.plain "T")
    let factory : Declaration :=
      { name := "b", type? := some ((ComponentType.plain "F").asFactory (some target)) }
    let r := (Registry.create false none).call (.register factory)
    let found (target : ComponentType) : List String :=
      (evaluate (.configuration { name := "c" }) { types := [target] } r.hierarchy).value.names
    Lineage [r] ∧ target.element? = some (.plain "T") ∧ found target = ["b"] ∧
      (∃ d t own, Registry.closest? [r] (baseName "b") = some d ∧ d.typeUnder? "b" = some t ∧
        t.element? = some own ∧ own.name = "T") ∧
      found (target.containing ((ComponentType.plain "T").withSupertype "S")) = found target := by
  intro target factory r found
  have hlineage : Lineage [r] := .root (.call .empty _)
  have helement : target.element? = some (.plain "T") := rfl
  have hfound : found target = ["b"] := by decide +kernel
  obtain ⟨hnamed, hsame⟩ := found_elements_named hlineage (.configuration { name := "c" }) helement
    [] .all
  have hb : "b" ∈ found target := by rw [hfound]; exact List.mem_singleton_self "b"
  exact ⟨hlineage, helement, hfound, hnamed "b" hb, hsame _ rfl⟩

/-- A box of bags is found whatever the bags hold. -/
theorem nested_element_found :
    let bagOf (name : String) := (ComponentType.plain "Bag").containing (.plain name)
    let boxOf (element : ComponentType) := (ComponentType.plain "Box").containing element
    let r := (Registry.create false none).call
      (.register { name := "n", hint? := some (boxOf (bagOf "T")) })
    let found := (evaluate (.configuration { name := "c" }) { types := [boxOf (bagOf "U")] }
      r.hierarchy).value.names
    Lineage [r] ∧ "n" ∈ found ∧
      ¬ ∃ d t own, Registry.closest? [r] (baseName "n") = some d ∧ d.typeUnder? "n" = some t ∧
        t.element? = some own ∧ own.render = (bagOf "U").render := by
  intro bagOf boxOf r found
  refine ⟨.root (.call .empty _), by decide +kernel, ?_⟩
  rintro ⟨d, t, own, hd, ht, hown, hsame⟩
  have hclosest : Registry.closest? [r] (baseName "n") =
      some { declaration := { name := "n", hint? := some (boxOf (bagOf "T")) } } := by
    decide +kernel
  rw [hclosest] at hd
  cases hd
  cases ht
  cases hown
  exact absurd hsame (by decide +kernel)

end Componentry
