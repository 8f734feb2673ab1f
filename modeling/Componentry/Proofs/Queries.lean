import Componentry.Proofs.Lineage
import Componentry.Proofs.Visibility

/-!
# Componentry.Proofs.Queries

The queries of one catalog beside each other. A search by type goes through the definitions, a
lookup goes through the index; in a sound catalog the definition that answers a name is the one that
a lookup of the name leads to (`Catalog.Sound.component?_of_mem_namesOfType`), be it the component
or, behind the mark, the factory. From this the other queries by type and by annotation follow.
`queries_agree`: the queries of every registry that calls make agree with each other.
-/

namespace Componentry

/-- What items come to, each once, are the keys of the items that come to anything, where an item
comes to nothing but its own key. -/
theorem eraseDups_flatMap_of_forall {α β : Type} [BEq β] [LawfulBEq β] {xs : List α}
    {f : α → List β} {k : α → β} (hk : (xs.map k).Nodup) (hf : ∀ x ∈ xs, ∀ y ∈ f x, y = k x) :
    (xs.flatMap f).eraseDups = (xs.filter fun x => !(f x).isEmpty).map k := by
  induction xs with
  | nil => simp
  | cons x xs ih =>
    have hx := hf x List.mem_cons_self
    have hrest : ∀ z ∈ xs, ∀ y ∈ f z, y = k z := fun z hz => hf z (List.mem_cons_of_mem x hz)
    obtain ⟨hnew, hk⟩ := List.nodup_cons.1 hk
    have hapart : (xs.flatMap f).removeAll (f x) = xs.flatMap f := by
      refine List.filter_eq_self.2 fun y hy => ?_
      obtain ⟨z, hz, hy⟩ := List.mem_flatMap.1 hy
      have hne : y ≠ k x := by
        rintro rfl
        exact hnew (List.mem_map.2 ⟨z, hz, (hrest z hz _ hy).symm⟩)
      simpa using fun hy' => hne (hx y hy')
    rw [List.flatMap_cons, List.eraseDups_append, hapart, ih hk hrest, List.filter_cons]
    cases hfx : f x with
    | nil => simp
    | cons y ys =>
      rw [hfx] at hx
      obtain rfl : y = k x := hx y List.mem_cons_self
      have hys : ys.filter (fun z => !z == k x) = [] := by
        refine List.filter_eq_nil_iff.2 fun z hz => ?_
        simp [hx z (List.mem_cons_of_mem _ hz)]
      simp [List.eraseDups_cons, hys]

/-- A name without the mark is no factory's name. -/
theorem ne_factoryName {name other : String} (h : isFactoryName name = false) :
    name ≠ factoryName other := by
  rintro rfl
  rw [isFactoryName_factoryName] at h
  cases h

namespace Declaration

variable {d : Declaration} {target : ComponentType}

theorem provides_iff : d.provides target = true ↔
    ∃ produced, d.produced? = some produced ∧ produced.conformsTo target = true := by
  rw [provides]
  cases d.produced? <;> simp

theorem isFactoryOfType_iff : d.isFactoryOfType target = true ↔
    d.isFactory = true ∧ ∃ t, d.type? = some t ∧ t.conformsTo target = true := by
  rw [isFactoryOfType, isFactory]
  cases d.type? <;> simp

end Declaration

namespace Definition

variable {d : Definition} {target : ComponentType} {name : String}

theorem mem_namesOfType_iff : name ∈ d.namesOfType target ↔
    (name = d.name ∧ d.declaration.provides target = true) ∨
      (name = factoryName d.name ∧ d.declaration.isFactoryOfType target = true) := by
  simp only [namesOfType, List.mem_append, List.mem_ite_nil_right, List.mem_singleton]
  exact or_congr and_comm and_comm

theorem nodup_namesOfType (hd : isFactoryName d.name = false) :
    (d.namesOfType target).Nodup := by
  have hne : d.name ≠ factoryName d.name := ne_factoryName hd
  unfold namesOfType
  cases d.declaration.provides target <;> cases d.declaration.isFactoryOfType target <;>
    simp [hne]

theorem isEmpty_namesOfType (d : Definition) (target : ComponentType) :
    (d.namesOfType target).isEmpty =
      !(d.declaration.provides target || d.declaration.isFactoryOfType target) := by
  unfold namesOfType
  cases d.declaration.provides target <;> cases d.declaration.isFactoryOfType target <;> rfl

end Definition

namespace Catalog

variable {c : Catalog} {target : ComponentType} {name : String}

/-- A name that a definition answers to leads to that definition. -/
theorem Sound.component?_of_mem_namesOfType (s : c.Sound) {d : Definition}
    (hd : d ∈ c.definitions) (hn : name ∈ d.namesOfType target) : c.component? name = some d := by
  have hbase := baseName_of_mem_namesOfType (s.unmarked hd) hn
  refine s.component?_eq_some_iff.2 ⟨hd, hbase.symm, fun hmark => ?_⟩
  rcases Definition.mem_namesOfType_iff.1 hn with ⟨rfl, _⟩ | ⟨_, hfactory⟩
  · rw [s.unmarked hd] at hmark
    cases hmark
  · exact (Declaration.isFactoryOfType_iff.1 hfactory).1

theorem Sound.mem_namesOfType_iff (s : c.Sound) : name ∈ c.namesOfType .all target ↔
    ∃ d, c.component? name = some d ∧ name ∈ d.namesOfType target := by
  constructor
  · intro hn
    obtain ⟨d, hd, hn⟩ := List.mem_flatMap.1 hn
    exact ⟨d, s.component?_of_mem_namesOfType hd hn, hn⟩
  · intro ⟨d, hd, hn⟩
    exact List.mem_flatMap.2 ⟨d, (s.component?_eq_some_iff.1 hd).1, hn⟩

theorem Sound.mem_namesOfType_iff_of_unmarked (s : c.Sound) (h : isFactoryName name = false) :
    name ∈ c.namesOfType .all target ↔ ∃ d produced, c.component? name = some d ∧
      d.declaration.produced? = some produced ∧ produced.conformsTo target = true := by
  rw [s.mem_namesOfType_iff]
  refine exists_congr fun d => ?_
  rw [exists_and_left, ← Declaration.provides_iff]
  refine and_congr_right fun hd => ?_
  obtain ⟨_, rfl⟩ := (s.component?_eq_some_iff_of_unmarked h).1 hd
  simp [Definition.mem_namesOfType_iff, ne_factoryName h]

theorem Sound.factoryName_mem_namesOfType_iff (s : c.Sound) :
    factoryName name ∈ c.namesOfType .all target ↔
      ∃ d t, c.component? (factoryName name) = some d ∧ d.declaration.type? = some t ∧
        t.conformsTo target = true := by
  rw [s.mem_namesOfType_iff]
  refine exists_congr fun d => ?_
  rw [exists_and_left]
  refine and_congr_right fun hd => ?_
  obtain ⟨hmem, hname, hfactory⟩ := s.component?_eq_some_iff.1 hd
  rw [baseName_factoryName] at hname
  subst hname
  rw [Definition.mem_namesOfType_iff, Declaration.isFactoryOfType_iff]
  simp [(ne_factoryName (s.unmarked hmem)).symm, hfactory]

theorem Sound.nodup_namesOfType (s : c.Sound) : (c.namesOfType .all target).Nodup := by
  refine List.nodup_flatMap.2 ⟨fun d hd => Definition.nodup_namesOfType (s.unmarked hd), ?_⟩
  have hnames := s.nodup_names
  rw [List.Nodup, List.pairwise_map] at hnames
  refine hnames.imp_of_mem fun {d e} hd he hne name hn hn' => hne ?_
  exact (baseName_of_mem_namesOfType (s.unmarked hd) hn).symm.trans
    (baseName_of_mem_namesOfType (s.unmarked he) hn')

/-- Leaving definitions out by their scope leaves out all the names that they answer to. -/
theorem Sound.namesOfType_singletonOnly (s : c.Sound) :
    c.namesOfType .singletonOnly target = (c.namesOfType .all target).filter fun name =>
      (c.component? name).any (·.declaration.isSingleton) := by
  refine (filter_flatMap_of_forall fun d hd name hn => ?_).symm
  rw [s.component?_of_mem_namesOfType hd hn, Option.any_some]

theorem Sound.map_name_componentsOfType (s : c.Sound) :
    (c.componentsOfType target).map (·.name) =
      ((c.namesOfType .all target).map baseName).eraseDups := by
  have hbase : ∀ d ∈ c.definitions, ∀ base ∈ (d.namesOfType target).map baseName,
      base = d.name := by
    intro d hd base hbase
    obtain ⟨name, hn, rfl⟩ := List.mem_map.1 hbase
    exact baseName_of_mem_namesOfType (s.unmarked hd) hn
  rw [namesOfType, inScopes, List.map_flatMap, eraseDups_flatMap_of_forall s.nodup_names hbase]
  simp [componentsOfType, Definition.isEmpty_namesOfType]

theorem Sound.mem_namesAnnotated_iff (s : c.Sound) {a : Annotation} :
    name ∈ c.namesAnnotated a ↔
      isFactoryName name = false ∧ c.isRegistered name = true ∧ a ∈ c.annotationsOf name := by
  have hlookup : ∀ d ∈ c.definitions,
      c.annotationsOf d.name = d.declaration.effectiveAnnotations := by
    intro d hd
    simp [annotationsOf, s.component?_of_mem hd, s.unmarked hd]
  simp only [namesAnnotated, List.mem_map, List.mem_filter, List.contains_iff_mem]
  constructor
  · rintro ⟨d, ⟨hd, ha⟩, rfl⟩
    exact ⟨s.unmarked hd, s.isRegistered_of_mem hd, hlookup d hd ▸ ha⟩
  · rintro ⟨hmark, hreg, ha⟩
    obtain ⟨d, hd, rfl⟩ := (s.isRegistered_iff_of_unmarked hmark).1 hreg
    exact ⟨d, ⟨hd, hlookup d hd ▸ ha⟩, rfl⟩

end Catalog

/-- The queries of a registry that calls made, under either policy, agree with each other. A search
by type answers each name once, and exactly those names whose component or, behind the mark, whose
factory is of the type; so all of them are registered. Leaving out all but singletons leaves out the
names of the other components. The components of a type are those that its names lead to, in the
same order, and a search by annotation answers the registered names that have it. -/
theorem queries_agree (overriding : Bool) (parent? : Option Hierarchy) (calls : List Call)
    (target : ComponentType) (a : Annotation) :
    let c := (calls.foldl Registry.call (Registry.create overriding parent?)).catalog
    (c.namesOfType .all target).Nodup ∧
      (∀ name, isFactoryName name = false → (name ∈ c.namesOfType .all target ↔
        ∃ d produced, c.component? name = some d ∧ d.declaration.produced? = some produced ∧
          produced.conformsTo target = true)) ∧
      (∀ name, factoryName name ∈ c.namesOfType .all target ↔
        ∃ d t, c.component? (factoryName name) = some d ∧ d.declaration.type? = some t ∧
          t.conformsTo target = true) ∧
      (∀ name ∈ c.namesOfType .all target, c.isRegistered name = true) ∧
      (c.namesOfType .singletonOnly target = (c.namesOfType .all target).filter fun name =>
        (c.component? name).any (·.declaration.isSingleton)) ∧
      ((c.componentsOfType target).map (·.name) =
        ((c.namesOfType .all target).map baseName).eraseDups) ∧
      ∀ name, name ∈ c.namesAnnotated a ↔
        isFactoryName name = false ∧ c.isRegistered name = true ∧ a ∈ c.annotationsOf name := by
  intro c
  have s : c.Sound := (Registry.Reachable.empty.calls calls).sound
  refine ⟨s.nodup_namesOfType, fun name => s.mem_namesOfType_iff_of_unmarked,
    fun name => s.factoryName_mem_namesOfType_iff, fun name hn => ?_, s.namesOfType_singletonOnly,
    s.map_name_componentsOfType, fun name => s.mem_namesAnnotated_iff⟩
  obtain ⟨d, hd, _⟩ := s.mem_namesOfType_iff.1 hn
  rw [Catalog.isRegistered, hd]
  rfl

/-- A factory of `T` that is a `T` itself answers under both names and counts once as a component; a
prototype is no singleton. -/
theorem queries_agree_factory :
    let t : ComponentType := .plain "T"
    let f : Declaration :=
      { name := "f", type? := some (((ComponentType.plain "F").withParent t).asFactory (some t)) }
    let calls : List Call := [.register { name := "u", hint? := some (.plain "U") }, .register f,
      .register { name := "p", type? := some t, scope := "PROTOTYPE" }]
    let c := (calls.foldl Registry.call (Registry.create false none)).catalog
    c.namesOfType .all t = ["f", factoryName "f", "p"] ∧
      c.namesOfType .singletonOnly t = ["f", factoryName "f"] ∧
      (c.componentsOfType t).map (·.name) = ["f", "p"] ∧ isFactoryName "f" = false ∧
      (∃ d produced, c.component? "f" = some d ∧ d.declaration.produced? = some produced ∧
        produced.conformsTo t = true) ∧
      (∃ d type, c.component? (factoryName "f") = some d ∧ d.declaration.type? = some type ∧
        type.conformsTo t = true) ∧
      c.isRegistered (factoryName "f") = true := by
  intro t f calls c
  have hall : c.namesOfType .all t = ["f", factoryName "f", "p"] := by decide +kernel
  have hmem : factoryName "f" ∈ c.namesOfType .all t := by
    rw [hall]
    simp
  obtain ⟨_, hcomponent, hfactory, hregistered, _⟩ := queries_agree false none calls t ⟨"a"⟩
  have hunmarked : isFactoryName "f" = false := by decide
  refine ⟨hall, by decide +kernel, by decide +kernel, hunmarked, ?_, (hfactory "f").1 hmem,
    hregistered _ hmem⟩
  refine (hcomponent "f" hunmarked).1 ?_
  rw [hall]
  simp

end Componentry
