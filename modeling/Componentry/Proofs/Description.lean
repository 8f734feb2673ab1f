import Componentry.ComponentType
import Mathlib.Logic.Relation

/-!
# Componentry.Proofs.Description

Types as they are described. A description (`Description`) is a name to which facts are added one
by one, and a fact may bring in another description: a parent, an element or a product. Types keep
the flattened result (`Description.type`), descriptions keep the tree. `type_answers` reads what
types answer off the tree: a type conforms to what it reaches through its parents, and it carries
the annotations on the way.
-/

namespace Componentry

mutual
/-- A type as it is described: a name and what is said of it, one fact after the other. -/
inductive Description where
  | plain (name : String)
  | given (d : Description) (f : Fact)
/-- What can be said of a type. -/
inductive Fact where
  | parent (d : Description)
  | supertype (name : String)
  | annotated (a : Annotation)
  | element (d : Description)
  | factory
  | factoryOf (product : Description)
end

mutual
/-- The type that a description leads to. -/
def Description.type : Description → ComponentType
  | .plain name => .plain name
  | .given d f => f.addTo d.type
/-- Adds a fact to a type. -/
def Fact.addTo : Fact → ComponentType → ComponentType
  | .parent d, t => t.withParent d.type
  | .supertype name, t => t.withSupertype name
  | .annotated a, t => t.annotated a
  | .element d, t => t.containing d.type
  | .factory, t => t.asFactory none
  | .factoryOf product, t => t.asFactory (some product.type)
end

/-- The element that a fact is about. -/
def Fact.element? : Fact → Option Description
  | .element d => some d
  | _ => none

namespace Description

def name : Description → String
  | plain name => name
  | given d _ => d.name

/-- All that was said, in the order of saying it. -/
def facts : Description → List Fact
  | plain _ => []
  | given d f => d.facts ++ [f]

/-- The element that was given last. -/
def element? (d : Description) : Option Description := (d.facts.filterMap (·.element?)).getLast?

/-- One was given to the other as a parent. -/
def Extends (d parent : Description) : Prop := .parent parent ∈ d.facts

/-- The description itself, its parents, their parents and so on. -/
def BuildsOn : Description → Description → Prop := Relation.ReflTransGen Extends

/-- A description, or one that it builds on, has a name or was given it as a supertype. -/
def Reaches (d : Description) (name : String) : Prop :=
  ∃ base, d.BuildsOn base ∧ (name = base.name ∨ .supertype name ∈ base.facts)

/-- A description, or one that it builds on, was given an annotation. -/
def Carries (d : Description) (a : Annotation) : Prop :=
  ∃ base, d.BuildsOn base ∧ .annotated a ∈ base.facts

/-- All that one description says is said by the other one, whose parents in turn say all that the
parents of the first one say. What is said of elements and factories does not matter. -/
inductive SaidIn : Description → Description → Prop
  | intro {d d' : Description} (name : d.name = d'.name)
      (supertypes : ∀ name, .supertype name ∈ d.facts → .supertype name ∈ d'.facts)
      (annotations : ∀ a, .annotated a ∈ d.facts → .annotated a ∈ d'.facts)
      (counterpart : Description → Description)
      (parents : ∀ parent, d.Extends parent → d'.Extends (counterpart parent))
      (within : ∀ parent, d.Extends parent → SaidIn parent (counterpart parent)) : SaidIn d d'

/-- Two descriptions say the same, in whatever order and however often. Of elements only the name of
the last one counts. -/
structure SameFacts (d d' : Description) : Prop where
  there : d.SaidIn d'
  back : d'.SaidIn d
  element : d.element?.map (·.name) = d'.element?.map (·.name)

variable {d d' parent : Description} {f : Fact} {name : String} {a : Annotation}

@[simp] theorem name_given : (d.given f).name = d.name := rfl

@[simp] theorem mem_facts_given {g : Fact} : g ∈ (d.given f).facts ↔ g ∈ d.facts ∨ g = f := by
  rw [facts, List.mem_append, List.mem_singleton]

@[simp] theorem extends_given :
    (d.given f).Extends parent ↔ d.Extends parent ∨ .parent parent = f :=
  mem_facts_given

theorem element?_given : (d.given f).element? = f.element?.or d.element? := by
  rw [element?, facts, List.filterMap_append, List.getLast?_append]
  cases h : f.element? <;> simp [h, element?]

/-- What a description builds on is itself or something that a parent builds on. -/
theorem exists_buildsOn_iff {P : Description → Prop} :
    (∃ base, d.BuildsOn base ∧ P base) ↔
      P d ∨ ∃ parent, d.Extends parent ∧ ∃ base, parent.BuildsOn base ∧ P base := by
  constructor
  · rintro ⟨base, hbase, hp⟩
    rcases Relation.ReflTransGen.cases_head hbase with rfl | ⟨parent, hparent, hbase⟩
    · exact Or.inl hp
    · exact Or.inr ⟨parent, hparent, base, hbase, hp⟩
  · rintro (hp | ⟨parent, hparent, base, hbase, hp⟩)
    · exact ⟨d, .refl, hp⟩
    · exact ⟨base, .head hparent hbase, hp⟩

theorem reaches_iff :
    d.Reaches name ↔ (name = d.name ∨ .supertype name ∈ d.facts) ∨
      ∃ parent, d.Extends parent ∧ parent.Reaches name :=
  exists_buildsOn_iff

theorem carries_iff :
    d.Carries a ↔ .annotated a ∈ d.facts ∨ ∃ parent, d.Extends parent ∧ parent.Carries a :=
  exists_buildsOn_iff

/-! ## What one fact adds -/

theorem reaches_given :
    (d.given f).Reaches name ↔ d.Reaches name ∨ .supertype name = f ∨
      ∃ parent, .parent parent = f ∧ parent.Reaches name := by
  rw [reaches_iff, reaches_iff (d := d)]
  simp only [name_given, mem_facts_given, extends_given, or_and_right, exists_or]
  exact (or_congr_left or_assoc.symm).trans or_or_or_comm

theorem carries_given :
    (d.given f).Carries a ↔ d.Carries a ∨ .annotated a = f ∨
      ∃ parent, .parent parent = f ∧ parent.Carries a := by
  rw [carries_iff, carries_iff (d := d)]
  simp only [mem_facts_given, extends_given, or_and_right, exists_or]
  exact or_or_or_comm

theorem name_type : (d : Description) → d.type.name = d.name
  | plain _ => rfl
  | given d f => by
    have ih := name_type d
    cases f <;> exact ih

theorem element?_type : (d : Description) → d.type.element? = d.element?.map (·.type)
  | plain _ => rfl
  | given d f => by
    have ih := element?_type d
    rw [element?_given]
    cases f with
    | element e => rfl
    | _ => exact ih

theorem isNamed_type_iff : (d : Description) → (d.type.isNamed name = true ↔ d.Reaches name)
  | plain own => by
    rw [reaches_iff, ComponentType.isNamed_iff]
    simp [type, ComponentType.plain, facts, Extends, Description.name]
  | given d (.parent p) => by
    rw [type, Fact.addTo, ComponentType.isNamed_withParent, isNamed_type_iff d, isNamed_type_iff p]
    simp [reaches_given]
  | given d (.supertype s) => by
    rw [type, Fact.addTo, ComponentType.isNamed_withSupertype, isNamed_type_iff d]
    simp [reaches_given]
  -- all other facts leave the names as they are
  | given d (.annotated _) => (isNamed_type_iff d).trans (by simp [reaches_given])
  | given d (.element _) => (isNamed_type_iff d).trans (by simp [reaches_given])
  | given d .factory => (isNamed_type_iff d).trans (by simp [reaches_given])
  | given d (.factoryOf _) => (isNamed_type_iff d).trans (by simp [reaches_given])

theorem isAnnotated_type_iff : (d : Description) → (d.type.isAnnotated a = true ↔ d.Carries a)
  | plain _ => by
    rw [carries_iff, ComponentType.isAnnotated_iff]
    simp [type, ComponentType.plain, facts, Extends]
  | given d (.parent p) => by
    rw [ComponentType.isAnnotated_iff, type, Fact.addTo,
      ComponentType.mem_annotations_withParent, ← ComponentType.isAnnotated_iff,
      ← ComponentType.isAnnotated_iff, isAnnotated_type_iff d, isAnnotated_type_iff p]
    simp [carries_given]
  | given d (.annotated b) => by
    rw [ComponentType.isAnnotated_iff, type, Fact.addTo, ComponentType.annotated,
      ComponentType.mem_addNew, ← ComponentType.isAnnotated_iff, isAnnotated_type_iff d]
    simp [carries_given]
  | given d (.supertype _) => (isAnnotated_type_iff d).trans (by simp [carries_given])
  | given d (.element _) => (isAnnotated_type_iff d).trans (by simp [carries_given])
  | given d .factory => (isAnnotated_type_iff d).trans (by simp [carries_given])
  | given d (.factoryOf _) => (isAnnotated_type_iff d).trans (by simp [carries_given])

/-! ## What a type answers -/

theorem conformsTo_iff_of_no_element {target : ComponentType} (he : target.element? = none) :
    d.type.conformsTo target = true ↔ d.Reaches target.name := by
  rw [ComponentType.conformsTo_iff_of_no_element he, isNamed_type_iff]

theorem conformsTo_iff_of_element {target element : ComponentType}
    (he : target.element? = some element) :
    d.type.conformsTo target = true ↔
      d.Reaches target.name ∧ ∃ own, d.element? = some own ∧ own.name = element.name := by
  rw [ComponentType.conformsTo_iff_of_element he, isNamed_type_iff, element?_type]
  refine and_congr_right fun _ => ?_
  cases d.element? with
  | none => simp
  | some own => simp [name_type]

/-- What a parent reaches is reached by its child. An element is not taken over from the parent, so
the child has to conform to the parent by itself. -/
theorem conformsTo_of_extends (hparent : d.Extends parent)
    (hconforms : d.type.conformsTo parent.type = true) {target : ComponentType}
    (htarget : parent.type.conformsTo target = true) : d.type.conformsTo target = true := by
  cases he : target.element? with
  | none =>
    rw [conformsTo_iff_of_no_element he] at htarget ⊢
    exact reaches_iff.2 (Or.inr ⟨parent, hparent, htarget⟩)
  | some element =>
    obtain ⟨hreaches, own, hown, hsame⟩ := (conformsTo_iff_of_element he).1 htarget
    have hasks : parent.type.element? = some own.type := by rw [element?_type, hown]; rfl
    obtain ⟨_, inner, hinner, hname⟩ := (conformsTo_iff_of_element hasks).1 hconforms
    refine (conformsTo_iff_of_element he).2
      ⟨reaches_iff.2 (Or.inr ⟨parent, hparent, hreaches⟩), inner, hinner, ?_⟩
    rw [hname, name_type, hsame]

/-! ## The order of facts -/

theorem saidIn_parent : (d : Description) → ∀ parent, d.Extends parent → parent.SaidIn parent
  | given d f, parent, h => by
    rcases extends_given.1 h with h | rfl
    · exact saidIn_parent d parent h
    · exact .intro rfl (fun _ => id) (fun _ => id) id (fun _ => id) (saidIn_parent parent)

/-- Where the parents are the same ones, every parent is its own counterpart. -/
theorem SaidIn.of_extends (name : d.name = d'.name)
    (supertypes : ∀ name, .supertype name ∈ d.facts → .supertype name ∈ d'.facts)
    (annotations : ∀ a, .annotated a ∈ d.facts → .annotated a ∈ d'.facts)
    (parents : ∀ parent, d.Extends parent → d'.Extends parent) : d.SaidIn d' :=
  .intro name supertypes annotations id parents (saidIn_parent d)

theorem SaidIn.reaches (h : d.SaidIn d') : d.Reaches name → d'.Reaches name := by
  induction h with
  | intro hname hsupertypes _ _ hparents _ ih =>
    intro hreaches
    rcases reaches_iff.1 hreaches with (hown | hsupertype) | ⟨parent, hparent, hreaches⟩
    · exact reaches_iff.2 (Or.inl (Or.inl (hown.trans hname)))
    · exact reaches_iff.2 (Or.inl (Or.inr (hsupertypes _ hsupertype)))
    · exact reaches_iff.2 (Or.inr ⟨_, hparents parent hparent, ih parent hparent hreaches⟩)

theorem SaidIn.carries (h : d.SaidIn d') : d.Carries a → d'.Carries a := by
  induction h with
  | intro _ _ hannotations _ hparents _ ih =>
    intro hcarries
    rcases carries_iff.1 hcarries with hown | ⟨parent, hparent, hcarries⟩
    · exact carries_iff.2 (Or.inl (hannotations _ hown))
    · exact carries_iff.2 (Or.inr ⟨_, hparents parent hparent, ih parent hparent hcarries⟩)

theorem SameFacts.conformsTo_eq (h : d.SameFacts d') (target : ComponentType) :
    d.type.conformsTo target = d'.type.conformsTo target := by
  have hreaches : d.Reaches target.name ↔ d'.Reaches target.name :=
    ⟨h.there.reaches, h.back.reaches⟩
  rw [Bool.eq_iff_iff]
  cases he : target.element? with
  | none => rw [conformsTo_iff_of_no_element he, conformsTo_iff_of_no_element he, hreaches]
  | some element =>
    rw [conformsTo_iff_of_element he, conformsTo_iff_of_element he, hreaches,
      ← Option.map_eq_some_iff, ← Option.map_eq_some_iff, h.element]

theorem SameFacts.isAnnotated_eq (h : d.SameFacts d') (a : Annotation) :
    d.type.isAnnotated a = d'.type.isAnnotated a := by
  rw [Bool.eq_iff_iff, isAnnotated_type_iff, isAnnotated_type_iff]
  exact ⟨h.there.carries, h.back.carries⟩

/-- A type conforms to what its description reaches. A target that names an element asks besides for
the last element of the description to have that name. The annotations of a type are those that the
description carries. So the order and the repetition of facts play no part, apart from the last
element, and neither does what is said of a factory; and a type that conforms to its parent conforms
to everything that the parent conforms to. -/
theorem type_answers (d : Description) :
    (∀ target : ComponentType, target.element? = none →
      (d.type.conformsTo target = true ↔ d.Reaches target.name)) ∧
    (∀ target element : ComponentType, target.element? = some element →
      (d.type.conformsTo target = true ↔
        d.Reaches target.name ∧ ∃ own, d.element? = some own ∧ own.name = element.name)) ∧
    (∀ a, d.type.isAnnotated a = true ↔ d.Carries a) ∧
    (∀ d' : Description, d.SameFacts d' →
      (∀ target, d.type.conformsTo target = d'.type.conformsTo target) ∧
        ∀ a, d.type.isAnnotated a = d'.type.isAnnotated a) ∧
    ∀ parent : Description, d.Extends parent → d.type.conformsTo parent.type = true →
      ∀ target, parent.type.conformsTo target = true → d.type.conformsTo target = true := by
  refine ⟨fun _ => conformsTo_iff_of_no_element, fun _ _ => conformsTo_iff_of_element,
    fun _ => isAnnotated_type_iff d, fun _ h => ⟨h.conformsTo_eq, h.isAnnotated_eq⟩,
    fun _ hparent hconforms _ => conformsTo_of_extends hparent hconforms⟩

/-- A list is a collection, and what collections build on is open. A list of names answers so in
either order of the facts. -/
theorem type_answers_list :
    let name : Description := .plain "Name"
    let root := (Description.plain "Root").given (.annotated ⟨"open"⟩)
    let collection := (Description.plain "Collection").given (.parent root)
    let list := ((Description.plain "List").given (.parent collection)).given (.element name)
    let list' := ((((Description.plain "List").given (.element root)).given .factory).given
      (.element name)).given (.parent collection)
    let target := (ComponentType.plain "Root").containing (.plain "Name")
    list.Reaches "Root" ∧ list.type.conformsTo (.plain "Root") = true ∧
      list.type.conformsTo target = true ∧ list.type.isAnnotated ⟨"open"⟩ = true ∧
      list.SameFacts list' ∧ list'.type.conformsTo target = true ∧
      list.Extends collection ∧ list.type.conformsTo root.type = true := by
  intro name root collection list list' target
  have hextends : list.Extends collection := by simp [list, Extends, facts]
  have hroot : collection.Extends root := by simp [collection, Extends, facts]
  have hreaches : list.Reaches "Root" :=
    ⟨root, .head hextends (.single hroot), Or.inl rfl⟩
  have hcarries : list.Carries ⟨"open"⟩ :=
    ⟨root, .head hextends (.single hroot), by simp [root, facts]⟩
  have hthere : list.SaidIn list' :=
    .of_extends rfl (by simp [list, facts]) (by simp [list, facts])
      (by simp [list, list', Extends, facts])
  have hback : list'.SaidIn list :=
    .of_extends rfl (by simp [list', facts]) (by simp [list', facts])
      (by simp [list, list', Extends, facts])
  have hsame : list.SameFacts list' := ⟨hthere, hback, rfl⟩
  obtain ⟨hraw, helement, hannotated, horder, hparent⟩ := type_answers list
  have htarget : list.type.conformsTo target = true :=
    (helement target (.plain "Name") rfl).2 ⟨hreaches, name, rfl, rfl⟩
  exact ⟨hreaches, (hraw (.plain "Root") rfl).2 hreaches, htarget, (hannotated _).2 hcarries, hsame,
    ((horder list' hsame).1 target).symm.trans htarget, hextends,
    hparent collection hextends (by decide +kernel) root.type (by decide +kernel)⟩

end Description

end Componentry
