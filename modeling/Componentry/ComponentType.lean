/-!
# Componentry.ComponentType

Types of components, as far as conditions reason about them: a name, the names of all supertypes,
annotations, the element type of a container and the product of a factory.

A type is described by adding facts to a plain one (`ComponentType.plain`). Supertypes are flattened
when they are added: a type takes over the supertypes of its parent, so `conformsTo` compares names
and follows no chain. `mem_supertypes_withParent` and `mem_annotations_withParent` say what is taken
over.
-/

namespace Componentry

structure Annotation where
  name : String
deriving DecidableEq, Ord, Repr, Inhabited

/-- What is known of a type. A factory may leave open what it makes. -/
structure ComponentType where
  name : String
  /-- Names of all supertypes, direct or inherited, without the type itself. -/
  supertypes : List String
  annotations : List Annotation
  element? : Option ComponentType
  isFactory : Bool
  product? : Option ComponentType
deriving Repr, Inhabited

namespace ComponentType

mutual
def decEq : (a b : ComponentType) → Decidable (a = b)
  | ⟨name, supertypes, annotations, element, isFactory, product⟩,
    ⟨name', supertypes', annotations', element', isFactory', product'⟩ =>
    have : Decidable (element = element') := decEqOption element element'
    have : Decidable (product = product') := decEqOption product product'
    decidable_of_iff (name = name' ∧ supertypes = supertypes' ∧ annotations = annotations' ∧
      element = element' ∧ isFactory = isFactory' ∧ product = product') (by rw [mk.injEq])
def decEqOption : (a b : Option ComponentType) → Decidable (a = b)
  | none, none => isTrue rfl
  | none, some _ => isFalse nofun
  | some _, none => isFalse nofun
  | some a, some b =>
    have : Decidable (a = b) := decEq a b
    decidable_of_iff (a = b) (by rw [Option.some.injEq])
end

instance : DecidableEq ComponentType := decEq

def plain (name : String) : ComponentType := ⟨name, [], [], none, false, none⟩

def addNew {α : Type} [DecidableEq α] (xs : List α) (x : α) : List α :=
  if x ∈ xs then xs else xs ++ [x]

/-- Puts the name of a supertype at the end of a list, unless the list holds it or it is the name
of the type itself. -/
def addSupertype (own : String) (supertypes : List String) (name : String) : List String :=
  if name = own then supertypes else addNew supertypes name

def withSupertype (t : ComponentType) (supertype : String) : ComponentType :=
  { t with supertypes := addSupertype t.name t.supertypes supertype }

def annotated (t : ComponentType) (a : Annotation) : ComponentType :=
  { t with annotations := addNew t.annotations a }

/-- Makes a type a subtype of `parent`: it takes over the name, the supertypes and the
annotations of the parent. -/
def withParent (t parent : ComponentType) : ComponentType :=
  { t with
    supertypes := (parent.name :: parent.supertypes).foldl (addSupertype t.name) t.supertypes
    annotations := parent.annotations.foldl addNew t.annotations }

/-- Makes a type a container of `element`; the last element given counts. -/
def containing (t element : ComponentType) : ComponentType :=
  { t with element? := some element }

/-- Makes a type a factory. Without a product, only a declaration can tell what it makes. -/
def asFactory (t : ComponentType) (product? : Option ComponentType) : ComponentType :=
  { t with isFactory := true, product? := product? }

def isNamed (t : ComponentType) (name : String) : Bool :=
  t.name == name || t.supertypes.contains name

/-- Whether an element satisfies what the target asks of it. A target that is a raw container asks
nothing; otherwise the names of the two elements are compared, and nothing else of them. -/
def acceptsElement : (target own : Option ComponentType) → Bool
  | none, _ => true
  | some _, none => false
  | some target, some own => target.name == own.name

/-- Whether a value of the type can stand where `target` is expected. -/
def conformsTo (t target : ComponentType) : Bool :=
  t.isNamed target.name && acceptsElement target.element? t.element?

def isAnnotated (t : ComponentType) (a : Annotation) : Bool := t.annotations.contains a

/-- The name, followed by the element type of a container in angle brackets. -/
def render : ComponentType → String
  | ⟨name, _, _, none, _, _⟩ => name
  | ⟨name, _, _, some element, _, _⟩ => name ++ "<" ++ element.render ++ ">"

theorem isNamed_iff {t : ComponentType} {name : String} :
    t.isNamed name = true ↔ name = t.name ∨ name ∈ t.supertypes := by
  rw [isNamed, Bool.or_eq_true, beq_iff_eq, List.contains_iff_mem, eq_comm]

theorem isAnnotated_iff {t : ComponentType} {a : Annotation} :
    t.isAnnotated a = true ↔ a ∈ t.annotations := by
  rw [isAnnotated, List.contains_iff_mem]

theorem mem_addNew {α : Type} [DecidableEq α] {xs : List α} {x y : α} :
    y ∈ addNew xs x ↔ y ∈ xs ∨ y = x := by
  unfold addNew
  split
  · next h => exact ⟨Or.inl, fun hy => hy.elim id fun e => e ▸ h⟩
  · rw [List.mem_append, List.mem_singleton]

theorem mem_foldl_addNew {α : Type} [DecidableEq α] {ys xs : List α} {y : α} :
    y ∈ ys.foldl addNew xs ↔ y ∈ xs ∨ y ∈ ys := by
  induction ys generalizing xs with
  | nil => simp
  | cons x ys ih => rw [List.foldl_cons, ih, mem_addNew, List.mem_cons, or_assoc]

theorem mem_addSupertype {own : String} {xs : List String} {s u : String} :
    u ∈ addSupertype own xs s ↔ u ∈ xs ∨ (u = s ∧ u ≠ own) := by
  unfold addSupertype
  split
  · next h => subst h; simp
  · next h =>
    rw [mem_addNew]
    exact or_congr_right ⟨fun e => ⟨e, e ▸ h⟩, And.left⟩

theorem mem_foldl_addSupertype {own : String} {ys xs : List String} {u : String} :
    u ∈ ys.foldl (addSupertype own) xs ↔ u ∈ xs ∨ (u ∈ ys ∧ u ≠ own) := by
  induction ys generalizing xs with
  | nil => simp
  | cons s ys ih =>
    rw [List.foldl_cons, ih, mem_addSupertype, List.mem_cons]
    grind

theorem mem_supertypes_withParent {t p : ComponentType} {u : String} :
    u ∈ (t.withParent p).supertypes ↔
      u ∈ t.supertypes ∨ ((u = p.name ∨ u ∈ p.supertypes) ∧ u ≠ t.name) := by
  rw [withParent, mem_foldl_addSupertype, List.mem_cons]

theorem mem_annotations_withParent {t p : ComponentType} {a : Annotation} :
    a ∈ (t.withParent p).annotations ↔ a ∈ t.annotations ∨ a ∈ p.annotations :=
  mem_foldl_addNew

theorem isNamed_withParent {t p : ComponentType} {name : String} :
    (t.withParent p).isNamed name = true ↔ t.isNamed name = true ∨ p.isNamed name = true := by
  have hname : (t.withParent p).name = t.name := rfl
  rw [isNamed_iff, isNamed_iff, isNamed_iff, mem_supertypes_withParent, hname]
  by_cases h : name = t.name <;> simp [h]

theorem isNamed_withSupertype {t : ComponentType} {supertype name : String} :
    (t.withSupertype supertype).isNamed name = true ↔
      t.isNamed name = true ∨ name = supertype := by
  have hname : (t.withSupertype supertype).name = t.name := rfl
  rw [isNamed_iff, isNamed_iff, withSupertype, mem_addSupertype]
  by_cases h : name = t.name <;> simp [h]

section Conforms

variable {t target element : ComponentType}

theorem conformsTo_iff_of_no_element (he : target.element? = none) :
    t.conformsTo target = true ↔ t.isNamed target.name = true := by
  rw [conformsTo, he, acceptsElement, Bool.and_true]

theorem conformsTo_iff_of_element (he : target.element? = some element) :
    t.conformsTo target = true ↔ t.isNamed target.name = true ∧
      ∃ own, t.element? = some own ∧ own.name = element.name := by
  rw [conformsTo, Bool.and_eq_true, he]
  refine and_congr_right fun _ => ?_
  cases t.element? with
  | none => simp [acceptsElement]
  | some own =>
    simp only [acceptsElement, beq_iff_eq, Option.some.injEq, exists_eq_left']
    exact eq_comm

end Conforms

@[simp] theorem conformsTo_self (t : ComponentType) : t.conformsTo t = true := by
  cases h : t.element? <;> simp [conformsTo, isNamed, acceptsElement, h]

end ComponentType

end Componentry
