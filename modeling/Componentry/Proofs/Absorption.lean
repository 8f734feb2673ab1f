import Componentry.Proofs.Description
import Mathlib.Data.List.Nodup

/-!
# Componentry.Proofs.Absorption

Types in normal form, and facts that a type absorbs. However a type is described, it lists no
supertype and no annotation twice, and never itself as a supertype (`ComponentType.Normal`). A
parent, a supertype or an annotation leaves a type exactly as it is if and only if it brings nothing
new (`withParent_eq_self_iff`).

So a fact counts once, however often it is given, and a parent brings its own parents with it:
`type_absorbs`.
-/

namespace Componentry
namespace ComponentType

/-- Nothing is listed twice, and a type is not its own supertype. -/
structure Normal (t : ComponentType) : Prop where
  supertypes : t.supertypes.Nodup
  own : t.name ∉ t.supertypes
  annotations : t.annotations.Nodup

section Lists

variable {α : Type} [DecidableEq α] {xs ys : List α}

theorem nodup_addNew (h : xs.Nodup) (x : α) : (addNew xs x).Nodup := by
  unfold addNew
  split
  · exact h
  · next hx => exact h.append (List.nodup_singleton x) (by simpa using hx)

theorem addNew_eq_self_iff {x : α} : addNew xs x = xs ↔ x ∈ xs := by
  simp [addNew]

theorem nodup_foldl_addNew (h : xs.Nodup) (ys : List α) : (ys.foldl addNew xs).Nodup :=
  List.foldlRecOn ys addNew h fun _ hzs y _ => nodup_addNew hzs y

theorem foldl_addNew_eq_self (h : ∀ y ∈ ys, y ∈ xs) : ys.foldl addNew xs = xs :=
  List.foldlRecOn (motive := (· = xs)) ys addNew rfl fun zs hzs y hy => by
    rw [hzs, addNew_eq_self_iff]
    exact h y hy

end Lists

section Supertypes

variable {own s : String} {xs ys : List String}

theorem nodup_addSupertype (h : xs.Nodup) (s : String) : (addSupertype own xs s).Nodup := by
  unfold addSupertype
  split
  · exact h
  · exact nodup_addNew h s

theorem addSupertype_eq_self_iff : addSupertype own xs s = xs ↔ s = own ∨ s ∈ xs := by
  unfold addSupertype
  split
  · next h => simp [h]
  · next h => rw [addNew_eq_self_iff, or_iff_right h]

theorem nodup_foldl_addSupertype (h : xs.Nodup) (ys : List String) :
    (ys.foldl (addSupertype own) xs).Nodup :=
  List.foldlRecOn ys (addSupertype own) h fun _ hzs s _ => nodup_addSupertype hzs s

theorem foldl_addSupertype_eq_self (h : ∀ s ∈ ys, s = own ∨ s ∈ xs) :
    ys.foldl (addSupertype own) xs = xs :=
  List.foldlRecOn (motive := (· = xs)) ys (addSupertype own) rfl fun zs hzs s hs => by
    rw [hzs, addSupertype_eq_self_iff]
    exact h s hs

end Supertypes

variable {t p : ComponentType}

/-! ## Normal forms -/

theorem normal_plain (name : String) : (plain name).Normal :=
  ⟨List.nodup_nil, List.not_mem_nil, List.nodup_nil⟩

theorem Normal.withSupertype (h : t.Normal) (supertype : String) :
    (t.withSupertype supertype).Normal where
  supertypes := nodup_addSupertype h.supertypes supertype
  own hown := by
    rcases mem_addSupertype.1 hown with hold | ⟨_, hne⟩
    · exact h.own hold
    · exact hne rfl
  annotations := h.annotations

theorem Normal.annotated (h : t.Normal) (a : Annotation) : (t.annotated a).Normal :=
  ⟨h.supertypes, h.own, nodup_addNew h.annotations a⟩

/-- Whatever the parent is like, its child stays in normal form. -/
theorem Normal.withParent (h : t.Normal) (parent : ComponentType) :
    (t.withParent parent).Normal where
  supertypes := nodup_foldl_addSupertype h.supertypes _
  own hown := by
    rcases mem_supertypes_withParent.1 hown with hold | ⟨_, hne⟩
    · exact h.own hold
    · exact hne rfl
  annotations := nodup_foldl_addNew h.annotations _

/-! ## Facts that bring nothing new -/

theorem with_own_lists {supertypes : List String} {annotations : List Annotation}
    (hs : supertypes = t.supertypes) (ha : annotations = t.annotations) :
    { t with supertypes, annotations } = t := by
  cases t
  rw [hs, ha]

theorem withSupertype_eq_self_iff {supertype : String} :
    t.withSupertype supertype = t ↔ t.isNamed supertype = true := by
  rw [isNamed_iff, ← addSupertype_eq_self_iff]
  refine ⟨fun h => ?_, fun h => with_own_lists h rfl⟩
  exact congrArg ComponentType.supertypes h

theorem annotated_eq_self_iff {a : Annotation} :
    t.annotated a = t ↔ t.isAnnotated a = true := by
  rw [isAnnotated_iff, ← addNew_eq_self_iff]
  refine ⟨fun h => ?_, fun h => with_own_lists rfl h⟩
  exact congrArg ComponentType.annotations h

/-- A type absorbs a parent whose names and annotations it has already. -/
theorem withParent_eq_self_iff : t.withParent p = t ↔
    (∀ name, p.isNamed name = true → t.isNamed name = true) ∧
      ∀ a, p.isAnnotated a = true → t.isAnnotated a = true := by
  constructor
  · intro h
    refine ⟨fun name hname => ?_, fun a ha => ?_⟩
    · rw [← h, isNamed_withParent]
      exact Or.inr hname
    · rw [isAnnotated_iff] at ha
      rw [← h, isAnnotated_iff, mem_annotations_withParent]
      exact Or.inr ha
  · rintro ⟨hnames, hannotations⟩
    have hsupertypes : (p.name :: p.supertypes).foldl (addSupertype t.name) t.supertypes =
        t.supertypes :=
      foldl_addSupertype_eq_self fun s hs =>
        isNamed_iff.1 (hnames s (isNamed_iff.2 (List.mem_cons.1 hs)))
    have hkept : p.annotations.foldl addNew t.annotations = t.annotations :=
      foldl_addNew_eq_self fun a ha => isAnnotated_iff.1 (hannotations a (isAnnotated_iff.2 ha))
    exact with_own_lists hsupertypes hkept

theorem withSupertype_withSupertype (t : ComponentType) (name : String) :
    (t.withSupertype name).withSupertype name = t.withSupertype name :=
  withSupertype_eq_self_iff.2 (isNamed_withSupertype.2 (Or.inr rfl))

theorem annotated_annotated (t : ComponentType) (a : Annotation) :
    (t.annotated a).annotated a = t.annotated a :=
  annotated_eq_self_iff.2 (isAnnotated_iff.2 (mem_addNew.2 (Or.inr rfl)))

end ComponentType

namespace Description

variable {u p : Description}

theorem normal_type : (d : Description) → d.type.Normal
  | plain name => ComponentType.normal_plain name
  | given d (.parent p) => (normal_type d).withParent p.type
  | given d (.supertype name) => (normal_type d).withSupertype name
  | given d (.annotated a) => (normal_type d).annotated a
  -- all other facts leave both lists as they are
  | given d (.element _) => have ⟨hs, ho, ha⟩ := normal_type d; ⟨hs, ho, ha⟩
  | given d .factory => have ⟨hs, ho, ha⟩ := normal_type d; ⟨hs, ho, ha⟩
  | given d (.factoryOf _) => have ⟨hs, ho, ha⟩ := normal_type d; ⟨hs, ho, ha⟩

/-- A child knows all that its parent builds on. -/
theorem withParent_withParent_of_buildsOn (h : u.BuildsOn p) (d : Description) :
    (d.type.withParent u.type).withParent p.type = d.type.withParent u.type := by
  have hchild : d.type.withParent u.type = (d.given (.parent u)).type := rfl
  rw [hchild, ComponentType.withParent_eq_self_iff]
  constructor
  · intro name hname
    obtain ⟨base, hbase, hreaches⟩ := (isNamed_type_iff p).1 hname
    have hu : u.Reaches name := ⟨base, h.trans hbase, hreaches⟩
    exact (isNamed_type_iff _).2 (reaches_given.2 (Or.inr (Or.inr ⟨u, rfl, hu⟩)))
  · intro a ha
    obtain ⟨base, hbase, hcarries⟩ := (isAnnotated_type_iff p).1 ha
    have hu : u.Carries a := ⟨base, h.trans hbase, hcarries⟩
    exact (isAnnotated_type_iff _).2 (carries_given.2 (Or.inr (Or.inr ⟨u, rfl, hu⟩)))

/-- However a type is described, it is in normal form. A parent, a supertype or an annotation that
is given twice counts once, and so does a parent that comes with another one. -/
theorem type_absorbs (d : Description) :
    d.type.Normal ∧
    (∀ p : Description,
      (d.type.withParent p.type).withParent p.type = d.type.withParent p.type) ∧
    (∀ name, (d.type.withSupertype name).withSupertype name = d.type.withSupertype name) ∧
    (∀ a, (d.type.annotated a).annotated a = d.type.annotated a) ∧
    ∀ u p : Description, u.Extends p →
      (d.type.withParent u.type).withParent p.type = d.type.withParent u.type :=
  ⟨normal_type d, fun _ => withParent_withParent_of_buildsOn .refl d,
    d.type.withSupertype_withSupertype, d.type.annotated_annotated,
    fun _ _ h => withParent_withParent_of_buildsOn (.single h) d⟩

/-- The parent of the parent bears the name of an interface of the child, and its supertype that of
the child itself. -/
theorem type_absorbs_shared_names :
    let sized :=
      ((Description.plain "Sized").given (.supertype "Value")).given (.annotated ⟨"open"⟩)
    let list := ((Description.plain "List").given (.supertype "Value")).given (.parent sized)
    let value := ((Description.plain "Value").given (.supertype "Sized")).given (.annotated ⟨"own"⟩)
    list.Extends sized ∧
      (value.type.withParent list.type).withParent sized.type = value.type.withParent list.type ∧
      (value.type.withParent list.type).supertypes = ["Sized", "List"] ∧
      (value.type.withParent list.type).annotations = [⟨"own"⟩, ⟨"open"⟩] := by
  intro sized list value
  have hextends : list.Extends sized := by simp [list, Extends, facts]
  obtain ⟨_, _, _, _, hparent⟩ := type_absorbs value
  exact ⟨hextends, hparent list sized hextends, by decide, by decide⟩

end Description

end Componentry
