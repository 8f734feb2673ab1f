import Std.Data.TreeMap

/-!
# Componentry.Roster

A table whose entries carry their own key and keep the order in which the keys first came. An index
leads from a key to the position of its entry, so a lookup does not read the entries. Putting an
entry whose key is known replaces the old entry in place; any other entry goes to the end.

`Roster.WellFormed` says that the index and the entries agree. The empty roster is well formed
(`wellFormed_empty`) and `put` keeps it so (`WellFormed.put`).
-/

namespace Componentry

class Keyed (α : Type) where
  key : α → String

export Keyed (key)

/-- Entries in the order of their keys' first arrival, and the position of every key. -/
structure Roster (α : Type) where
  entries : Array α := #[]
  index : Std.TreeMap String Nat := {}

namespace Roster

variable {α : Type}

def empty : Roster α := {}

instance : EmptyCollection (Roster α) := ⟨empty⟩

instance : Inhabited (Roster α) := ⟨empty⟩

def toList (r : Roster α) : List α := r.entries.toList

def position? (r : Roster α) (k : String) : Option Nat := r.index[k]?

def get? (r : Roster α) (k : String) : Option α := (r.position? k).bind fun i => r.entries[i]?

/-- Files an entry: in the place of the one with its key, or else at the end. -/
def put [Keyed α] (r : Roster α) (x : α) : Roster α :=
  match r.position? (key x) with
  | some i => { r with entries := r.entries.setIfInBounds i x }
  | none =>
    { entries := r.entries.push x
      index := r.index.insert (key x) r.entries.size }

/-- The index holds exactly the positions of the entries' keys. -/
def WellFormed [Keyed α] (r : Roster α) : Prop :=
  ∀ k i, r.position? k = some i ↔ r.entries[i]?.map key = some k

@[simp] theorem position?_empty (k : String) : (empty : Roster α).position? k = none := by
  simp [position?, empty]

@[simp] theorem get?_empty (k : String) : (empty : Roster α).get? k = none := by
  simp [get?]

variable [Keyed α]

theorem wellFormed_empty : (empty : Roster α).WellFormed := by
  intro k i
  simp [empty, position?]

theorem put_of_none {r : Roster α} {x : α} (h : r.position? (key x) = none) :
    r.put x = ⟨r.entries.push x, r.index.insert (key x) r.entries.size⟩ := by
  simp only [put, h]

theorem put_of_some {r : Roster α} {x : α} {i : Nat} (h : r.position? (key x) = some i) :
    r.put x = ⟨r.entries.setIfInBounds i x, r.index⟩ := by
  simp only [put, h]

/-- A key that the index does not hold comes to stand at the end. -/
theorem position?_put_of_none {r : Roster α} {x : α} (h : r.position? (key x) = none)
    (k : String) :
    (r.put x).position? k = if key x = k then some r.entries.size else r.position? k := by
  simp [put_of_none h, position?, Std.TreeMap.getElem?_insert]

/-- Replacing an entry moves nothing. -/
theorem position?_put_of_some {r : Roster α} {x : α} {i : Nat} (h : r.position? (key x) = some i)
    (k : String) : (r.put x).position? k = r.position? k := by
  simp [put_of_some h, position?]

theorem WellFormed.lt_size {r : Roster α} (wf : r.WellFormed) {k : String} {i : Nat}
    (h : r.position? k = some i) : i < r.entries.size := by
  have hk := (wf k i).1 h
  by_cases hi : i < r.entries.size
  · exact hi
  · simp [hi] at hk

theorem WellFormed.put {r : Roster α} (wf : r.WellFormed) (x : α) : (r.put x).WellFormed := by
  intro k i
  cases hx : r.position? (key x) with
  | none =>
    rw [position?_put_of_none hx, put_of_none hx, Array.getElem?_push]
    by_cases hi : i = r.entries.size
    · subst hi
      by_cases hk : key x = k
      · simp [hk]
      · simp only [hk, if_false, if_true, Option.map_some, Option.some.injEq, iff_false]
        exact fun h => absurd (wf.lt_size h) (Nat.lt_irrefl _)
    · by_cases hk : key x = k
      · subst hk
        simp only [if_true, Option.some.injEq, if_neg hi]
        refine ⟨fun h => absurd h.symm hi, fun h => ?_⟩
        rw [← wf, hx] at h
        cases h
      · rw [if_neg hk, if_neg hi]
        exact wf k i
  | some p =>
    have hp := wf.lt_size hx
    have hkey := (wf (key x) p).1 hx
    rw [position?_put_of_some hx, wf, put_of_some hx, Array.getElem?_setIfInBounds]
    by_cases hi : p = i
    · subst hi
      rw [hkey, if_pos rfl, if_pos hp, Option.map_some]
    · rw [if_neg hi]

end Roster

end Componentry
