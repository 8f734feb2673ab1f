import Componentry.Roster

/-!
# Componentry.Proofs.Roster

A well formed roster through its list of entries. `get?` finds exactly the listed entry with a key
(`WellFormed.get?_eq_some_iff`), no key is listed twice (`WellFormed.nodup_keys`), and `put` changes
what is found under one key only (`WellFormed.get?_put`).
-/

namespace Componentry
namespace Roster

variable {α : Type}

theorem mem_toList_iff {r : Roster α} {x : α} :
    x ∈ r.toList ↔ ∃ i : Nat, r.entries[i]? = some x := by
  rw [toList, List.mem_iff_getElem?]
  simp only [Array.getElem?_toList]

theorem get?_eq_some_iff_exists {r : Roster α} {k : String} {x : α} :
    r.get? k = some x ↔ ∃ i : Nat, r.position? k = some i ∧ r.entries[i]? = some x := by
  rw [get?, Option.bind_eq_some_iff]

variable [Keyed α]

theorem WellFormed.get?_eq_some_iff {r : Roster α} (wf : r.WellFormed)
    {k : String} {x : α} : r.get? k = some x ↔ x ∈ r.toList ∧ key x = k := by
  rw [get?_eq_some_iff_exists, mem_toList_iff]
  constructor
  · rintro ⟨i, hp, hx⟩
    refine ⟨⟨i, hx⟩, ?_⟩
    have hk := (wf k i).1 hp
    rw [hx] at hk
    exact Option.some.inj hk
  · rintro ⟨⟨i, hx⟩, rfl⟩
    refine ⟨i, (wf (key x) i).2 ?_, hx⟩
    rw [hx]; rfl

theorem WellFormed.get?_eq_none_iff {r : Roster α} (wf : r.WellFormed)
    {k : String} : r.get? k = none ↔ ∀ x ∈ r.toList, key x ≠ k := by
  rw [Option.eq_none_iff_forall_ne_some]
  constructor
  · intro h x hx hk
    exact h x (wf.get?_eq_some_iff.2 ⟨hx, hk⟩)
  · intro h x hx
    have hx' := wf.get?_eq_some_iff.1 hx
    exact h x hx'.1 hx'.2

/-- The index holds a key if and only if an entry has it. -/
theorem WellFormed.position?_eq_none_iff {r : Roster α} (wf : r.WellFormed)
    {k : String} : r.position? k = none ↔ r.get? k = none := by
  constructor
  · intro h
    rw [get?, h]; rfl
  · intro h
    cases hp : r.position? k with
    | none => rfl
    | some i =>
      have hi := wf.lt_size hp
      simp [get?, hp, hi] at h

theorem WellFormed.nodup_keys {r : Roster α} (wf : r.WellFormed) :
    (r.toList.map key).Nodup := by
  rw [List.nodup_iff_pairwise_ne, List.pairwise_map, List.pairwise_iff_getElem]
  intro i j hi hj hij hk
  have hpi : r.position? (key r.toList[i]) = some i := by
    rw [wf, ← Array.getElem?_toList, ← toList, List.getElem?_eq_getElem hi]; rfl
  have hpj : r.position? (key r.toList[j]) = some j := by
    rw [wf, ← Array.getElem?_toList, ← toList, List.getElem?_eq_getElem hj]; rfl
  rw [hk, hpj] at hpi
  exact absurd (Option.some.inj hpi) (Nat.ne_of_gt hij)

theorem toList_put_of_none {r : Roster α} {x : α}
    (h : r.position? (key x) = none) : (r.put x).toList = r.toList ++ [x] := by
  rw [put_of_none h, toList, Array.toList_push, toList]

/-- Replacing an entry keeps the keys in order. -/
theorem WellFormed.map_key_put_of_some {r : Roster α} (wf : r.WellFormed) {x : α} {i : Nat}
    (h : r.position? (key x) = some i) : (r.put x).toList.map key = r.toList.map key := by
  have hi := wf.lt_size h
  have hkey : r.entries[i]?.map key = some (key x) := (wf (key x) i).1 h
  rw [put_of_some h, toList, toList, Array.toList_setIfInBounds, List.map_set]
  refine List.ext_getElem? fun j => ?_
  by_cases hj : i = j
  · subst hj
    simp [hi] at hkey ⊢
    exact hkey.symm
  · simp [hj]

/-- Apart from the entry that is filed, the entries stay as they are. -/
theorem WellFormed.filter_toList_put {r : Roster α} (wf : r.WellFormed) (x : α) :
    (r.put x).toList.filter (key · != key x) = r.toList.filter (key · != key x) := by
  cases h : r.position? (key x) with
  | none => simp [toList_put_of_none h]
  | some i =>
    have hi : i < r.toList.length := by simpa [toList] using wf.lt_size h
    have hkey : key r.toList[i] = key x := by
      have hx := (wf (key x) i).1 h
      rw [← Array.getElem?_toList, ← toList, List.getElem?_eq_getElem hi] at hx
      exact Option.some.inj hx
    rw [put_of_some h, toList, Array.toList_setIfInBounds, ← toList,
      List.set_eq_take_append_cons_drop, if_pos hi, List.filter_append,
      List.filter_cons_of_neg (by simp)]
    conv =>
      rhs
      rw [← List.take_append_drop i r.toList, List.drop_eq_getElem_cons hi, List.filter_append,
        List.filter_cons_of_neg (by simp [hkey])]

theorem WellFormed.get?_put {r : Roster α} (wf : r.WellFormed) (x : α)
    (k : String) : (r.put x).get? k = if key x = k then some x else r.get? k := by
  cases hx : r.position? (key x) with
  | none =>
    rw [get?, position?_put_of_none hx, put_of_none hx]
    split
    · simp
    · cases hk : r.position? k with
      | none => simp [get?, hk]
      | some i =>
        have hi := wf.lt_size hk
        simp [get?, hk, Array.getElem?_push, Nat.ne_of_lt hi]
  | some p =>
    have hp := wf.lt_size hx
    rw [get?, position?_put_of_some hx, put_of_some hx]
    split
    · rename_i hk
      rw [← hk, hx]
      simp [hp]
    · rename_i hk
      cases hk' : r.position? k with
      | none => simp [get?, hk']
      | some i =>
        have hne : p ≠ i := by
          rintro rfl
          have hkey := (wf (key x) p).1 hx
          rw [(wf k p).1 hk'] at hkey
          exact hk (Option.some.inj hkey).symm
        simp [get?, hk', hne]

theorem WellFormed.mem_toList_put {r : Roster α} (wf : r.WellFormed)
    {x y : α} : y ∈ (r.put x).toList ↔ y = x ∨ (y ∈ r.toList ∧ key y ≠ key x) := by
  have hput : y ∈ (r.put x).toList ↔ (r.put x).get? (key y) = some y := by
    rw [(wf.put x).get?_eq_some_iff]; simp
  have hget : y ∈ r.toList ↔ r.get? (key y) = some y := by
    rw [wf.get?_eq_some_iff]; simp
  rw [hput, hget, wf.get?_put]
  by_cases hk : key x = key y
  · rw [if_pos hk]
    constructor
    · intro h
      exact Or.inl (Option.some.inj h).symm
    · rintro (rfl | ⟨_, hne⟩)
      · rfl
      · exact absurd hk.symm hne
  · rw [if_neg hk]
    constructor
    · intro h
      exact Or.inr ⟨h, fun e => hk e.symm⟩
    · rintro (rfl | ⟨h, _⟩)
      · exact absurd rfl hk
      · exact h

end Roster
end Componentry
