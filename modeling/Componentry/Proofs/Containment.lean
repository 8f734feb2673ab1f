import Componentry.Application
import Componentry.Proofs.Scope

/-!
# Componentry.Proofs.Containment

Two ways to look for a name among the ancestors. A context follows its parents to the end, and a
search by name covers a bounded number of them. Both are told by where the name is registered, so
many parents away (`Hierarchy.RegistersAt`): a context contains what is registered anywhere, a
search finds what is registered within its bound. `contains_agrees_with_search`: what a search finds
the context contains, and they agree on every name where no ancestor is out of the search's reach.
-/

namespace Componentry
namespace Hierarchy

variable {h : Hierarchy} {name : String} {n : Nat}

/-- The level that is `n` parents away registers a name. -/
def RegistersAt (h : Hierarchy) (name : String) (n : Nat) : Prop :=
  ∃ seen, h.ancestor? n = some seen ∧ seen.current.isRegistered name = true

theorem registersAt_iff : h.RegistersAt name n ↔
    ∃ level, h.levels[n]? = some level ∧ level.isRegistered name = true := by
  rw [← current_ancestor?, RegistersAt]
  cases h.ancestor? n <;> simp

theorem RegistersAt.le_length (hn : h.RegistersAt name n) : n ≤ h.ancestors.length := by
  obtain ⟨seen, hseen, _⟩ := hn
  exact (h.isSome_ancestor?_iff n).1 (Option.isSome_iff_exists.2 ⟨seen, hseen⟩)

theorem isRegistered_iff : h.isRegistered name = true ↔ ∃ n, h.RegistersAt name n := by
  simp only [isRegistered, List.any_eq_true, List.mem_iff_getElem?, registersAt_iff]
  constructor
  · intro ⟨level, ⟨n, hl⟩, hreg⟩
    exact ⟨n, level, hl, hreg⟩
  · intro ⟨n, level, hl, hreg⟩
    exact ⟨level, ⟨n, hl⟩, hreg⟩

theorem any_searched_all_iff : (h.searched .all).any (·.isRegistered name) = true ↔
    ∃ n ≤ 64, h.RegistersAt name n := by
  simp only [searched_eq_drop_take, Reach.closest, Reach.farthest, List.drop_zero,
    List.any_eq_true, List.mem_iff_getElem?, List.getElem?_take, registersAt_iff]
  constructor
  · intro ⟨level, ⟨n, hl⟩, hreg⟩
    split at hl
    · rename_i hn
      exact ⟨n, Nat.le_of_lt_succ hn, level, hl, hreg⟩
    · cases hl
  · intro ⟨n, hn, level, hl, hreg⟩
    exact ⟨level, ⟨n, by rw [if_pos (Nat.lt_succ_of_le hn), hl]⟩, hreg⟩

end Hierarchy

/-- A search for one name finds it where a level that it covers registers it. -/
theorem matched_evaluate_name (subject : Subject) (h : Hierarchy) (name : String)
    (container? : Option ComponentType) (reach : Reach) :
    (evaluate subject { names := [name], container?, reach } h).value.matched =
      (h.searched reach).any (·.isRegistered name) := by
  have hgiven : Criteria.IsGiven { names := [name], container?, reach } := Or.inl (by simp)
  rw [Bool.eq_iff_iff, Match.matched_iff_exists]
  simp [mem_names_evaluate_iff_of_isGiven hgiven, Meets]

/-- A context contains what is registered anywhere in its hierarchy; a search of all for one name,
whoever asks, finds what is registered no more than 64 parents away. So what a search finds the
context contains, and with no more than 64 ancestors they agree on every name. -/
theorem contains_agrees_with_search (context : Context) (subject : Subject) (name : String)
    (container? : Option ComponentType) :
    let h := context.registry.hierarchy
    let found := (evaluate subject { names := [name], container?, reach := .all } h).value
    (context.contains name = true ↔ ∃ n, h.RegistersAt name n) ∧
      (found.matched = true ↔ ∃ n ≤ 64, h.RegistersAt name n) ∧
      (found.matched = true → context.contains name = true) ∧
      (h.ancestors.length ≤ 64 → found.matched = context.contains name) := by
  intro h found
  have hcontains : context.contains name = true ↔ ∃ n, h.RegistersAt name n :=
    Hierarchy.isRegistered_iff
  have hfound : found.matched = true ↔ ∃ n ≤ 64, h.RegistersAt name n := by
    rw [show found.matched = _ from matched_evaluate_name subject h name container? .all]
    exact Hierarchy.any_searched_all_iff
  have hsound : found.matched = true → context.contains name = true := by
    intro hm
    obtain ⟨n, _, hn⟩ := hfound.1 hm
    exact hcontains.2 ⟨n, hn⟩
  refine ⟨hcontains, hfound, hsound, fun hshort => Bool.eq_iff_iff.2 ⟨hsound, fun hc => ?_⟩⟩
  obtain ⟨n, hn⟩ := hcontains.1 hc
  exact hfound.2 ⟨n, Nat.le_trans hn.le_length hshort, hn⟩

/-- A factory that the 64th ancestor registers is found and contained. One parent farther away it is
contained, but no longer found. -/
theorem contains_agrees_with_search_far :
    let blank : Level := ({} : Tables).level
    let last : Level := ({ names := ["&f"] } : Tables).level
    let near : Context := ⟨{ ancestors := List.replicate 63 blank ++ [last] }⟩
    let far : Context := ⟨{ ancestors := List.replicate 64 blank ++ [last] }⟩
    let subject : Subject := .configuration { name := "s" }
    let search (context : Context) : Bool :=
      (evaluate subject { names := ["&f"], reach := .all } context.registry.hierarchy).value.matched
    near.registry.hierarchy.ancestors.length ≤ 64 ∧ search near = true ∧
      near.contains "&f" = true ∧ search near = near.contains "&f" ∧
      (∃ n, far.registry.hierarchy.RegistersAt "&f" n) ∧
      ¬ (∃ n ≤ 64, far.registry.hierarchy.RegistersAt "&f" n) ∧
      search far = false ∧ far.contains "&f" = true := by
  intro blank last near far subject search
  have hshort : near.registry.hierarchy.ancestors.length ≤ 64 := by decide
  have hfound : search near = true := by decide +kernel
  have hmissed : search far = false := by decide +kernel
  have hfar : far.contains "&f" = true := by decide +kernel
  obtain ⟨_, _, hsound, hagree⟩ := contains_agrees_with_search near subject "&f" none
  obtain ⟨hcontains, hmatched, _⟩ := contains_agrees_with_search far subject "&f" none
  refine ⟨hshort, hfound, hsound hfound, hagree hshort, hcontains.1 hfar, ?_, hmissed, hfar⟩
  rw [← hmatched]
  exact Bool.eq_false_iff.1 hmissed

end Componentry
