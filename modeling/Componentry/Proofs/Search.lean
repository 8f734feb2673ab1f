import Componentry.Evaluation
import Mathlib.Data.List.Basic

/-!
# Componentry.Proofs.Search

The lists that a search goes through. `mem_sightings_iff` says what is sighted, `mem_firstSightings`
which sighting of a name is kept, and `mem_names_search_iff` what a search makes of them. The order
of names is that of the sightings: `map_name_firstSightings` and `map_name_candidates`.
-/

namespace Componentry

theorem nodup_eraseDups {α : Type} [BEq α] [LawfulBEq α] (xs : List α) : xs.eraseDups.Nodup := by
  match xs with
  | [] => simp
  | x :: xs =>
    rw [List.eraseDups_cons, List.nodup_cons]
    refine ⟨?_, nodup_eraseDups _⟩
    rw [List.mem_eraseDups, List.mem_filter]
    simp
termination_by xs.length
decreasing_by exact Nat.lt_succ_of_le (List.length_filter_le _ _)

theorem filter_eraseDups {α : Type} [BEq α] [LawfulBEq α] (p : α → Bool) (xs : List α) :
    xs.eraseDups.filter p = (xs.filter p).eraseDups := by
  match xs with
  | [] => simp
  | x :: xs =>
    have hrest := filter_eraseDups p (xs.filter fun y => !y == x)
    rw [List.eraseDups_cons, List.filter_cons, List.filter_cons]
    cases hx : p x with
    | true =>
      rw [if_pos rfl, if_pos rfl, hrest, List.eraseDups_cons, List.filter_comm]
    | false =>
      -- what is dropped as a copy of `x` would be dropped by `p` as well
      have hcopies : (xs.filter fun y => !y == x).filter p = xs.filter p := by
        rw [List.filter_filter]
        refine List.filter_congr fun y _ => ?_
        by_cases hy : y = x
        · simp [hy, hx]
        · simp [hy]
      rw [if_neg Bool.false_ne_true, if_neg Bool.false_ne_true, hrest, hcopies]
termination_by xs.length
decreasing_by exact Nat.lt_succ_of_le (List.length_filter_le _ _)

theorem isHidden_eq_false_iff {closer : List Level} {name : String} :
    isHidden closer name = false ↔
      ∀ level ∈ closer, level.isRegistered (baseName name) = false := by
  simp [isHidden, List.any_eq_false]

theorem mem_sightings_iff {levels : List Level} {query : Level → List String} {f : Found} :
    f ∈ sightings levels query ↔
      ∃ level, levels[f.depth]? = some level ∧ f.name ∈ query level ∧
        isHidden (levels.take f.depth) f.name = false := by
  simp only [sightings, List.mem_flatMap, List.mem_map, List.mem_filter, Bool.not_eq_true']
  constructor
  · rintro ⟨⟨level, depth⟩, hl, name, ⟨hq, hh⟩, rfl⟩
    exact ⟨level, List.mk_mem_zipIdx_iff_getElem?.1 hl, hq, hh⟩
  · rintro ⟨level, hl, hq, hh⟩
    exact ⟨(level, f.depth), List.mk_mem_zipIdx_iff_getElem?.2 hl, f.name, ⟨hq, hh⟩, rfl⟩

/-- Sightings come from the closest level on. -/
theorem pairwise_depth_sightings (levels : List Level) (query : Level → List String) :
    (sightings levels query).Pairwise fun f g => f.depth ≤ g.depth := by
  rw [sightings, List.pairwise_flatMap]
  constructor
  · rintro ⟨level, depth⟩ _
    rw [List.pairwise_map]
    exact List.pairwise_of_forall fun _ _ => Nat.le_refl depth
  · rw [List.pairwise_iff_getElem]
    intro i j hi hj hij f hf g hg
    rw [List.getElem_zipIdx] at hf hg
    obtain ⟨_, _, rfl⟩ := List.mem_map.1 hf
    obtain ⟨_, _, rfl⟩ := List.mem_map.1 hg
    show 0 + i ≤ 0 + j
    omega

/-! ## First sightings -/

theorem firstSightings_cons (f : Found) (found : List Found) :
    firstSightings (f :: found) = f :: firstSightings (found.filter (·.name != f.name)) := by
  rw [firstSightings, List.eraseDupsBy_cons, firstSightings]
  congr 3
  funext g
  cases h : g.name == f.name <;> simp [bne, h]

theorem find?_filter_name_ne (found : List Found) (taken name : String) :
    (found.filter (·.name != taken)).find? (·.name == name) =
      if taken = name then none else found.find? (·.name == name) := by
  rw [List.find?_filter]
  split
  · rename_i h
    subst h
    rw [List.find?_eq_none]
    intro f _
    simp
  · rename_i h
    congr 1
    funext f
    by_cases hf : f.name = name
    · simp [hf, Ne.symm h]
    · simp [hf]

/-- What is kept of a name is the first that was found under it. -/
theorem mem_firstSightings {found : List Found} {f : Found} :
    f ∈ firstSightings found ↔ found.find? (·.name == f.name) = some f := by
  match found with
  | [] => simp [firstSightings]
  | g :: found =>
    rw [firstSightings_cons, List.mem_cons, mem_firstSightings, find?_filter_name_ne,
      List.find?_cons]
    by_cases hn : g.name = f.name
    · rw [if_pos hn, beq_iff_eq.2 hn]
      simp [eq_comm]
    · rw [if_neg hn, beq_eq_false_iff_ne.2 hn]
      constructor
      · rintro (rfl | h)
        · exact absurd rfl hn
        · exact h
      · exact Or.inr
termination_by found.length
decreasing_by exact Nat.lt_succ_of_le (List.length_filter_le _ _)

theorem mem_of_mem_firstSightings {found : List Found} {f : Found}
    (h : f ∈ firstSightings found) : f ∈ found :=
  List.mem_of_find?_eq_some (mem_firstSightings.1 h)

theorem map_name_firstSightings (found : List Found) :
    (firstSightings found).map (·.name) = (found.map (·.name)).eraseDups := by
  match found with
  | [] => rfl
  | f :: found =>
    rw [firstSightings_cons, List.map_cons, map_name_firstSightings, List.map_cons,
      List.eraseDups_cons, List.filter_map]
    rfl
termination_by found.length
decreasing_by exact Nat.lt_succ_of_le (List.length_filter_le _ _)

/-! ## Candidates and matches -/

theorem mem_candidates_iff {levels : List Level} {ignored : List String} {found : List Found}
    {name : String} :
    name ∈ candidates levels ignored found ↔
      name ∉ ignored ∧ ∃ f ∈ found, f.name = name ∧ isCandidate levels f = true := by
  simp only [candidates, List.mem_map, List.mem_filter, Bool.and_eq_true, Bool.not_eq_true',
    List.contains_eq_mem, decide_eq_false_iff_not]
  constructor
  · rintro ⟨f, ⟨hf, hi, hc⟩, rfl⟩
    exact ⟨hi, f, hf, rfl, hc⟩
  · rintro ⟨hi, f, hf, rfl, hc⟩
    exact ⟨f, ⟨hf, hi, hc⟩, rfl⟩

/-- Where being a candidate is a matter of the name alone, so is what a search by type keeps. -/
theorem map_name_candidates {levels : List Level} {ignored : List String} {found : List Found}
    {p : String → Bool} (h : ∀ f ∈ found, isCandidate levels f = p f.name) :
    candidates levels ignored found =
      (found.map (·.name)).filter fun name => !ignored.contains name && p name := by
  rw [candidates, List.filter_map]
  congr 1
  refine List.filter_congr fun f hf => ?_
  rw [h f hf]
  rfl

/-- Leaving out criteria that find nothing leaves out no name. -/
theorem flatMap_names_findings (c : Criteria) (levels : List Level) :
    (c.findings levels).flatMap (·.names) =
      (c.types.flatMap fun t =>
        candidates levels (c.ignoredNames levels) (findByType levels c.container? t)) ++
      (c.annotations.flatMap fun a =>
        candidates levels (c.ignoredNames levels) (findAnnotated levels a)) ++
      c.names.filter fun name =>
        !(c.ignoredNames levels).contains name && levels.any (·.isRegistered name) := by
  have hempty : ∀ findings : List Finding,
      (findings.filter fun f => !f.names.isEmpty).flatMap (·.names) =
        findings.flatMap (·.names) := by
    intro findings
    induction findings with
    | nil => rfl
    | cons f fs ih =>
      rw [List.filter_cons, List.flatMap_cons, ← ih]
      cases hf : f.names <;> simp [hf]
  rw [Criteria.findings, hempty]
  simp [List.flatMap_append, List.flatMap_map, Finding.names]

theorem mem_names_findings_iff {c : Criteria} {levels : List Level} {name : String} :
    name ∈ (c.findings levels).flatMap (·.names) ↔
      (∃ t ∈ c.types,
        name ∈ candidates levels (c.ignoredNames levels) (findByType levels c.container? t)) ∨
      (∃ a ∈ c.annotations,
        name ∈ candidates levels (c.ignoredNames levels) (findAnnotated levels a)) ∨
      (name ∈ c.names ∧ name ∉ c.ignoredNames levels ∧
        ∃ level ∈ levels, level.isRegistered name = true) := by
  rw [flatMap_names_findings]
  simp

theorem mem_names_search_iff {c : Criteria} {levels : List Level} {name : String} :
    name ∈ (c.search levels).names ↔ name ∈ (c.findings levels).flatMap (·.names) :=
  List.mem_eraseDups

theorem nodup_names_search (c : Criteria) (levels : List Level) :
    (c.search levels).names.Nodup :=
  nodup_eraseDups _

theorem names_evaluate (subject : Subject) (c : Criteria) (h : Hierarchy) :
    (evaluate subject c h).value.names =
      (c.forSubject? subject).elim [] fun e => (e.search (h.searched e.reach)).names := by
  rw [evaluate]
  cases c.forSubject? subject <;> rfl

theorem Match.matched_iff {m : Match} : m.matched = true ↔ m.names ≠ [] := by
  simp [Match.matched]

theorem Match.matched_iff_exists {m : Match} : m.matched = true ↔ ∃ name, name ∈ m.names := by
  rw [matched_iff]
  exact ⟨List.exists_mem_of_ne_nil m.names, fun ⟨_, h⟩ => List.ne_nil_of_mem h⟩

end Componentry
