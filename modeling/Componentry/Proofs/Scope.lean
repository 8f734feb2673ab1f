import Componentry.Proofs.Meaning
import Mathlib.Data.List.Basic

/-!
# Componentry.Proofs.Scope

How far an evaluation looks. Ancestors are reached from parent to parent (`ancestor?`), and
hierarchies are alike within a reach if the levels that it covers answer alike, no matter what
stands behind them (`AlikeWithin`). Searches ask levels no more than `Level.asked` keeps, so they
cannot tell such hierarchies apart (`value_evaluate_congr`). `evaluate_scope`: an evaluation sees
what its reach covers, and logs one event if there were ancestors that it left out.
-/

namespace Componentry

/-! ## Levels that answer alike -/

/-- Both levels give the same answers to all that a search asks. -/
structure Level.Alike (l l' : Level) : Prop where
  isRegistered : ∀ name, l.isRegistered name = l'.isRegistered name
  namesOfType : ∀ target, l.namesOfType .all target = l'.namesOfType .all target
  namesAnnotated : ∀ a, l.namesAnnotated a = l'.namesAnnotated a
  autowireCandidate : ∀ name, l.autowireCandidate name = l'.autowireCandidate name
  defaultCandidate : ∀ name, l.defaultCandidate name = l'.defaultCandidate name

theorem Level.Alike.refl (l : Level) : l.Alike l :=
  ⟨fun _ => rfl, fun _ => rfl, fun _ => rfl, fun _ => rfl, fun _ => rfl⟩

/-- A level without the answers that no search asks for. -/
def Level.asked (l : Level) : Level :=
  { l with
    namesOfType := fun _ target => l.namesOfType .all target
    annotationsOf := fun _ => [] }

theorem Level.Alike.asked_eq {l l' : Level} (h : l.Alike l') : l.asked = l'.asked := by
  rw [asked, asked, funext h.isRegistered, funext h.namesOfType, funext h.namesAnnotated,
    funext h.autowireCandidate, funext h.defaultCandidate]

theorem map_asked_eq_of_rel {l? l'? : Option Level} (h : Option.Rel Level.Alike l? l'?) :
    l?.map (·.asked) = l'?.map (·.asked) := by
  cases h with
  | none => rfl
  | some hl => rw [Option.map_some, Option.map_some, hl.asked_eq]

section Asked

variable (levels : List Level)

theorem isHidden_map_asked (name : String) :
    isHidden (levels.map (·.asked)) name = isHidden levels name := by
  rw [isHidden, List.any_map]
  rfl

theorem sightings_map_asked {query : Level → List String}
    (hq : ∀ l : Level, query l.asked = query l) :
    sightings (levels.map (·.asked)) query = sightings levels query := by
  rw [sightings, List.zipIdx_map, List.flatMap_map, sightings]
  refine List.flatMap_congr fun entry _ => ?_
  simp only [Prod.map, id, hq, ← List.map_take, isHidden_map_asked]

theorem findByType_map_asked (container? : Option ComponentType) (target : ComponentType) :
    findByType (levels.map (·.asked)) container? target = findByType levels container? target := by
  have hsightings : ∀ t, sightings (levels.map (·.asked)) (·.namesOfType .all t) =
      sightings levels (·.namesOfType .all t) :=
    fun t => sightings_map_asked levels fun _ => rfl
  simp only [findByType, hsightings]

theorem findAnnotated_map_asked (a : Annotation) :
    findAnnotated (levels.map (·.asked)) a = findAnnotated levels a := by
  rw [findAnnotated, sightings_map_asked levels fun _ => rfl, findAnnotated]

theorem isCandidate_map_asked (f : Found) :
    isCandidate (levels.map (·.asked)) f = isCandidate levels f := by
  rw [isCandidate, List.getElem?_map, isCandidate]
  cases levels[f.depth]? <;> rfl

theorem candidates_map_asked (ignored : List String) (found : List Found) :
    candidates (levels.map (·.asked)) ignored found = candidates levels ignored found := by
  simp only [candidates, isCandidate_map_asked]

theorem any_isRegistered_map_asked (name : String) :
    (levels.map (·.asked)).any (·.isRegistered name) = levels.any (·.isRegistered name) := by
  rw [List.any_map]
  rfl

theorem ignoredNames_map_asked (c : Criteria) :
    c.ignoredNames (levels.map (·.asked)) = c.ignoredNames levels := by
  rw [Criteria.ignoredNames, funext (findByType_map_asked levels c.container?),
    Criteria.ignoredNames]

theorem findings_map_asked (c : Criteria) :
    c.findings (levels.map (·.asked)) = c.findings levels := by
  simp only [Criteria.findings, ignoredNames_map_asked, findByType_map_asked,
    findAnnotated_map_asked, candidates_map_asked, any_isRegistered_map_asked]

/-- Searches do not miss what they do not ask for. -/
theorem search_map_asked (c : Criteria) : c.search (levels.map (·.asked)) = c.search levels := by
  rw [Criteria.search, findings_map_asked, Criteria.search]

end Asked

/-! ## Hierarchies that are alike as far as a search goes -/

namespace Hierarchy

/-- What searches of a reach cover answers alike in both hierarchies. Of the ancestors that is no
more than 64; where one hierarchy ends before them, so does the other. -/
structure AlikeWithin (reach : Reach) (h h' : Hierarchy) : Prop where
  current : reach ≠ .ancestors → h.current.Alike h'.current
  ancestors : reach ≠ .current → ∀ n, 1 ≤ n → n ≤ 64 →
    Option.Rel Level.Alike ((h.ancestor? n).map (·.current)) ((h'.ancestor? n).map (·.current))

namespace AlikeWithin

variable {reach : Reach} {h h' : Hierarchy}

/-- Hierarchies that have the covered levels in common. -/
theorem of_take_eq (hc : reach ≠ .ancestors → h.current = h'.current)
    (ha : h.ancestors.take 64 = h'.ancestors.take 64) : h.AlikeWithin reach h' where
  current hr := hc hr ▸ .refl _
  ancestors _ n hpos hn := by
    obtain ⟨k, rfl⟩ := Nat.exists_eq_add_one.2 hpos
    have hk : h.ancestors[k]? = h'.ancestors[k]? := by
      have htake := congrArg (·[k]?) ha
      simpa [List.getElem?_take, Nat.lt_of_succ_le hn] using htake
    rw [current_ancestor?, current_ancestor?]
    change Option.Rel Level.Alike h.ancestors[k]? h'.ancestors[k]?
    rw [hk]
    cases h'.ancestors[k]? with
    | none => exact .none
    | some l => exact .some (.refl l)

theorem map_asked_take (hw : h.AlikeWithin reach h') (hr : reach ≠ .current) :
    (h.ancestors.take maxAncestors).map (·.asked) =
      (h'.ancestors.take maxAncestors).map (·.asked) := by
  refine List.ext_getElem? fun n => ?_
  rw [List.getElem?_map, List.getElem?_map, List.getElem?_take, List.getElem?_take]
  split
  · rename_i hn
    have hrel := hw.ancestors hr (n + 1) (Nat.le_add_left 1 n) hn
    rw [current_ancestor?, current_ancestor?] at hrel
    exact map_asked_eq_of_rel hrel
  · rfl

theorem map_asked_searched (hw : h.AlikeWithin reach h') :
    (h.searched reach).map (·.asked) = (h'.searched reach).map (·.asked) := by
  cases reach with
  | current =>
    have hcurrent := (hw.current (by decide)).asked_eq
    simp only [searched, List.map_cons, List.map_nil, hcurrent]
  | ancestors => exact hw.map_asked_take (by decide)
  | all =>
    have hcurrent := (hw.current (by decide)).asked_eq
    simp only [searched, List.map_cons, hcurrent, hw.map_asked_take (by decide)]

end AlikeWithin
end Hierarchy

/-! ## Evaluations -/

theorem value_evaluate_congr {h h' : Hierarchy} {c : Criteria} (hw : h.AlikeWithin c.reach h')
    (subject : Subject) : (evaluate subject c h).value = (evaluate subject c h').value := by
  unfold evaluate
  cases he : c.forSubject? subject with
  | none => rfl
  | some e =>
    have hreach := (names_and_reach_of_forSubject? he).2
    show e.search (h.searched e.reach) = e.search (h'.searched e.reach)
    rw [← search_map_asked, hreach, hw.map_asked_searched, search_map_asked]

/-- There is something to look for, and more ancestors than a search for it goes through. -/
structure FallsShort (subject : Subject) (c : Criteria) (h : Hierarchy) : Prop where
  reach : c.reach ≠ .current
  sought : c.IsGiven ∨ ∃ target, subject.Implies c.container? target
  ancestors : (h.ancestor? 65).isSome = true

theorem fallsShort_iff {subject : Subject} {c : Criteria} {h : Hierarchy} :
    FallsShort subject c h ↔ (c.forSubject? subject).isSome = true ∧
      (c.reach ≠ .current ∧ maxAncestors < h.ancestors.length) := by
  have hdeep : (h.ancestor? 65).isSome = true ↔ maxAncestors < h.ancestors.length :=
    h.isSome_ancestor?_iff 65
  rw [Criteria.isSome_forSubject?_iff, ← hdeep]
  constructor
  · intro ⟨hr, hs, ha⟩
    exact ⟨hs, hr, ha⟩
  · intro ⟨hs, hr, ha⟩
    exact ⟨hr, hs, ha⟩

theorem events_evaluate (subject : Subject) (c : Criteria) (h : Hierarchy) :
    (FallsShort subject c h → (evaluate subject c h).events = [.hierarchyTooDeep 64]) ∧
      (¬ FallsShort subject c h → (evaluate subject c h).events = []) := by
  rw [fallsShort_iff, evaluate]
  cases he : c.forSubject? subject with
  | none => simp
  | some e =>
    have hreach := (names_and_reach_of_forSubject? he).2
    simp only [Option.isSome_some, true_and, Hierarchy.depthEvents, hreach]
    exact ⟨fun hdeep => if_pos hdeep, fun hdeep => if_neg hdeep⟩

/-- An evaluation sees the levels that its reach covers and nothing beyond them: where those answer
alike, the names and the reason are the same, however many ancestors follow. It logs one warning if
something was looked for beyond the current level and there are more than 64 ancestors, and nothing
otherwise. -/
theorem evaluate_scope (subject : Subject) (c : Criteria) :
    (∀ h h' : Hierarchy, h.AlikeWithin c.reach h' →
      (evaluate subject c h).value = (evaluate subject c h').value) ∧
    ∀ h : Hierarchy,
      (FallsShort subject c h → (evaluate subject c h).events = [.hierarchyTooDeep 64]) ∧
      (¬ FallsShort subject c h → (evaluate subject c h).events = []) ∧
      ∀ e ∈ (evaluate subject c h).events, e.severity = .warn := by
  refine ⟨fun h h' hw => value_evaluate_congr hw subject, fun h => ?_⟩
  obtain ⟨hshort, henough⟩ := events_evaluate subject c h
  refine ⟨hshort, henough, fun e he => ?_⟩
  by_cases hdeep : FallsShort subject c h
  · rw [hshort hdeep, List.mem_singleton] at he
    rw [he]
    rfl
  · rw [henough hdeep] at he
    cases he

/-- A component 65 levels away is out of sight, with a warning; one level closer it is found. -/
theorem evaluate_scope_deep :
    let blank : Level := ({} : Tables).level
    let deep : Level := ({ names := ["deep"] } : Tables).level
    let near : Hierarchy := ⟨blank, List.replicate 63 blank ++ [deep]⟩
    let far : Hierarchy := ⟨blank, List.replicate 64 blank ++ [deep]⟩
    let without : Hierarchy := ⟨blank, List.replicate 64 blank⟩
    let subject : Subject := .configuration { name := "s" }
    let c : Criteria := { names := ["deep"] }
    far.AlikeWithin c.reach without ∧ FallsShort subject c far ∧ ¬ FallsShort subject c near ∧
      (evaluate subject c far).value = (evaluate subject c without).value ∧
      (evaluate subject c far).value.names = [] ∧ (evaluate subject c near).value.names = ["deep"] ∧
      (evaluate subject c far).events = [.hierarchyTooDeep 64] ∧
      (evaluate subject c near).events = [] := by
  intro blank deep near far without subject c
  have hlike : far.AlikeWithin c.reach without := .of_take_eq (fun _ => rfl) rfl
  have hfar : FallsShort subject c far :=
    ⟨by decide, Or.inl (Or.inl (by decide)), (far.isSome_ancestor?_iff 65).2 (by decide)⟩
  have hnear : ¬ FallsShort subject c near := by
    intro hdeep
    exact absurd ((near.isSome_ancestor?_iff 65).1 hdeep.ancestors) (by decide)
  obtain ⟨hsame, hevents⟩ := evaluate_scope subject c
  exact ⟨hlike, hfar, hnear, hsame far without hlike, by decide +kernel, by decide +kernel,
    (hevents far).1 hfar, (hevents near).2.1 hnear⟩

end Componentry
