import Componentry.Proofs.Agreement
import Componentry.Proofs.Report

/-!
# Componentry.Proofs.Positions

Positions that are looked up stay in range. An index tells the position of an entry, and a search
the depth of the level that answered; neither is checked again when it is used. `positions_in_range`:
while calls work on a registry, the positions in its catalog and in its report are those of entries,
whatever else is recorded, and the depths that an evaluation asks about are those of levels that it
searches.
-/

namespace Componentry

theorem Report.wellFormed_extend {r : Report} (wf : r.WellFormed)
    (log : List (String × Verdict)) : (r.extend log).WellFormed := by
  induction log generalizing r with
  | nil => exact wf
  | cons entry log ih => exact ih (wellFormed_record wf entry.1 entry.2)

/-- Whatever is pending, the tables of a registry stay in order from step to step. -/
theorem Registry.Kept.steps {P : Registry → Prop} (k : Kept P) {view : Viewpoint} {s s' : Stage}
    (h : P s.registry) (hs : Stage.Steps view s s') : P s'.registry := by
  induction hs with
  | refl => exact h
  | cons hstep _ ih => exact ih (k.step h hstep)

/-! ## Depths -/

variable {levels : List Level} {f : Found}

theorem depth_lt_of_mem_sightings {query : Level → List String} (h : f ∈ sightings levels query) :
    f.depth < levels.length := by
  obtain ⟨_, hlevel, _⟩ := mem_sightings_iff.1 h
  exact (List.getElem?_eq_some_iff.1 hlevel).1

theorem depth_lt_of_mem_findByType {container? : Option ComponentType} {target : ComponentType}
    (h : f ∈ findByType levels container? target) : f.depth < levels.length := by
  obtain ⟨_, _, hf⟩ := List.mem_flatMap.1 (mem_of_mem_firstSightings h)
  exact depth_lt_of_mem_sightings hf

theorem depth_lt_of_mem_findAnnotated {a : Annotation} (h : f ∈ findAnnotated levels a) :
    f.depth < levels.length :=
  depth_lt_of_mem_sightings (mem_of_mem_firstSightings h)

/-- What a search finds by type or by annotation, and then asks about being a candidate. -/
def Criteria.sighted (c : Criteria) (levels : List Level) : List Found :=
  c.types.flatMap (findByType levels c.container?) ++ c.annotations.flatMap (findAnnotated levels)

theorem Criteria.depth_lt_of_mem_sighted {c : Criteria} (h : f ∈ c.sighted levels) :
    f.depth < levels.length := by
  rcases List.mem_append.1 h with h | h
  · obtain ⟨_, _, hf⟩ := List.mem_flatMap.1 h
    exact depth_lt_of_mem_findByType hf
  · obtain ⟨_, _, hf⟩ := List.mem_flatMap.1 h
    exact depth_lt_of_mem_findAnnotated hf

theorem candidates_flatMap {α : Type} (levels : List Level) (ignored : List String)
    (find : α → List Found) (xs : List α) : candidates levels ignored (xs.flatMap find) =
      xs.flatMap fun x => candidates levels ignored (find x) := by
  simp only [candidates, List.filter_flatMap, List.map_flatMap]

/-- Apart from criteria by name, a search asks about what is sighted and about nothing else. -/
theorem names_search_eq_sighted (c : Criteria) (levels : List Level) : (c.search levels).names =
    (candidates levels (c.ignoredNames levels) (c.sighted levels) ++ c.names.filter fun name =>
      !(c.ignoredNames levels).contains name && levels.any (·.isRegistered name)).eraseDups := by
  have happend (xs ys : List Found) : candidates levels (c.ignoredNames levels) (xs ++ ys) =
      candidates levels (c.ignoredNames levels) xs ++
        candidates levels (c.ignoredNames levels) ys := by
    simp only [candidates, List.filter_append, List.map_append]
  rw [Criteria.search, flatMap_names_findings, Criteria.sighted, happend, candidates_flatMap,
    candidates_flatMap]

/-! ## Main statement -/

/-- Whatever calls came before, at every stage of the next one the catalog and the report tell
positions of entries, also when more verdicts are recorded. What an evaluation asks about being a
candidate stands at depths of levels that it searches. -/
theorem positions_in_range :
    (∀ (overriding : Bool) (parent? : Option Hierarchy) (calls : List Call) (view : Viewpoint)
      (tasks : List Task) (s : Stage),
      Stage.Steps view ⟨calls.foldl Registry.call (.create overriding parent?), [], tasks⟩ s →
        (∀ name i, s.registry.catalog.position? name = some i →
          i < s.registry.definitions.length) ∧
        ∀ log source i, (s.registry.report.extend log).position? source = some i →
          i < (s.registry.report.extend log).groups.length) ∧
    ∀ (subject : Subject) (c e : Criteria) (h : Hierarchy), c.forSubject? subject = some e →
      let levels := h.searched e.reach
      let ignored := e.ignoredNames levels
      (evaluate subject c h).value.names =
          (candidates levels ignored (e.sighted levels) ++ e.names.filter fun name =>
            !ignored.contains name && levels.any (·.isRegistered name)).eraseDups ∧
        ∀ f ∈ e.sighted levels, f.depth < levels.length := by
  refine ⟨fun overriding parent? calls view tasks s hs => ?_, fun subject c e h he => ?_⟩
  · have hstart : (calls.foldl Registry.call (.create overriding parent?)).Intact :=
      (Registry.Reachable.empty.calls calls).intact
    have hintact : s.registry.Intact := Registry.kept_intact.steps hstart hs
    refine ⟨fun name i hi => ?_, fun log source i hi => ?_⟩
    · exact hintact.sound.wellFormed.lt_size hi
    · exact (Report.wellFormed_extend hintact.report log).lt_size hi
  · refine ⟨?_, fun f hf => Criteria.depth_lt_of_mem_sighted hf⟩
    rw [names_evaluate, he]
    exact names_search_eq_sighted e _

/-- A configuration replaces a definition that was registered ahead of it, and a box of an element
is seen two levels up. -/
theorem positions_in_range_replaced :
    let r := [Call.register { name := "a" }].foldl Registry.call (.create true none)
    let c : Configuration :=
      { declaration := { name := "c" }
        components := [{ declaration := { name := "a" }, conditions := [.ifMissing {}] }] }
    let box : ComponentType := .plain "Box"
    let tables : Tables := { types := [("Box<Element>", ["b"])] }
    let h : Hierarchy := ⟨Tables.level {}, [Tables.level {}, tables.level]⟩
    let e : Criteria := { types := [.plain "Element"], container? := some box }
    (∃ s, Stage.Steps .own ⟨r, [], [.configuration c]⟩ s ∧
        s.registry.catalog.position? "a" = some 0 ∧ 0 < s.registry.definitions.length ∧
        s.registry.report.position? "a" = some 0 ∧ 0 < s.registry.report.groups.length) ∧
      e.forSubject? (.component { name := "x" }) = some e ∧
      (⟨"b", 2⟩ : Found) ∈ e.sighted (h.searched e.reach) ∧ 2 < (h.searched e.reach).length := by
  intro r c box tables h e
  obtain ⟨hpositions, hdepths⟩ := positions_in_range
  have hsteps : ∃ registered, Stage.Steps .own ⟨r, [], [.configuration c]⟩
      ((r.runConfiguration .own c).stage registered []) := Registry.steps_runConfiguration c
  obtain ⟨registered, hs⟩ := hsteps
  obtain ⟨hcatalog, hreport⟩ := hpositions true none _ _ _ _ hs
  have hname : (r.runConfiguration .own c).registry.catalog.position? "a" = some 0 := by
    decide +kernel
  have hsource : (r.runConfiguration .own c).registry.report.position? "a" = some 0 := by
    decide +kernel
  have hsighted : (⟨"b", 2⟩ : Found) ∈ e.sighted (h.searched e.reach) := by decide +kernel
  exact ⟨⟨_, hs, hname, hcatalog _ _ hname, hsource, hreport [] _ _ hsource⟩, rfl, hsighted,
    (hdepths (.component { name := "x" }) e e h rfl).2 _ hsighted⟩

end Componentry
