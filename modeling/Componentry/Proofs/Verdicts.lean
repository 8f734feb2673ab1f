import Componentry.Proofs.Lineage

/-!
# Componentry.Proofs.Verdicts

What is recorded of the conditions on a declaration. `verdicts` are what all conditions come to in
list order. The judged ones go as far as the first that does not match (`judge_eq`), so they are all
of them if all match (`judge_of_all_met`). A report keeps them apart by name: recording under one
name adds to what it has and changes no other one (`Report.Gains`, `Report.gains_recordAll`). Runs
keep the tables of a registry and of its report in order (`Registry.kept_intact`).
-/

namespace Componentry

/-- What conditions come to, each judged by itself. -/
def verdicts (conditions : List Condition) (h : Hierarchy) (subject : Subject) : List Verdict :=
  conditions.map fun c => (c.verdict h subject).value

/-- Verdicts up to the first one that does not match, this one included. -/
def throughFailure (vs : List Verdict) : List Verdict :=
  vs.takeWhile (·.matched) ++ (vs.dropWhile (·.matched)).take 1

theorem throughFailure_cons (v : Verdict) (vs : List Verdict) :
    throughFailure (v :: vs) = v :: if v.matched then throughFailure vs else [] := by
  cases h : v.matched <;> simp [throughFailure, h]

theorem throughFailure_of_allMatched {vs : List Verdict} (h : allMatched vs = true) :
    throughFailure vs = vs := by
  induction vs with
  | nil => rfl
  | cons v vs ih =>
    simp [allMatched] at h ih
    rw [throughFailure_cons, h.1, if_pos rfl, ih h.2]

theorem allMatched_throughFailure (vs : List Verdict) :
    allMatched (throughFailure vs) = allMatched vs := by
  induction vs with
  | nil => rfl
  | cons v vs ih =>
    rw [throughFailure_cons]
    cases h : v.matched with
    | true => simpa [allMatched, h] using ih
    | false => simp [allMatched, h]

theorem allMatched_verdicts (conditions : List Condition) (h : Hierarchy) (subject : Subject) :
    allMatched (verdicts conditions h subject) = conditions.all (·.isMet h subject) := by
  simp [allMatched, verdicts, List.all_map]
  rfl

theorem judge_eq (conditions : List Condition) (h : Hierarchy) (subject : Subject) :
    (judge conditions h subject).value = throughFailure (verdicts conditions h subject) := by
  induction conditions with
  | nil => rfl
  | cons c cs ih =>
    rw [verdicts, List.map_cons, throughFailure_cons, ← verdicts, ← ih]
    cases hm : (c.verdict h subject).value.matched <;> simp [judge, hm]

theorem judge_of_all_met {conditions : List Condition} {h : Hierarchy} {subject : Subject}
    (hm : conditions.all (·.isMet h subject) = true) :
    (judge conditions h subject).value = verdicts conditions h subject := by
  rw [judge_eq, throughFailure_of_allMatched]
  rw [allMatched_verdicts, hm]

/-- What a report holds of conditions that were judged once: nothing if there are none. -/
def recordedVerdicts? (conditions : List Condition) (h : Hierarchy) (subject : Subject) :
    Option (List Verdict) :=
  if conditions = [] then none else some (throughFailure (verdicts conditions h subject))

theorem judge_ne_nil {conditions : List Condition} (hne : conditions ≠ []) (h : Hierarchy)
    (subject : Subject) : (judge conditions h subject).value ≠ [] := by
  cases conditions with
  | nil => exact absurd rfl hne
  | cons c cs =>
    rw [judge_eq, verdicts, List.map_cons, throughFailure_cons]
    exact List.cons_ne_nil _ _

theorem matched_of_recordedVerdicts? {conditions : List Condition} {h : Hierarchy}
    {subject : Subject} {vs : List Verdict}
    (hvs : recordedVerdicts? conditions h subject = some vs) :
    ∀ v ∈ vs.dropLast, v.matched = true := by
  unfold recordedVerdicts? at hvs
  split at hvs
  · cases hvs
  · cases hvs
    rw [← judge_eq]
    exact judge_matched_of_mem_dropLast

theorem all_recordedVerdicts? (conditions : List Condition) (h : Hierarchy) (subject : Subject) :
    (recordedVerdicts? conditions h subject).all allMatched =
      conditions.all (·.isMet h subject) := by
  unfold recordedVerdicts?
  split
  · rename_i hnil
    rw [hnil]
    rfl
  · rw [Option.all_some, allMatched_throughFailure, allMatched_verdicts]

/-! ## Reports -/

namespace Report

theorem verdictsFor?_record {r : Report} (wf : r.WellFormed) (source : String) (v : Verdict)
    (name : String) : (r.record source v).verdictsFor? name =
      if source = name then some ((r.verdictsFor? source).getD [] ++ [v])
      else r.verdictsFor? name := by
  rw [verdictsFor?, record, wf.get?_put]
  show Option.map _ (if source = name then _ else _) = _
  split <;> rfl

theorem wellFormed_record {r : Report} (wf : r.WellFormed) (source : String) (v : Verdict) :
    (r.record source v).WellFormed :=
  wf.put _

theorem wellFormed_recordAll {r : Report} (wf : r.WellFormed) (source : String)
    (vs : List Verdict) : (r.recordAll source vs).WellFormed := by
  induction vs generalizing r with
  | nil => exact wf
  | cons v vs ih => exact ih (wellFormed_record wf source v)

theorem isSome_verdictsFor? {r : Report} (wf : r.WellFormed) (source : String) :
    (r.verdictsFor? source).isSome = (r.position? source).isSome := by
  rw [verdictsFor?, Option.isSome_map, Bool.eq_iff_iff, ← Option.ne_none_iff_isSome,
    ← Option.ne_none_iff_isSome, ne_eq, ne_eq, wf.position?_eq_none_iff]

/-- A source that is recorded already keeps its place, and any other one comes to stand last. -/
theorem sources_record {r : Report} (wf : r.WellFormed) (source : String) (v : Verdict) :
    (r.record source v).groups.map (·.source) =
      if (r.verdictsFor? source).isSome then r.groups.map (·.source)
      else r.groups.map (·.source) ++ [source] := by
  rw [isSome_verdictsFor? wf]
  cases hp : r.position? source with
  | none =>
    rw [if_neg (by simp), groups, record, Roster.toList_put_of_none hp, List.map_append]
    rfl
  | some i =>
    rw [if_pos Option.isSome_some]
    exact wf.map_key_put_of_some hp

/-- `r'` is `r` with verdicts on a source put after those that it holds on the source. Other sources
are left as they are, and a source that it holds nothing on comes to stand last. -/
structure Gains (r : Report) (source : String) (vs : List Verdict) (r' : Report) : Prop where
  nothing : vs = [] → r' = r
  own : vs ≠ [] → r'.verdictsFor? source = some ((r.verdictsFor? source).getD [] ++ vs)
  others : ∀ name, name ≠ source → r'.verdictsFor? name = r.verdictsFor? name
  sources : vs ≠ [] → r'.groups.map (·.source) =
    if (r.verdictsFor? source).isSome then r.groups.map (·.source)
    else r.groups.map (·.source) ++ [source]

theorem gains_nothing (r : Report) (source : String) : r.Gains source [] r where
  nothing _ := rfl
  own hnil := absurd rfl hnil
  others _ _ := rfl
  sources hnil := absurd rfl hnil

theorem gains_record {r : Report} (wf : r.WellFormed) (source : String) (v : Verdict) :
    r.Gains source [v] (r.record source v) where
  nothing := nofun
  own _ := by rw [verdictsFor?_record wf, if_pos rfl]
  others _ hne := by rw [verdictsFor?_record wf, if_neg hne.symm]
  sources _ := sources_record wf source v

/-- Once a source is recorded, further verdicts on it leave it in its place. -/
theorem Gains.trans {r r' r'' : Report} {source : String} {vs ws : List Verdict}
    (h : r.Gains source vs r') (h' : r'.Gains source ws r'') :
    r.Gains source (vs ++ ws) r'' := by
  by_cases hvs : vs = []
  · obtain rfl := h.nothing hvs
    rwa [hvs, List.nil_append]
  · by_cases hws : ws = []
    · obtain rfl := h'.nothing hws
      rwa [hws, List.append_nil]
    · have hown := h.own hvs
      exact {
        nothing := fun hnil => absurd (List.append_eq_nil_iff.1 hnil).1 hvs
        own := fun _ => by rw [h'.own hws, hown, Option.getD_some, List.append_assoc]
        others := fun name hne => (h'.others name hne).trans (h.others name hne)
        sources := fun _ => by rw [h'.sources hws, hown, if_pos Option.isSome_some, h.sources hvs] }

theorem gains_recordAll {r : Report} (wf : r.WellFormed) (source : String) (vs : List Verdict) :
    r.Gains source vs (r.recordAll source vs) := by
  induction vs generalizing r with
  | nil => exact gains_nothing r source
  | cons v vs ih => exact (gains_record wf source v).trans (ih (wellFormed_record wf source v))

end Report

namespace Registry

/-- A registry whose tables are in order. -/
structure Intact (r : Registry) : Prop where
  sound : r.catalog.Sound
  report : r.report.WellFormed

theorem intact_create (overriding : Bool) (parent? : Option Hierarchy) :
    (create overriding parent?).Intact :=
  ⟨Catalog.sound_empty, Roster.wellFormed_empty⟩

theorem kept_intact : Kept Intact where
  define h hd := by
    refine ⟨kept_sound.define h.sound hd, ?_⟩
    rw [report_define hd]
    exact h.report
  record source vs h := ⟨h.sound, Report.wellFormed_recordAll h.report source vs⟩

theorem Reachable.intact {overriding : Bool} {parent? : Option Hierarchy} {r : Registry}
    (h : r.Reachable overriding parent?) : r.Intact :=
  kept_intact.reachable (intact_create overriding parent?) h

end Registry
end Componentry
