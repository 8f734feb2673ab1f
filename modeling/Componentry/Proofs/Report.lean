import Componentry.Proofs.History
import Componentry.Proofs.Search
import Componentry.Proofs.Verdicts

/-!
# Componentry.Proofs.Report

A report as a log, grouped. A log lists verdicts, each with the name of the declaration that it is
about, and `Report.ofLog` records them one after the other. Whatever the order in which sources take
turns, the report has one group for each of them, in the order of their first verdicts, and a group
holds what the log says of its source: `report_groups_log`. Put together, the groups are the log up
to order (`perm_flatMap_verdictsOn`).
-/

namespace Componentry

/-- Sorted by different keys, the elements with one of these keys are still the same ones. -/
theorem perm_flatMap_filter_key {α : Type} (key : α → String) {keys : List String}
    (h : keys.Nodup) (xs : List α) : (keys.flatMap fun k => xs.filter (key · == k)).Perm
      (xs.filter fun x => keys.contains (key x)) := by
  induction keys with
  | nil => simp
  | cons k keys ih =>
    obtain ⟨hk, hkeys⟩ := List.nodup_cons.1 h
    have hfirst : xs.filter (key · == k) =
        (xs.filter fun x => (k :: keys).contains (key x)).filter (key · == k) := by
      rw [List.filter_filter]
      refine List.filter_congr fun x _ => ?_
      by_cases hx : key x = k <;> simp [hx]
    have hothers : (xs.filter fun x => keys.contains (key x)) =
        (xs.filter fun x => (k :: keys).contains (key x)).filter fun x => !(key x == k) := by
      rw [List.filter_filter]
      refine List.filter_congr fun x _ => ?_
      by_cases hx : key x = k <;> simp [hx, hk]
    rw [List.flatMap_cons]
    refine ((ih hkeys).append_left _).trans ?_
    rw [hfirst, hothers]
    exact List.filter_append_perm _ _

namespace Roster

variable {α : Type} [Keyed α]

/-- The entries are told by the order of their keys and by what is found under each. -/
theorem WellFormed.toList_eq_map {r : Roster α} (wf : r.WellFormed) {keys : List String}
    {f : String → α} (hkeys : r.toList.map key = keys)
    (hget : ∀ k ∈ keys, r.get? k = some (f k)) : r.toList = keys.map f := by
  rw [← hkeys, List.map_map]
  refine (List.map_id _).symm.trans (List.map_congr_left fun x hx => ?_)
  have hfound : r.get? (key x) = some x := wf.get?_eq_some_iff.2 ⟨hx, rfl⟩
  rw [hget (key x) (hkeys ▸ List.mem_map_of_mem hx)] at hfound
  exact (Option.some.inj hfound).symm

end Roster

/-- A verdict as a line of text. -/
def Verdict.line (v : Verdict) : String :=
  "   - " ++ v.condition ++ " " ++ (if v.matched then "matched" else "did not match") ++ ": " ++
    v.message

/-- A heading, then a line for each verdict. -/
def VerdictGroup.lines (g : VerdictGroup) : List String :=
  (g.source ++ ":") :: g.verdicts.map (·.line)

namespace Report

/-- The report with the verdicts of a log recorded after those that it has. -/
def extend (r : Report) (log : List (String × Verdict)) : Report :=
  log.foldl (fun r entry => r.record entry.1 entry.2) r

def ofLog (log : List (String × Verdict)) : Report := extend .empty log

/-- The sources of a log in the order of their first verdicts. -/
def sources (log : List (String × Verdict)) : List String := (log.map (·.1)).eraseDups

/-- What a log says of one source. -/
def verdictsOn (log : List (String × Verdict)) (source : String) : List Verdict :=
  (log.filter (·.1 == source)).map (·.2)

variable {log : List (String × Verdict)} {source : String}

theorem mem_sources : source ∈ sources log ↔ ∃ v, (source, v) ∈ log := by
  simp [sources]

theorem verdictsOn_concat (entry : String × Verdict) : verdictsOn (log ++ [entry]) source =
    if entry.1 = source then verdictsOn log source ++ [entry.2] else verdictsOn log source := by
  split <;> simp [verdictsOn, *]

theorem mem_verdictsOn {v : Verdict} : v ∈ verdictsOn log source ↔ (source, v) ∈ log := by
  simp [verdictsOn]

theorem verdictsOn_of_not_mem (h : source ∉ sources log) : verdictsOn log source = [] :=
  List.eq_nil_iff_forall_not_mem.2 fun v hv => h (mem_sources.2 ⟨v, mem_verdictsOn.1 hv⟩)

/-- Nothing is lost, nothing is doubled, and every verdict stays with its source. -/
theorem perm_flatMap_verdictsOn (log : List (String × Verdict)) :
    ((sources log).flatMap fun source => (verdictsOn log source).map (source, ·)).Perm log := by
  have hgroup (source : String) :
      (verdictsOn log source).map (source, ·) = log.filter (·.1 == source) := by
    rw [verdictsOn, List.map_map]
    refine (List.map_congr_left fun entry he => ?_).trans (List.map_id _)
    have hsource : entry.1 = source := beq_iff_eq.1 (List.mem_filter.1 he).2
    rw [← hsource]
    rfl
  have hall : (log.filter fun entry => (sources log).contains entry.1) = log := by
    refine List.filter_eq_self.2 fun entry he => ?_
    rw [List.contains_iff_mem, mem_sources]
    exact ⟨entry.2, he⟩
  simp only [hgroup]
  refine (perm_flatMap_filter_key (·.1) (nodup_eraseDups _) log).trans ?_
  rw [sources] at hall
  rw [hall]

/-! ## Recording -/

/-- What a report has to do with the log of its records. -/
structure Groups (log : List (String × Verdict)) (r : Report) : Prop where
  wellFormed : r.WellFormed
  sources : r.groups.map (·.source) = sources log
  verdictsFor? : ∀ source, r.verdictsFor? source =
    if source ∈ Report.sources log then some (verdictsOn log source) else none

theorem groups_empty : Groups [] .empty where
  wellFormed := Roster.wellFormed_empty
  sources := rfl
  verdictsFor? source := by simp [Report.verdictsFor?, Report.sources]

theorem sources_concat (entry : String × Verdict) : sources (log ++ [entry]) =
    if entry.1 ∈ sources log then sources log else sources log ++ [entry.1] := by
  simp only [sources, List.map_append, List.map_singleton, eraseDups_concat, List.mem_eraseDups]

/-- A verdict on a known source joins its group; any other one opens a group at the end. -/
theorem Groups.record {r : Report} (h : Groups log r) (entry : String × Verdict) :
    Groups (log ++ [entry]) (r.record entry.1 entry.2) where
  wellFormed := wellFormed_record h.wellFormed entry.1 entry.2
  sources := by
    rw [sources_record h.wellFormed, h.sources, h.verdictsFor?, sources_concat]
    by_cases hs : entry.1 ∈ Report.sources log <;> simp [hs]
  verdictsFor? source := by
    have hold : (r.verdictsFor? entry.1).getD [] = verdictsOn log entry.1 := by
      rw [h.verdictsFor?]
      split
      · rfl
      · next hnew => exact (verdictsOn_of_not_mem hnew).symm
    rw [verdictsFor?_record h.wellFormed, hold, verdictsOn_concat]
    by_cases hs : entry.1 = source
    · subst hs
      have hmem : entry.1 ∈ Report.sources (log ++ [entry]) := by
        rw [sources_concat]
        split <;> simp [*]
      rw [if_pos rfl, if_pos rfl, if_pos hmem]
    · have hmem : source ∈ Report.sources (log ++ [entry]) ↔ source ∈ Report.sources log := by
        rw [sources_concat]
        split <;> simp [Ne.symm hs]
      rw [if_neg hs, if_neg hs, h.verdictsFor?]
      simp only [hmem]

theorem groups_ofLog (log : List (String × Verdict)) : Groups log (ofLog log) := by
  induction log using List.reverseRecOn with
  | nil => exact groups_empty
  | append_singleton log entry ih =>
    rw [ofLog, extend, List.foldl_append]
    exact ih.record entry

theorem Groups.groups_eq {r : Report} (h : Groups log r) :
    r.groups = (Report.sources log).map fun source => ⟨source, verdictsOn log source⟩ := by
  refine h.wellFormed.toList_eq_map h.sources fun source hs => ?_
  have hfound := h.verdictsFor? source
  rw [if_pos hs, Report.verdictsFor?, Option.map_eq_some_iff] at hfound
  obtain ⟨g, hg, hverdicts⟩ := hfound
  have hsource : g.source = source := (h.wellFormed.get?_eq_some_iff.1 hg).2
  rw [hg, ← hverdicts, ← hsource]

theorem Groups.allMatchedFor_iff {r : Report} (h : Groups log r) :
    r.allMatchedFor source = true ↔ ∀ v, (source, v) ∈ log → v.matched = true := by
  have hverdicts : r.allMatchedFor source = allMatched (verdictsOn log source) := by
    rw [allMatchedFor, h.verdictsFor?]
    split
    · rfl
    · next hnew =>
      rw [verdictsOn_of_not_mem hnew]
      rfl
  simp only [hverdicts, allMatched, List.all_eq_true, mem_verdictsOn]

/-! ## The text -/

theorem join_map_flatMap {α : Type} (f : α → List String) (g : String → String) (xs : List α) :
    String.join ((xs.flatMap f).map g) =
      String.join (xs.map fun x => String.join ((f x).map g)) := by
  induction xs with
  | nil => rfl
  | cons x xs ih =>
    rw [List.flatMap_cons, List.map_append, String.join_append, ih, List.map_cons,
      String.join_cons]

theorem line_append_newline (v : Verdict) : v.line ++ "\n" = v.render := by
  cases hm : v.matched <;> simp [Verdict.line, Verdict.render, hm, String.append_assoc]

theorem join_lines (g : VerdictGroup) : String.join (g.lines.map (· ++ "\n")) = g.render := by
  have hverdicts : (g.verdicts.map (·.line)).map (· ++ "\n") = g.verdicts.map (·.render) := by
    rw [List.map_map]
    exact List.map_congr_left fun v _ => line_append_newline v
  have hhead : g.source ++ ":" ++ "\n" = g.source ++ ":\n" := String.append_assoc
  rw [VerdictGroup.lines, List.map_cons, String.join_cons, hverdicts, VerdictGroup.render, hhead]

theorem render_eq_join_lines (r : Report) :
    r.render = String.join ((r.groups.flatMap (·.lines)).map (· ++ "\n")) := by
  rw [join_map_flatMap, render]
  simp only [join_lines]

/-- The report on a log holds it grouped by source. Sources stand in the order of their first
verdicts, each with its verdicts in order and with no others. A source is known if the log names it,
and it has matched unless a verdict on it failed. The text has a heading for each source and a line
for each verdict. -/
theorem report_groups_log (log : List (String × Verdict)) :
    let r := ofLog log
    r.groups = (log.map (·.1)).eraseDups.map (fun source => ⟨source, verdictsOn log source⟩) ∧
      (r.groups.flatMap fun g => g.verdicts.map (g.source, ·)).Perm log ∧
      (∀ source, r.verdictsFor? source =
        if source ∈ log.map (·.1) then some (verdictsOn log source) else none) ∧
      (∀ source, r.allMatchedFor source = true ↔ ¬ ∃ v, (source, v) ∈ log ∧ v.matched = false) ∧
      (r.isEmpty = true ↔ log = []) ∧
      r.render = String.join (((log.map (·.1)).eraseDups.flatMap fun source =>
        (source ++ ":") :: (verdictsOn log source).map (·.line)).map (· ++ "\n")) := by
  intro r
  have h : Groups log r := groups_ofLog log
  refine ⟨h.groups_eq, ?_, fun source => ?_, fun source => ?_, ?_, ?_⟩
  · rw [h.groups_eq, List.flatMap_map]
    exact perm_flatMap_verdictsOn log
  · rw [h.verdictsFor?, sources]
    simp only [List.mem_eraseDups]
  · rw [h.allMatchedFor_iff]
    simp
  · rw [isEmpty, h.groups_eq, List.isEmpty_iff, List.map_eq_nil_iff, sources]
    cases log with
    | nil => simp
    | cons entry log => simp [List.eraseDups_cons]
  · rw [render_eq_join_lines, h.groups_eq, List.flatMap_map, sources]
    rfl

end Report
end Componentry
