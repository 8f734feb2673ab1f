import Componentry.Proofs.Order
import Componentry.Proofs.Sequence
import Componentry.Proofs.Verdicts

/-!
# Componentry.Proofs.Agreement

The report of an assembled registry against its definitions. The two are kept apart and have only
names in common, so what a run does to other names must leave both as they are (`AgreeAt`). Where
all names differ, each declaration is run while its own name is still blank, and the registry then
tells of it what its conditions came to (`Tells`) for the rest of the run.
`report_agrees_with_definitions` says so of every declaration of a plan.
-/

namespace Componentry

/-- The names that a configuration may register. -/
def Configuration.names (c : Configuration) : List String :=
  c.declaration.name :: c.components.map (·.declaration.name)

namespace Registry

/-- A definition stands under its own name. -/
theorem Intact.mem_definitions_iff {r : Registry} (hr : r.Intact) {d : Definition} :
    d ∈ r.definitions ↔ r.catalog.get? d.name = some d := by
  rw [hr.sound.get?_eq_some_iff]
  simp [definitions]

/-! ## Names that a run does not touch -/

/-- Both registries tell the same of a name. -/
structure AgreeAt (name : String) (r r' : Registry) : Prop where
  verdicts : r'.report.verdictsFor? name = r.report.verdictsFor? name
  definition : r'.catalog.get? name = r.catalog.get? name

namespace AgreeAt

variable {name : String} {r r' r'' : Registry}

theorem refl (name : String) (r : Registry) : AgreeAt name r r := ⟨rfl, rfl⟩

theorem trans (h : AgreeAt name r r') (h' : AgreeAt name r' r'') : AgreeAt name r r'' :=
  ⟨h'.verdicts.trans h.verdicts, h'.definition.trans h.definition⟩

theorem record (hr : r.Intact) {source : String} (hne : source ≠ name) (vs : List Verdict) :
    AgreeAt name r (r.record source vs) :=
  ⟨(Report.gains_recordAll hr.report source vs).others name hne.symm, rfl⟩

theorem define (hr : r.Intact) {d : Definition} (hne : d.name ≠ name)
    (hd : r.define d = .ok r') : AgreeAt name r r' := by
  refine ⟨by rw [report_define hd], ?_⟩
  rw [get?_define hr.sound hd, if_neg hne]

theorem runDefine (hr : r.Intact) {d : Definition} (hne : d.name ≠ name)
    (events : List Event) : AgreeAt name r (r.runDefine d events).registry := by
  cases hd : r.define d with
  | ok r' =>
    rw [runDefine_of_ok hd]
    exact define hr hne hd
  | error e =>
    rw [runDefine_of_error hd]
    exact refl name r

theorem runEach {α : Type} {step : α → Registry → Run} {xs : List α} (hr : r.Intact)
    (h : ∀ x ∈ xs, ∀ r : Registry, r.Intact →
      (step x r).registry.Intact ∧ AgreeAt name r (step x r).registry) :
    AgreeAt name r (runEach step xs r).registry := by
  have hkept : ∀ x ∈ xs, ∀ r', r'.Intact ∧ AgreeAt name r r' →
      (step x r').registry.Intact ∧ AgreeAt name r (step x r').registry := by
    intro x hx r' ⟨hr', ha⟩
    obtain ⟨hi, hs⟩ := h x hx r' hr'
    exact ⟨hi, ha.trans hs⟩
  exact (kept_runEach hkept ⟨hr, refl name r⟩).2

theorem reported (hr : r.Intact) (view : Viewpoint) (conditions : List Condition)
    {subject : Subject} (hne : subject.declaration.name ≠ name) :
    AgreeAt name r (r.reported view conditions subject) :=
  record hr hne _

theorem runComponent (hr : r.Intact) {view : Viewpoint} {source : String} {k : Registration}
    (hne : k.declaration.name ≠ name) :
    AgreeAt name r (r.runComponent view source k).registry := by
  have hreported : AgreeAt name r (r.reported view k.conditions (.component k.declaration)) :=
    reported hr view k.conditions hne
  have hintact := kept_intact.reported hr view k.conditions (.component k.declaration)
  rw [runComponent_eq]
  split
  · exact hreported.trans (runDefine hintact (d := k.definition source) hne _)
  · exact hreported

theorem runComponents (hr : r.Intact) {view : Viewpoint} {source : String}
    {cs : List Registration} (hn : name ∉ cs.map (·.declaration.name)) :
    AgreeAt name r (Registry.runEach (Registry.runComponent view source) cs r).registry := by
  refine runEach hr fun k hk r hr => ⟨kept_intact.runComponent view source k hr, ?_⟩
  refine runComponent hr fun hname => hn ?_
  exact hname ▸ List.mem_map_of_mem hk

theorem runConfiguration (hr : r.Intact) {view : Viewpoint} {c : Configuration}
    (hn : name ∉ c.names) : AgreeAt name r (r.runConfiguration view c).registry := by
  rw [Configuration.names, List.mem_cons, not_or] at hn
  have hne : c.declaration.name ≠ name := fun h => hn.1 h.symm
  have hreported : AgreeAt name r
      (r.reported view c.conditions (.configuration c.declaration)) :=
    reported hr view c.conditions hne
  have hintact := kept_intact.reported hr view c.conditions (.configuration c.declaration)
  rw [runConfiguration_eq, runComponents_eq_runEach]
  split
  · have hopened := hreported.trans (runDefine hintact (d := c.definition) hne
      (judge c.conditions (view r.hierarchy) (.configuration c.declaration)).events)
    have hkept := kept_intact.runDefine hintact c.definition
      (judge c.conditions (view r.hierarchy) (.configuration c.declaration)).events
    refine (Kept.andThen (P := fun r' => r'.Intact ∧ AgreeAt name r r') ⟨hkept, hopened⟩ ?_).2
    intro r' ⟨hr', ha⟩
    refine ⟨?_, ha.trans (runComponents hr' hn.2)⟩
    exact kept_runEach (fun k _ r hr => kept_intact.runComponent view _ k hr) hr'
  · exact hreported

theorem runConfigurations (hr : r.Intact) {view : Viewpoint} {cs : List Configuration}
    (hn : name ∉ cs.flatMap (·.names)) :
    AgreeAt name r (r.runConfigurations view cs).registry := by
  rw [runConfigurations_eq_runEach]
  refine runEach hr fun c hc r hr => ⟨kept_intact.runConfiguration view c hr, ?_⟩
  refine runConfiguration hr fun hname => hn ?_
  exact List.mem_flatMap.2 ⟨c, hc, hname⟩

end AgreeAt

/-! ## What is told of a declaration -/

/-- Nothing is told of a name. -/
structure Blank (name : String) (r : Registry) : Prop where
  verdicts : r.report.verdictsFor? name = none
  definition : r.catalog.get? name = none

theorem blank_create (name : String) (overriding : Bool) (parent? : Option Hierarchy) :
    Blank name (create overriding parent?) := by
  constructor <;> simp [create, Report.verdictsFor?]

theorem Blank.of_agreeAt {name : String} {r r' : Registry} (h : Blank name r)
    (ha : AgreeAt name r r') : Blank name r' :=
  ⟨ha.verdicts.trans h.verdicts, ha.definition.trans h.definition⟩

/-- Nothing is told of a component before its turn. -/
theorem blank_component {view : Viewpoint} {r : Registry} (hr : r.Intact) {c : Configuration}
    (hb : ∀ name ∈ c.names, Blank name r) (hn : c.names.Nodup)
    {front back : List Registration} {k : Registration} (hs : c.components = front ++ k :: back) :
    Blank k.declaration.name
      (r.runConfiguration view { c with components := front }).registry := by
  rw [Configuration.names, hs, List.map_append, List.map_cons, List.nodup_cons,
    List.nodup_append] at hn
  obtain ⟨hc, _, _, hfront⟩ := hn
  refine (hb _ (by simp [Configuration.names, hs])).of_agreeAt (AgreeAt.runConfiguration hr ?_)
  rw [Configuration.names, List.mem_cons, not_or]
  refine ⟨fun h => hc (by simp [h]), fun h => ?_⟩
  exact hfront _ h _ List.mem_cons_self rfl

/-- What is told of a declaration whose conditions were judged against `prior`: the verdicts on it,
and its definition if all conditions matched. -/
structure Tells (view : Viewpoint) (prior : Registry) (conditions : List Condition)
    (subject : Subject) (d : Definition) (r : Registry) : Prop where
  verdicts : r.report.verdictsFor? d.name =
    recordedVerdicts? conditions (view prior.hierarchy) subject
  definition : r.catalog.get? d.name =
    if prior.admits view conditions subject then some d else none

namespace Tells

variable {view : Viewpoint} {prior r r' : Registry} {conditions : List Condition}
  {subject : Subject} {d : Definition}

theorem of_agreeAt (h : Tells view prior conditions subject d r) (ha : AgreeAt d.name r r') :
    Tells view prior conditions subject d r' :=
  ⟨ha.verdicts.trans h.verdicts, ha.definition.trans h.definition⟩

theorem verdictsFor?_reported (hr : r.Intact) (hb : Blank subject.declaration.name r) :
    (r.reported view conditions subject).report.verdictsFor? subject.declaration.name =
      recordedVerdicts? conditions (view r.hierarchy) subject := by
  show (r.report.recordAll _ (judge conditions (view r.hierarchy) subject).value).verdictsFor? _ = _
  by_cases hnil : conditions = []
  · subst hnil
    exact hb.verdicts
  · rw [(Report.gains_recordAll hr.report _ _).own (judge_ne_nil hnil _ _), hb.verdicts,
      recordedVerdicts?, if_neg hnil, judge_eq]
    rfl

theorem of_define (hr : r.Intact) (hb : Blank subject.declaration.name r)
    (hname : d.name = subject.declaration.name) (ha : r.admits view conditions subject = true)
    (hd : (r.reported view conditions subject).define d = .ok r') :
    Tells view r conditions subject d r' := by
  constructor
  · rw [report_define hd, hname]
    exact verdictsFor?_reported hr hb
  · have hsound : (r.reported view conditions subject).catalog.Sound := hr.sound
    rw [get?_define hsound hd, if_pos rfl, ha, if_pos rfl]

theorem of_skipped (hr : r.Intact) (hb : Blank subject.declaration.name r)
    (hname : d.name = subject.declaration.name) (ha : r.admits view conditions subject = false) :
    Tells view r conditions subject d (r.reported view conditions subject) := by
  constructor
  · rw [hname]
    exact verdictsFor?_reported hr hb
  · rw [hname, ha]
    exact hb.definition

theorem runComponent (hr : r.Intact) {source : String} {k : Registration}
    (hb : Blank k.declaration.name r) (hok : (r.runComponent view source k).error? = none) :
    Tells view r k.conditions (.component k.declaration) (k.definition source)
      (r.runComponent view source k).registry := by
  rcases runComponent_cases hok with ⟨ha, hd⟩ | ⟨ha, hskipped⟩
  · exact of_define hr hb rfl ha hd
  · rw [hskipped]
    exact of_skipped hr hb rfl ha

theorem mem_definitions_iff (h : Tells view prior conditions subject d r) (hr : r.Intact) :
    d ∈ r.definitions ↔ prior.admits view conditions subject = true := by
  rw [hr.mem_definitions_iff, h.definition]
  cases prior.admits view conditions subject <;> simp

theorem hasName_iff (h : Tells view prior conditions subject d r) (hr : r.Intact) :
    r.HasName d.name ↔ d ∈ r.definitions := by
  rw [h.mem_definitions_iff hr]
  constructor
  · intro ⟨e, he, hname⟩
    have hget := hr.sound.get?_eq_some_iff.2 ⟨he, hname⟩
    rw [h.definition] at hget
    split at hget
    · assumption
    · cases hget
  · intro ha
    exact ⟨d, (h.mem_definitions_iff hr).2 ha, rfl⟩

theorem allMatchedFor_eq (h : Tells view prior conditions subject d r) :
    r.report.allMatchedFor d.name = prior.admits view conditions subject := by
  rw [Report.allMatchedFor, h.verdicts, all_recordedVerdicts?]
  rfl

/-- What is told of a configuration itself. -/
theorem runConfiguration (hr : r.Intact) {c : Configuration}
    (hb : Blank c.declaration.name r) (hn : c.names.Nodup)
    (hok : (r.runConfiguration view c).error? = none) :
    Tells view r c.conditions (.configuration c.declaration) c.definition
      (r.runConfiguration view c).registry := by
  rcases runConfiguration_cases hok with ⟨ha, opened, hd, _, hend⟩ | ⟨ha, hskipped⟩
  · have hopened : Tells view r c.conditions (.configuration c.declaration) c.definition opened :=
      of_define hr hb rfl ha hd
    have hintact := kept_intact.define (kept_intact.reported hr _ _ _) hd
    rw [hend, runComponents_eq_runEach]
    exact hopened.of_agreeAt (AgreeAt.runComponents hintact (List.nodup_cons.1 hn).1)
  · rw [hskipped]
    exact of_skipped hr hb rfl ha

/-- What is told of a component of a configuration that is registered. It is judged against what is
there without it and the components after it. -/
theorem component_of_admits (hr : r.Intact) {c : Configuration}
    (hb : ∀ name ∈ c.names, Blank name r) (hn : c.names.Nodup)
    (hok : (r.runConfiguration view c).error? = none)
    (ha : r.admits view c.conditions (.configuration c.declaration) = true)
    {front back : List Registration} {k : Registration} (hs : c.components = front ++ k :: back) :
    Tells view (r.runConfiguration view { c with components := front }).registry k.conditions
      (.component k.declaration) (k.definition c.declaration.name)
      (r.runConfiguration view c).registry := by
  have hall : r.runConfiguration view c = _ := hs ▸ runConfiguration_append ha front (k :: back)
  rw [hall] at hok ⊢
  obtain ⟨hprior, hrest⟩ := Run.error?_andThen_eq_none_iff.1 hok
  rw [runEach] at hrest
  obtain ⟨hk, _⟩ := Run.error?_andThen_eq_none_iff.1 hrest
  rw [Run.registry_andThen_of_none hprior, runEach, Run.registry_andThen_of_none hk]
  have hintact := kept_intact.runConfiguration view { c with components := front } hr
  have hblank : Blank k.declaration.name
      (r.runConfiguration view { c with components := front }).registry :=
    blank_component hr hb hn hs
  rw [Configuration.names, hs, List.map_append, List.map_cons, List.nodup_cons,
    List.nodup_append] at hn
  obtain ⟨_, _, hback, _⟩ := hn
  have htells := runComponent hintact hblank hk
  refine htells.of_agreeAt (AgreeAt.runComponents ?_ (List.nodup_cons.1 hback).1)
  exact kept_intact.runComponent view _ k hintact

end Tells

/-- Nothing is told of the components of a configuration that is skipped. -/
theorem blank_component_of_not_admits {view : Viewpoint} {r : Registry} (hr : r.Intact)
    {c : Configuration} (hb : ∀ name ∈ c.names, Blank name r) (hn : c.names.Nodup)
    (ha : r.admits view c.conditions (.configuration c.declaration) = false) {k : Registration}
    (hk : k ∈ c.components) : Blank k.declaration.name (r.runConfiguration view c).registry := by
  have hmem : k.declaration.name ∈ c.components.map (·.declaration.name) :=
    List.mem_map_of_mem hk
  have hne : c.declaration.name ≠ k.declaration.name := by
    intro h
    exact (List.nodup_cons.1 hn).1 (h ▸ hmem)
  rw [runConfiguration_eq, ha]
  exact (hb _ (List.mem_cons_of_mem _ hmem)).of_agreeAt (AgreeAt.record hr hne _)

theorem Blank.not_hasName {name : String} {r : Registry} (h : Blank name r) (hr : r.Intact) :
    ¬ r.HasName name := by
  intro ⟨d, hd, hname⟩
  have hget := hr.sound.get?_eq_some_iff.2 ⟨hd, hname⟩
  rw [h.definition] at hget
  cases hget

end Registry

/-! ## Plans -/

namespace Plan

variable {p : Plan}

theorem nodup_names_ordered (h : (p.configurations.flatMap (·.names)).Nodup) :
    (p.ordered.flatMap (·.names)).Nodup :=
  (p.perm_ordered.flatMap_right _).nodup_iff.2 h

theorem intact_runThrough (p : Plan) (configurations : List Configuration) :
    (p.runThrough configurations).registry.Intact :=
  Registry.kept_intact.runConfigurations p.view configurations
    (Registry.intact_create p.overriding p.parent?)

/-- Nothing is told of a configuration and its components before its turn. -/
theorem blank_runThrough {before after : List Configuration} {c : Configuration}
    (hs : p.ordered = before ++ c :: after) (hnames : (p.ordered.flatMap (·.names)).Nodup) :
    ∀ name ∈ c.names, Registry.Blank name (p.runThrough before).registry := by
  intro name hname
  rw [hs, List.flatMap_append, List.flatMap_cons, List.nodup_append] at hnames
  obtain ⟨_, _, hdisjoint⟩ := hnames
  refine (Registry.blank_create name _ _).of_agreeAt
    (Registry.AgreeAt.runConfigurations (Registry.intact_create _ _) fun hmem => ?_)
  exact hdisjoint name hmem name (List.mem_append_left _ hname) rfl

/-- What a configuration is run on, and what later ones leave of it. -/
theorem run_split {before after : List Configuration} {c : Configuration}
    (hs : p.ordered = before ++ c :: after) (hok : p.run.error? = none)
    (hnames : (p.ordered.flatMap (·.names)).Nodup) :
    (p.runThrough before).registry.Intact ∧
      (∀ name ∈ c.names, Registry.Blank name (p.runThrough before).registry) ∧ c.names.Nodup ∧
      ((p.runThrough before).registry.runConfiguration p.view c).error? = none ∧
      ∀ name ∈ c.names, Registry.AgreeAt name
        ((p.runThrough before).registry.runConfiguration p.view c).registry p.run.registry := by
  have hintact := p.intact_runThrough before
  have hblank := blank_runThrough hs hnames
  have hrun : p.run = (p.runThrough before).andThen
      (Registry.runEach (Registry.runConfiguration p.view) (c :: after)) := by
    rw [run, hs, runThrough, Registry.runConfigurations_eq_runEach, Registry.runEach_append]
  rw [hrun] at hok ⊢
  obtain ⟨hbefore, hrest⟩ := Run.error?_andThen_eq_none_iff.1 hok
  rw [Registry.runEach] at hrest
  obtain ⟨hc, _⟩ := Run.error?_andThen_eq_none_iff.1 hrest
  rw [hs, List.flatMap_append, List.flatMap_cons, List.nodup_append] at hnames
  obtain ⟨hcnames, _, hafter⟩ := List.nodup_append.1 hnames.2.1
  refine ⟨hintact, hblank, hcnames, hc, fun name hname => ?_⟩
  rw [Run.registry_andThen_of_none hbefore, Registry.runEach, Run.registry_andThen_of_none hc,
    ← Registry.runConfigurations_eq_runEach]
  refine Registry.AgreeAt.runConfigurations (Registry.kept_intact.runConfiguration _ _ hintact)
    fun hmem => ?_
  exact hafter name hname name hmem rfl

end Plan

/-- The report of `r` on a subject whose conditions were judged once, against `prior`: they stand
in order, and only the last one that was judged may have failed. -/
structure Registry.Reports (r : Registry) (view : Viewpoint) (prior : Registry)
    (conditions : List Condition) (subject : Subject) : Prop where
  entry : r.report.verdictsFor? subject.declaration.name =
    recordedVerdicts? conditions (view prior.hierarchy) subject
  matched : ∀ vs, r.report.verdictsFor? subject.declaration.name = some vs →
    ∀ v ∈ vs.dropLast, v.matched = true

theorem Registry.Tells.reports {view : Viewpoint} {prior r : Registry}
    {conditions : List Condition} {subject : Subject} {d : Definition}
    (h : Tells view prior conditions subject d r) (hname : d.name = subject.declaration.name) :
    r.Reports view prior conditions subject := by
  have hentry := h.verdicts
  rw [hname] at hentry
  refine ⟨hentry, fun vs hvs => ?_⟩
  rw [hentry] at hvs
  exact matched_of_recordedVerdicts? hvs

/-- Where all names of a plan differ, the report and the definitions of what it builds agree: a
declaration is registered if and only if everything that is reported on it matched and, for a
component, its configuration is registered. The report holds the verdicts on every declaration but
the components of configurations that were skipped. -/
theorem report_agrees_with_definitions {p : Plan} {r : Registry}
    (hnames : (p.configurations.flatMap (·.names)).Nodup) (h : p.build.value = .ok r) :
    ∀ c ∈ p.configurations, ∃ before after, p.ordered = before ++ c :: after ∧
      r.Reports p.view (p.runThrough before).registry c.conditions
        (.configuration c.declaration) ∧
      (c.definition ∈ r.definitions ↔ r.report.allMatchedFor c.declaration.name = true) ∧
      (r.HasName c.declaration.name ↔ c.definition ∈ r.definitions) ∧
      ∀ front k back, c.components = front ++ k :: back →
        (c.definition ∈ r.definitions → r.Reports p.view
          ((p.runThrough before).registry.runConfiguration p.view
            { c with components := front }).registry k.conditions (.component k.declaration)) ∧
        (c.definition ∉ r.definitions → r.report.verdictsFor? k.declaration.name = none) ∧
        (k.definition c.declaration.name ∈ r.definitions ↔ c.definition ∈ r.definitions ∧
          r.report.allMatchedFor k.declaration.name = true) ∧
        (r.HasName k.declaration.name ↔ k.definition c.declaration.name ∈ r.definitions) := by
  intro c hc
  obtain ⟨hok, rfl⟩ := Run.result_eq_ok_iff.1 h
  obtain ⟨before, after, hs⟩ := List.append_of_mem (p.perm_ordered.mem_iff.2 hc)
  obtain ⟨hprior, hblank, hown, hrun, hlater⟩ :=
    p.run_split hs hok (p.nodup_names_ordered hnames)
  have hintact : p.run.registry.Intact :=
    Registry.kept_intact.runConfigurations p.view p.ordered (Registry.intact_create _ _)
  have htells := (Registry.Tells.runConfiguration hprior
    (hblank _ List.mem_cons_self) hown hrun).of_agreeAt (hlater _ List.mem_cons_self)
  have hadmits := htells.mem_definitions_iff hintact
  refine ⟨before, after, hs, htells.reports rfl, ?_, htells.hasName_iff hintact, ?_⟩
  · rw [hadmits]
    exact (Bool.eq_iff_iff.1 htells.allMatchedFor_eq).symm
  · intro front k back hsplit
    have hk : k ∈ c.components := by simp [hsplit]
    have hkname : k.declaration.name ∈ c.names :=
      List.mem_cons_of_mem _ (List.mem_map_of_mem hk)
    cases ha : (p.runThrough before).registry.admits p.view c.conditions
        (.configuration c.declaration) with
    | true =>
      have hcdef := hadmits.2 ha
      have hktells := (Registry.Tells.component_of_admits hprior hblank hown hrun ha
        hsplit).of_agreeAt (hlater _ hkname)
      refine ⟨fun _ => hktells.reports rfl, fun hno => absurd hcdef hno, ?_,
        hktells.hasName_iff hintact⟩
      rw [hktells.mem_definitions_iff hintact, ← hktells.allMatchedFor_eq]
      exact ⟨fun hm => ⟨hcdef, hm⟩, And.right⟩
    | false =>
      have hno : c.definition ∉ p.run.registry.definitions := by
        rw [hadmits, ha]
        exact Bool.false_ne_true
      have hkblank := (Registry.blank_component_of_not_admits hprior hblank hown ha
        hk).of_agreeAt (hlater _ hkname)
      have hkname := hkblank.not_hasName hintact
      have hkdef : k.definition c.declaration.name ∉ p.run.registry.definitions := by
        intro hd
        exact hkname ⟨_, hd, rfl⟩
      refine ⟨fun hyes => absurd hyes hno, fun _ => hkblank.verdicts, ?_, ?_⟩
      · exact ⟨fun hd => absurd hd hkdef, fun hd => absurd hd.1 hno⟩
      · exact ⟨fun hd => absurd hd hkname, fun hd => absurd hd hkdef⟩

/-- A guard that fails keeps a component out and ends its entry; a skipped configuration leaves no
trace of its components. -/
theorem report_agrees_with_definitions_guarded :
    let always : Condition := .fixed ⟨true, "yes"⟩
    let never : Condition := .fixed ⟨false, "no"⟩
    let kept : Configuration :=
      { declaration := { name := "kept" }
        components := [{ declaration := { name := "a" }, conditions := [always, never, always] },
          { declaration := { name := "b" }, conditions := [always] }] }
    let skipped : Configuration :=
      { declaration := { name := "skipped" }
        conditions := [never]
        components := [{ declaration := { name := "z" }, conditions := [always] }] }
    let p : Plan := { configurations := [skipped, kept] }
    (p.configurations.flatMap (·.names)).Nodup ∧ ∃ r, p.build.value = .ok r ∧
      r.definitions.map (·.name) = ["kept", "b"] ∧
      r.report.groups.map (fun g => (g.source, g.verdicts.map (·.matched))) =
        [("skipped", [false]), ("a", [true, false]), ("b", [true])] ∧
      (skipped.definition ∈ r.definitions ↔ r.report.allMatchedFor "skipped" = true) := by
  intro always never kept skipped p
  have hnames : (p.configurations.flatMap (·.names)).Nodup := by decide +kernel
  have hordered : p.ordered = [skipped, kept] := by
    simp [p, Plan.ordered, List.mergeSort, kept, skipped]
  have hrun : p.run = (Registry.create false none).runConfigurations .own [skipped, kept] := by
    rw [Plan.run, hordered]
  have hok : p.build.value = .ok p.run.registry := by
    refine Run.result_eq_ok_iff.2 ⟨?_, rfl⟩
    rw [hrun]
    decide +kernel
  refine ⟨hnames, p.run.registry, hok, ?_, ?_, ?_⟩
  · rw [hrun]
    decide +kernel
  · rw [hrun]
    decide +kernel
  · obtain ⟨before, after, hs, _, hiff, _⟩ :=
      report_agrees_with_definitions hnames hok skipped (by simp [p])
    exact hiff

end Componentry
