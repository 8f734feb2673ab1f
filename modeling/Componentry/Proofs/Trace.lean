import Componentry.Proofs.Extent

/-!
# Componentry.Proofs.Trace

What the log of a run tells of it. Judging conditions logs nothing but warnings, so the rest of a
log is an account of the decisions: one event for each component that the run reached, or one event
for a configuration that was skipped (`Configuration.account`). Which items a run reached is said by
shorter runs: those before which nothing failed (`reached`). An event of a registration is logged
ahead of it, so a run that fails at a component ends with the event of that component
(`Registry.FailsAt`), and in a run that succeeds these events name the definitions that came with a
configuration (`Run.Mirrors`). `events_mirror_assembly` says all of this of runs of one
configuration and of builds.
-/

namespace Componentry

/-! ## Events of judging -/

/-- The events that are no warnings. -/
def withoutWarnings (events : List Event) : List Event := events.filter (·.severity != .warn)

theorem severity_depthEvents {h : Hierarchy} {reach : Reach} {e : Event}
    (he : e ∈ h.depthEvents reach) : e.severity = .warn := by
  unfold Hierarchy.depthEvents at he
  split at he
  · rw [List.mem_singleton.1 he]
    rfl
  · cases he

theorem severity_evaluate {subject : Subject} {c : Criteria} {h : Hierarchy} {e : Event}
    (he : e ∈ (evaluate subject c h).events) : e.severity = .warn := by
  unfold evaluate at he
  split at he
  · cases he
  · exact severity_depthEvents he

theorem severity_verdict {c : Condition} {h : Hierarchy} {subject : Subject} {e : Event}
    (he : e ∈ (c.verdict h subject).events) : e.severity = .warn := by
  cases c with
  | ifPresent criteria | ifMissing criteria =>
    simp only [Condition.verdict, Condition.check, Logged.events_bind, Logged.events_pure,
      List.append_nil] at he
    exact severity_evaluate he
  | custom name check => cases he

theorem severity_judge {conditions : List Condition} {h : Hierarchy} {subject : Subject}
    {e : Event} (he : e ∈ (judge conditions h subject).events) : e.severity = .warn := by
  induction conditions with
  | nil => cases he
  | cons c cs ih =>
    rw [judge, Logged.events_bind, List.mem_append] at he
    rcases he with he | he
    · exact severity_verdict he
    · split at he
      · simp only [Logged.events_bind, Logged.events_pure, List.append_nil] at he
        exact ih he
      · cases he

@[simp] theorem withoutWarnings_judge (conditions : List Condition) (h : Hierarchy)
    (subject : Subject) : withoutWarnings (judge conditions h subject).events = [] := by
  refine List.filter_eq_nil_iff.2 fun e he => ?_
  simp [severity_judge he]

@[simp] theorem withoutWarnings_append (events events' : List Event) :
    withoutWarnings (events ++ events') = withoutWarnings events ++ withoutWarnings events' :=
  List.filter_append _ _

/-! ## The account of a run -/

/-- The event that tells whether a component was let in. -/
def Registration.announcement (view : Viewpoint) (source : String) (k : Registration)
    (seen : Registry) : Event :=
  if seen.admits view k.conditions (.component k.declaration) then
    .registeringComponent k.declaration.name source
  else .skippingComponent k.declaration.name source

/-- What is to be told of a run of a configuration: that it was skipped, or else what became of each
component that was reached. -/
def Configuration.account (view : Viewpoint) (c : Configuration) (r : Registry) : List Event :=
  if r.admits view c.conditions (.configuration c.declaration) then
    (c.reachedComponents view r).map fun (k, seen) =>
      k.announcement view c.declaration.name seen
  else [.skippingConfiguration c.declaration.name]

namespace Registry

variable {view : Viewpoint} {r : Registry} {c : Configuration}

theorem events_runDefine (r : Registry) (d : Definition) (events : List Event) :
    (r.runDefine d events).events = events := by
  unfold runDefine
  split <;> rfl

theorem events_runComponent (view : Viewpoint) (source : String) (k : Registration)
    (r : Registry) : (r.runComponent view source k).events =
      (judge k.conditions (view r.hierarchy) (.component k.declaration)).events ++
        [k.announcement view source r] := by
  rw [runComponent_eq, Registration.announcement]
  split
  · rw [events_runDefine]
  · rfl

theorem withoutWarnings_runComponent (view : Viewpoint) (source : String) (k : Registration)
    (r : Registry) :
    withoutWarnings (r.runComponent view source k).events = [k.announcement view source r] := by
  rw [events_runComponent, withoutWarnings_append, withoutWarnings_judge, Registration.announcement]
  split <;> rfl

/-- A configuration without components logs what judging it logs. -/
theorem events_runThrough_nil
    (ha : r.admits view c.conditions (.configuration c.declaration) = true) :
    (c.runThrough view r []).events =
      (judge c.conditions (view r.hierarchy) (.configuration c.declaration)).events := by
  rw [Configuration.runThrough, runConfiguration_eq, if_pos ha]
  exact (congrArg Run.events (Run.andThen_nothing _)).trans (events_runDefine _ _ _)

theorem withoutWarnings_runConfiguration (view : Viewpoint) (c : Configuration) (r : Registry) :
    withoutWarnings (r.runConfiguration view c).events = c.account view r := by
  cases ha : r.admits view c.conditions (.configuration c.declaration) with
  | true =>
    have hevents : (r.runConfiguration view c).events = _ :=
      (runsInTurn_components ha).events_eq c.components
    rw [hevents, events_runThrough_nil ha, withoutWarnings_append, withoutWarnings_judge,
      List.nil_append, withoutWarnings, List.filter_flatMap, Configuration.account, if_pos ha,
      List.map_eq_flatMap]
    exact List.flatMap_congr fun (k, seen) _ => withoutWarnings_runComponent view _ k seen
  | false =>
    rw [runConfiguration_eq, Configuration.account, ha, if_neg Bool.false_ne_true,
      if_neg Bool.false_ne_true, withoutWarnings_append, withoutWarnings_judge]
    rfl

end Registry

namespace Plan

theorem withoutWarnings_build (p : Plan) :
    withoutWarnings p.build.events =
      p.reachedConfigurations.flatMap fun (c, seen) => c.account p.view seen := by
  have hevents : p.build.events = _ := p.runsInTurn_configurations.events_eq p.ordered
  have hnil : (p.runThrough []).events = [] := rfl
  rw [hevents, hnil, List.nil_append, withoutWarnings, List.filter_flatMap]
  exact List.flatMap_congr fun (c, seen) _ => Registry.withoutWarnings_runConfiguration _ c seen

end Plan

/-! ## Runs that succeed -/

/-- The fields of the events of registrations. -/
def registrationFields (events : List Event) : List (List (String × String)) :=
  (events.filter (·.message == "Registering component.")).map (·.fields)

/-- The definitions that came with a configuration, told as in the events of registrations. -/
def sourceFields (definitions : List Definition) : List (List (String × String)) :=
  definitions.filterMap fun d => d.source?.map fun source =>
    [("component", d.name), ("configuration", source)]

@[simp] theorem registrationFields_append (events events' : List Event) :
    registrationFields (events ++ events') =
      registrationFields events ++ registrationFields events' := by
  simp [registrationFields]

@[simp] theorem sourceFields_append (definitions definitions' : List Definition) :
    sourceFields (definitions ++ definitions') =
      sourceFields definitions ++ sourceFields definitions' :=
  List.filterMap_append

/-- The two messages part after a few characters, whatever a warning goes on to say. -/
theorem depthMessage_ne (number rest : String) :
    "Registry hierarchy deeper than " ++ number ++ rest ≠ "Registering component." := by
  intro h
  have hlists := congrArg String.toList h
  simp at hlists

theorem message_ne_of_warn {e : Event} (h : e.severity = .warn) :
    e.message ≠ "Registering component." := by
  cases e with
  | hierarchyTooDeep searched => exact depthMessage_ne _ _
  | _ => cases h

@[simp] theorem registrationFields_judge (conditions : List Condition) (h : Hierarchy)
    (subject : Subject) : registrationFields (judge conditions h subject).events = [] := by
  rw [registrationFields, List.map_eq_nil_iff, List.filter_eq_nil_iff]
  intro e he
  simpa using message_ne_of_warn (severity_judge he)

/-- The events of a run tell of the definitions that it adds to those of the registry it started
from. -/
structure Run.Mirrors (run : Run) (start : Registry) : Prop where
  overriding : run.registry.overriding = start.overriding
  fields : start.overriding = false → run.error? = none →
    sourceFields run.registry.definitions =
      sourceFields start.definitions ++ registrationFields run.events

namespace Run.Mirrors

theorem andThen {run : Run} {start : Registry} {next : Registry → Run} (h : run.Mirrors start)
    (hnext : ∀ r, (next r).Mirrors r) : (run.andThen next).Mirrors start := by
  cases he : run.error? with
  | some e => rwa [Run.andThen_of_error he]
  | none =>
    rw [Run.andThen_of_none he]
    have hrest := hnext run.registry
    refine ⟨hrest.overriding.trans h.overriding, fun ho hnone => ?_⟩
    have hfirst := h.fields ho he
    have hsecond := hrest.fields (h.overriding.trans ho) hnone
    rw [hsecond, hfirst, registrationFields_append, List.append_assoc]

theorem runEach {α : Type} {step : α → Registry → Run} (h : ∀ x r, (step x r).Mirrors r)
    (xs : List α) (r : Registry) : (Registry.runEach step xs r).Mirrors r := by
  induction xs generalizing r with
  | nil => exact ⟨rfl, fun _ _ => (List.append_nil _).symm⟩
  | cons x xs ih => exact andThen (h x r) ih

/-- To record verdicts is no difference to the definitions. -/
theorem of_reported {run : Run} {start : Registry} (view : Viewpoint)
    (conditions : List Condition) (subject : Subject)
    (h : run.Mirrors (start.reported view conditions subject)) : run.Mirrors start :=
  ⟨h.overriding, h.fields⟩

theorem runDefine {r : Registry} {d : Definition} {events : List Event}
    (hfields : sourceFields [d] = registrationFields events) :
    (r.runDefine d events).Mirrors r := by
  cases hd : r.define d with
  | error e =>
    rw [Registry.runDefine_of_error hd]
    exact ⟨rfl, fun _ hnone => nomatch hnone⟩
  | ok r' =>
    rw [Registry.runDefine_of_ok hd]
    refine ⟨(Registry.kept_overriding _).define rfl hd, fun ho _ => ?_⟩
    rw [Registry.definitions_define ho hd, sourceFields_append, hfields]

theorem of_skipped {r : Registry} {events : List Event} (h : registrationFields events = []) :
    ({ registry := r, events } : Run).Mirrors r :=
  ⟨rfl, fun _ _ => by rw [h, List.append_nil]⟩

theorem runComponent (view : Viewpoint) (source : String) (k : Registration) (r : Registry) :
    (r.runComponent view source k).Mirrors r := by
  rw [Registry.runComponent_eq]
  refine of_reported view k.conditions (.component k.declaration) ?_
  split
  · refine runDefine ?_
    rw [registrationFields_append, registrationFields_judge]
    rfl
  · refine of_skipped ?_
    rw [registrationFields_append, registrationFields_judge]
    rfl

theorem runConfiguration (view : Viewpoint) (c : Configuration) (r : Registry) :
    (r.runConfiguration view c).Mirrors r := by
  rw [Registry.runConfiguration_eq]
  refine of_reported view c.conditions (.configuration c.declaration) ?_
  split
  · rw [Registry.runComponents_eq_runEach]
    refine andThen (runDefine ?_) (runEach (runComponent view c.declaration.name) c.components)
    rw [registrationFields_judge]
    rfl
  · refine of_skipped ?_
    rw [registrationFields_append, registrationFields_judge]
    rfl

theorem run (p : Plan) : p.run.Mirrors (.create p.overriding p.parent?) := by
  rw [Plan.run, Registry.runConfigurations_eq_runEach]
  exact runEach (runConfiguration p.view) p.ordered _

end Run.Mirrors

/-! ## Runs that fail -/

namespace Registry

variable {view : Viewpoint} {r : Registry} {c : Configuration} {e : RegistryError}

theorem getLast?_events_runComponent {source : String} {k : Registration}
    (h : (r.runComponent view source k).error? = some e) :
    (r.runComponent view source k).events.getLast? =
      some (.registeringComponent k.declaration.name source) := by
  rw [events_runComponent, List.getLast?_concat, Registration.announcement]
  rw [runComponent_eq] at h
  split at h
  · rename_i ha
    rw [if_pos ha]
  · cases h

/-- The event of the component that a run fails at is the last one. -/
theorem getLast?_events_of_failsAt {d : Declaration}
    (h : r.FailsAt view c e (.component d)) :
    (r.runConfiguration view c).events.getLast? =
      some (.registeringComponent d.name c.declaration.name) := by
  cases h with
  | @component before k after hs hbefore hk =>
    have hturns := runsInTurn_components (admits_of_error hk)
    have hrun : r.runConfiguration view c = _ :=
      (congrArg (c.runThrough view r) hs).trans (hturns.append_cons_of_error hk after)
    rw [hturns, Run.error?_andThen_of_none hbefore] at hk
    rw [hrun, Run.andThen_of_none hbefore, List.getLast?_append, getLast?_events_runComponent hk]
    rfl

/-- A run that fails at the configuration itself has nothing to tell. -/
theorem withoutWarnings_of_failsAt {d : Declaration}
    (h : r.FailsAt view c e (.configuration d)) :
    withoutWarnings (r.runConfiguration view c).events = [] := by
  cases h with
  | configuration hown =>
    have ha := admits_of_error hown
    have hrun : r.runConfiguration view c = c.runThrough view r [] :=
      (runsInTurn_components ha).append_of_error hown c.components
    rw [hrun, events_runThrough_nil ha, withoutWarnings_judge]

end Registry

namespace Plan

variable {p : Plan} {before : List Configuration} {c : Configuration} {e : RegistryError}
  {subject : Subject}

/-- A failing run logs nothing after the configuration that it fails at. -/
theorem FailsAt.events_eq (h : p.FailsAt before c e subject) :
    p.build.events = (p.runThrough before).events ++
      ((p.runThrough before).registry.runConfiguration p.view c).events := by
  obtain ⟨after, hs⟩ := h.ordered
  have hturns := p.runsInTurn_configurations
  have hc : (p.runThrough (before ++ [c])).error? = some e := by
    rw [hturns, Run.error?_andThen_of_none h.succeeded, Registry.error?_runConfiguration_iff]
    exact ⟨_, h.failed⟩
  have hrun : p.run = _ := (congrArg p.runThrough hs).trans (hturns.append_cons_of_error hc after)
  have hevents : p.build.events = p.run.events := rfl
  rw [hevents, hrun, Run.andThen_of_none h.succeeded]

end Plan

/-- The log of a run of a configuration, or of a build, is the account of what the run reached, once
warnings are left out; a run without an error reaches everything. Where nothing may be overridden,
what was registered by configurations in an empty registry stands in the log and in the registry in
the same order. A run that fails at a component ends with the event of its registration, and a
configuration that a run fails at has no events. -/
theorem events_mirror_assembly :
    (∀ (view : Viewpoint) (c : Configuration) (r : Registry),
      let run := r.runConfiguration view c
      withoutWarnings run.events = c.account view r ∧
      (run.error? = none → r.admits view c.conditions (.configuration c.declaration) = true →
        (c.reachedComponents view r).map Prod.fst = c.components) ∧
      (run.error? = none → r.overriding = false → r.definitions = [] →
        registrationFields run.events = sourceFields run.registry.definitions) ∧
      ∀ e, (run.error? = some e ↔ ∃ subject, r.FailsAt view c e subject) ∧
        (∀ d, r.FailsAt view c e (.component d) →
          run.events.getLast? = some (.registeringComponent d.name c.declaration.name)) ∧
        ∀ d, r.FailsAt view c e (.configuration d) → withoutWarnings run.events = []) ∧
    ∀ p : Plan,
      (withoutWarnings p.build.events =
        p.reachedConfigurations.flatMap fun (c, seen) => c.account p.view seen) ∧
      (∀ r, p.build.value = .ok r → p.reachedConfigurations.map Prod.fst = p.ordered ∧
        (p.overriding = false →
          registrationFields p.build.events = sourceFields r.definitions)) ∧
      ∀ e, (p.build.value = .error e ↔ ∃ before c subject, p.FailsAt before c e subject) ∧
        (∀ before c d, p.FailsAt before c e (.component d) →
          p.build.events.getLast? = some (.registeringComponent d.name c.declaration.name)) ∧
        ∀ before c d, p.FailsAt before c e (.configuration d) →
          withoutWarnings p.build.events = withoutWarnings (p.runThrough before).events := by
  refine ⟨fun view c r => ⟨Registry.withoutWarnings_runConfiguration view c r, ?_, ?_, ?_⟩,
    fun p => ⟨p.withoutWarnings_build, ?_, ?_⟩⟩
  · intro hnone ha
    exact (Registry.runsInTurn_components ha).map_fst_reached hnone
  · intro hnone ho hempty
    have hfields := (Run.Mirrors.runConfiguration view c r).fields ho hnone
    rw [hfields, hempty]
    rfl
  · intro e
    exact ⟨Registry.error?_runConfiguration_iff, fun d => Registry.getLast?_events_of_failsAt,
      fun d => Registry.withoutWarnings_of_failsAt⟩
  · intro r hr
    obtain ⟨hnone, rfl⟩ := Run.result_eq_ok_iff.1 hr
    refine ⟨p.runsInTurn_configurations.map_fst_reached hnone, fun ho => ?_⟩
    exact ((Run.Mirrors.run p).fields ho hnone).symm
  · intro e
    refine ⟨Plan.build_eq_error_iff_failsAt, fun before c d h => ?_, fun before c d h => ?_⟩
    · rw [h.events_eq, List.getLast?_append, Registry.getLast?_events_of_failsAt h.failed]
      rfl
    · rw [h.events_eq, withoutWarnings_append, Registry.withoutWarnings_of_failsAt h.failed,
        List.append_nil]

/-- With 65 ancestors a guard that asks all of them warns. The first configuration registers `a` and
leaves `b` out; then one plan fails at a second `a`, and the other at a configuration of that
name. -/
theorem events_mirror_assembly_deep :
    let deep : Hierarchy :=
      ⟨({} : Tables).level, List.replicate 64 ({} : Tables).level⟩
    let c : Configuration :=
      { declaration := { name := "c" }
        components := [{ declaration := { name := "a" }
                         conditions := [.ifMissing { names := ["a"], reach := .all }] },
          { declaration := { name := "b" }, conditions := [.fixed ⟨false, "no"⟩] }] }
    let d : Configuration :=
      { declaration := { name := "d" }
        components := [{ declaration := { name := "a" } }, { declaration := { name := "z" } }] }
    let a : Configuration := { declaration := { name := "a" } }
    let start := Registry.create false (some deep)
    let run := start.runConfiguration .own c
    let p : Plan := { configurations := [c, d], parent? := some deep }
    let q : Plan := { configurations := [c, a], parent? := some deep }
    run.events.length = 3 ∧ run.error? = none ∧
      c.account .own start = [.registeringComponent "a" "c", .skippingComponent "b" "c"] ∧
      registrationFields run.events = [[("component", "a"), ("configuration", "c")]] ∧
      sourceFields run.registry.definitions = [[("component", "a"), ("configuration", "c")]] ∧
      p.FailsAt [c] d (.duplicateName "a") (.component { name := "a" }) ∧
      p.build.events.getLast? = some (.registeringComponent "a" "d") ∧
      q.FailsAt [c] a (.duplicateName "a") (.configuration { name := "a" }) ∧
      withoutWarnings q.build.events =
        [.registeringComponent "a" "c", .skippingComponent "b" "c"] := by
  intro deep c d a start run p q
  have hp : p.FailsAt [c] d (.duplicateName "a") (.component { name := "a" }) :=
    { ordered := ⟨[], by simp [p, Plan.ordered, List.mergeSort, c, d]⟩
      succeeded := by decide +kernel
      failed := .component (k := { declaration := { name := "a" } }) (List.nil_append _).symm
        (by decide +kernel) (by decide +kernel) }
  have hq : q.FailsAt [c] a (.duplicateName "a") (.configuration { name := "a" }) :=
    { ordered := ⟨[], by simp [q, Plan.ordered, List.mergeSort, c, a]⟩
      succeeded := by decide +kernel
      failed := .configuration (by decide +kernel) }
  have hfront : withoutWarnings (q.runThrough [c]).events =
      [.registeringComponent "a" "c", .skippingComponent "b" "c"] := by decide +kernel
  have hnone : run.error? = none := by decide +kernel
  have hfields : registrationFields run.events =
      [[("component", "a"), ("configuration", "c")]] := by decide +kernel
  obtain ⟨htold, _, hmirror, _⟩ := events_mirror_assembly.1 .own c start
  refine ⟨by decide +kernel, hnone, ?_, hfields, (hmirror hnone rfl rfl).symm.trans hfields, hp,
    ((events_mirror_assembly.2 p).2.2 _).2.1 _ _ _ hp, hq,
    (((events_mirror_assembly.2 q).2.2 _).2.2 _ _ _ hq).trans hfront⟩
  rw [← htold]
  decide +kernel

end Componentry
