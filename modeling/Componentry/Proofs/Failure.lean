import Componentry.Proofs.Lineage
import Componentry.Proofs.Order
import Componentry.Proofs.Sequence
import Componentry.Proofs.Verdicts

/-!
# Componentry.Proofs.Failure

What a registration that fails leaves behind. `Registry.Refuses` says why a name is refused, and
`Run.StopsAt` what a run amounts to that stops at one declaration: all that came before it, and the
verdicts on it, which all match and come after those that its name had (`Report.Gains`).
`failed_runs_keep_what_came_before`: every failing run of a configuration stops in this way, at the
configuration itself or at one of its components, whatever components come after.
-/

namespace Componentry

namespace Registry

/-- Why a registry refuses a name. A name that is not valid is never told to be taken. -/
inductive Refuses (r : Registry) (name : String) : RegistryError → Prop where
  | invalid : name = "" ∨ isFactoryName name = true → Refuses r name (.invalidName name)
  | duplicate : name ≠ "" → isFactoryName name = false → r.overriding = false →
      r.HasName name → Refuses r name (.duplicateName name)

theorem refuses_of_define {r : Registry} (s : r.catalog.Sound) {d : Definition}
    {e : RegistryError} (h : r.define d = .error e) : r.Refuses d.name e := by
  have hreg : r.catalog.register r.overriding d = .error e := by
    cases hc : r.catalog.register r.overriding d with
    | ok catalog => simp [define, hc, bind, Except.bind, pure, Except.pure] at h
    | error e' => simpa [define, hc, bind, Except.bind] using h
  unfold Catalog.register at hreg
  split at hreg
  · rename_i hvalid
    cases hreg
    refine .invalid ?_
    simp only [isValidName, Bool.not_eq_true', Bool.and_eq_false_iff, bne_eq_false_iff_eq,
      Bool.not_eq_false'] at hvalid
    exact hvalid
  · rename_i hvalid
    split at hreg
    · rename_i htaken
      cases hreg
      simp only [isValidName, Bool.not_eq_true', Bool.not_eq_false, Bool.and_eq_true, bne_iff_ne]
        at hvalid
      simp only [Bool.and_eq_true, Bool.not_eq_true'] at htaken
      exact .duplicate hvalid.1 hvalid.2 htaken.1 ((position?_isSome_iff s).1 htaken.2)
    · cases hreg

theorem define_of_refuses {r : Registry} (s : r.catalog.Sound) {d : Definition}
    {e : RegistryError} (h : r.Refuses d.name e) : r.define d = .error e := by
  cases h with
  | invalid hv =>
    have hvalid : isValidName d.name = false := by
      simp only [isValidName, Bool.and_eq_false_iff, bne_eq_false_iff_eq, Bool.not_eq_false']
      exact hv
    simp [define, Catalog.register, hvalid, bind, Except.bind]
  | duplicate hne hmark ho hn =>
    have hvalid : isValidName d.name = true := by simp [isValidName, hne, hmark]
    have htaken := (position?_isSome_iff s).2 hn
    simp [define, Catalog.register, hvalid, ho, htaken, bind, Except.bind]

theorem define_eq_error_iff {r : Registry} (s : r.catalog.Sound) {d : Definition}
    {e : RegistryError} : r.define d = .error e ↔ r.Refuses d.name e :=
  ⟨refuses_of_define s, define_of_refuses s⟩

end Registry

/-- A run that stopped at the declaration of `subject`, having come as far as `prior` before: all
conditions on the subject matched, and its name was refused. The registry is that of `prior`, except
that the report holds the verdicts on the subject as well. -/
structure Run.StopsAt (run : Run) (view : Viewpoint) (prior : Run) (conditions : List Condition)
    (subject : Subject) (e : RegistryError) : Prop where
  succeeded : prior.error? = none
  met : ∀ v ∈ verdicts conditions (view prior.registry.hierarchy) subject, v.matched = true
  refused : prior.registry.Refuses subject.declaration.name e
  catalog : run.registry.catalog = prior.registry.catalog
  overriding : run.registry.overriding = prior.registry.overriding
  ancestors : run.registry.ancestors = prior.registry.ancestors
  report : prior.registry.report.Gains subject.declaration.name
    (verdicts conditions (view prior.registry.hierarchy) subject) run.registry.report
  error : run.error? = some e

namespace Registry

variable {view : Viewpoint} {r : Registry} {e : RegistryError}

theorem reported_of_admits {conditions : List Condition} {subject : Subject}
    (h : r.admits view conditions subject = true) :
    r.reported view conditions subject = r.record subject.declaration.name
      (verdicts conditions (view r.hierarchy) subject) := by
  rw [reported, judge_of_all_met h]

theorem stopsAt_of_define {run prior : Run} {conditions : List Condition} {subject : Subject}
    {d : Definition} (hi : prior.registry.Intact) (hprior : prior.error? = none)
    (ha : prior.registry.admits view conditions subject = true)
    (hd : (prior.registry.reported view conditions subject).define d = .error e)
    (hname : d.name = subject.declaration.name)
    (hregistry : run.registry = prior.registry.reported view conditions subject)
    (herror : run.error? = some e) : run.StopsAt view prior conditions subject e where
  succeeded := hprior
  met := by
    have hall : allMatched (verdicts conditions (view prior.registry.hierarchy) subject) = true :=
      (allMatched_verdicts _ _ _).trans ha
    simpa [allMatched] using hall
  refused := by
    have hsound : (prior.registry.reported view conditions subject).catalog.Sound := hi.sound
    have hrefused := refuses_of_define hsound hd
    rw [← hname]
    cases hrefused with
    | invalid hv => exact .invalid hv
    | duplicate hne hmark ho hn => exact .duplicate hne hmark ho hn
  catalog := by rw [hregistry, catalog_reported]
  overriding := by rw [hregistry, overriding_reported]
  ancestors := by rw [hregistry, ancestors_reported]
  report := by
    rw [hregistry, reported_of_admits ha]
    exact Report.gains_recordAll hi.report _ _
  error := herror

theorem define_of_error?_runDefine_eq_some {d : Definition} {events : List Event}
    (h : (r.runDefine d events).error? = some e) :
    r.define d = .error e ∧ (r.runDefine d events).registry = r := by
  cases hd : r.define d with
  | ok r' =>
    rw [runDefine_of_ok hd] at h
    cases h
  | error e' =>
    rw [runDefine_of_error hd] at h ⊢
    cases h
    exact ⟨rfl, rfl⟩

/-! ## Components -/

theorem stopsAt_runComponent {prior : Run} {source : String} {k : Registration}
    (hi : prior.registry.Intact) (hprior : prior.error? = none)
    (h : (prior.registry.runComponent view source k).error? = some e) :
    (prior.andThen (runComponent view source k)).StopsAt view prior k.conditions
      (.component k.declaration) e := by
  have hregistry := Run.registry_andThen_of_none hprior (runComponent view source k)
  have herror := (Run.error?_andThen_of_none hprior (runComponent view source k)).trans h
  rw [runComponent_eq] at h hregistry
  cases ha : prior.registry.admits view k.conditions (.component k.declaration) with
  | false =>
    rw [ha] at h
    cases h
  | true =>
    rw [ha, if_pos rfl] at h hregistry
    obtain ⟨hd, hsame⟩ := define_of_error?_runDefine_eq_some h
    exact stopsAt_of_define hi hprior ha hd rfl (hregistry.trans hsame) herror

/-! ## Configurations -/

theorem error?_runConfiguration_of_not_admits {c : Configuration}
    (ha : r.admits view c.conditions (.configuration c.declaration) = false) :
    (r.runConfiguration view c).error? = none := by
  rw [runConfiguration_eq, ha]
  rfl

/-- A configuration whose own definition is refused runs no component. -/
theorem runConfiguration_of_refused {c : Configuration}
    (ha : r.admits view c.conditions (.configuration c.declaration) = true)
    (hd : (r.reported view c.conditions (.configuration c.declaration)).define c.definition =
      .error e) (components : List Registration) :
    r.runConfiguration view { c with components } =
      { registry := r.reported view c.conditions (.configuration c.declaration)
        events := (judge c.conditions (view r.hierarchy) (.configuration c.declaration)).events
        error? := some e } := by
  rw [runConfiguration_eq]
  simp only [ha, if_true]
  have hdefine := runDefine_of_error hd
    (judge c.conditions (view r.hierarchy) (.configuration c.declaration)).events
  rw [show ({ c with components } : Configuration).definition = c.definition from rfl, hdefine]
  rfl

theorem stopsAt_runConfiguration (hi : r.Intact) {c : Configuration}
    (h : (r.runConfiguration view c).error? = some e) :
    ((r.runConfiguration view c).StopsAt view { registry := r } c.conditions
        (.configuration c.declaration) e ∧
      ∀ components, r.runConfiguration view { c with components } = r.runConfiguration view c) ∨
    ∃ before k after, c.components = before ++ k :: after ∧
      (r.runConfiguration view c).StopsAt view
        (r.runConfiguration view { c with components := before }) k.conditions
        (.component k.declaration) e ∧
      ∀ later, r.runConfiguration view { c with components := before ++ k :: later } =
        r.runConfiguration view c := by
  cases ha : r.admits view c.conditions (.configuration c.declaration) with
  | false =>
    rw [error?_runConfiguration_of_not_admits ha] at h
    cases h
  | true =>
    cases hd : (r.reported view c.conditions (.configuration c.declaration)).define
        c.definition with
    | error e' =>
      left
      have hrun := runConfiguration_of_refused ha hd
      have hc : r.runConfiguration view c = _ := hrun c.components
      rw [hc] at h ⊢
      cases h
      exact ⟨stopsAt_of_define hi rfl ha hd rfl rfl rfl, hrun⟩
    | ok opened =>
      right
      -- with no components at all the configuration is registered, so some component fails
      have hall : r.runConfiguration view c = _ := runConfiguration_append ha [] c.components
      have hnone : (r.runConfiguration view { c with components := [] }).error? = none := by
        rw [runConfiguration_eq]
        simp only [ha, if_true]
        rw [show ({ c with components := [] } : Configuration).definition = c.definition from rfl,
          runDefine_of_ok hd]
        rfl
      rw [hall, Run.error?_andThen_of_none hnone] at h
      obtain ⟨before, k, after, hs, hbefore, hk⟩ := error?_runEach_iff.1 h
      have hprior := runConfiguration_append ha [] before
      rw [List.nil_append] at hprior
      have hok : (r.runConfiguration view { c with components := before }).error? = none := by
        rw [hprior, Run.error?_andThen_of_none hnone, hbefore]
      have hregistry : (r.runConfiguration view { c with components := before }).registry = _ :=
        hprior ▸ Run.registry_andThen_of_none hnone _
      rw [← hregistry] at hk
      have hlater : ∀ later, r.runConfiguration view { c with components := before ++ k :: later } =
          (r.runConfiguration view { c with components := before }).andThen
            (runComponent view c.declaration.name k) := by
        intro later
        rw [runConfiguration_append ha, Run.andThen_of_none hok, Run.andThen_of_none hok, runEach,
          Run.andThen_of_error hk]
      have hc : r.runConfiguration view c = _ := hs ▸ hlater after
      refine ⟨before, k, after, hs, ?_, fun later => (hlater later).trans hc.symm⟩
      rw [hc]
      exact stopsAt_runComponent (kept_intact.runConfiguration _ _ hi) hok hk

theorem call_register_of_error {d : Declaration} (h : r.register d = .error e) :
    r.call (.register d) = r := by
  simp only [call, h]

end Registry

/-- A run of a configuration that fails stops at its declaration or at that of one of its
components. It leaves behind what is there without this component and all later ones, and the
verdicts on the one it stopped at; what comes later makes no difference to it. A declaration that is
refused by itself changes nothing. A build fails with the first error that a configuration in its
order fails with, and only then. -/
theorem failed_runs_keep_what_came_before {overriding : Bool} {parent? : Option Hierarchy}
    {r : Registry} (hr : r.Reachable overriding parent?) :
    (∀ view c e, (r.runConfiguration view c).error? = some e →
      ((r.runConfiguration view c).StopsAt view { registry := r } c.conditions
          (.configuration c.declaration) e ∧
        ∀ components, r.runConfiguration view { c with components } =
          r.runConfiguration view c) ∨
      ∃ before k after, c.components = before ++ k :: after ∧
        (r.runConfiguration view c).StopsAt view
          (r.runConfiguration view { c with components := before }) k.conditions
          (.component k.declaration) e ∧
        ∀ later, r.runConfiguration view { c with components := before ++ k :: later } =
          r.runConfiguration view c) ∧
    (∀ d e, (r.register d = .error e ↔ r.Refuses d.name e) ∧
      (r.register d = .error e → r.call (.register d) = r)) ∧
    ∀ (p : Plan) (e : RegistryError), StableDescending p.configurations p.ordered ∧
      (p.build.value = .error e ↔ ∃ before c after, p.ordered = before ++ c :: after ∧
        (p.runThrough before).error? = none ∧
          ((p.runThrough before).registry.runConfiguration p.view c).error? = some e) := by
  refine ⟨fun view c e h => Registry.stopsAt_runConfiguration hr.intact h, fun d e => ⟨?_, ?_⟩,
    fun p e => ⟨p.stableDescending_ordered, Plan.build_eq_error_iff⟩⟩
  · exact Registry.define_eq_error_iff (d := { declaration := d }) hr.sound
  · exact Registry.call_register_of_error

/-- The second of three components has a name that is taken: the first one stays, the verdicts on
the second come after the one that its name has already, and the third is never looked at. -/
theorem failed_runs_keep_what_came_before_taken :
    let always (message : String) : Condition := .fixed ⟨true, message⟩
    let verdict (message : String) : Verdict := ⟨⟨true, message⟩, "CustomCondition"⟩
    let r := (Registry.create false none).call
      (.runConfiguration .own { declaration := { name := "a" }, conditions := [always "1"] })
    let c : Configuration :=
      { declaration := { name := "c" }
        components := [{ declaration := { name := "b" }, conditions := [always "2"] },
          { declaration := { name := "a" }, conditions := [always "3", always "4"] },
          { declaration := { name := "z" }, conditions := [always "5"] }] }
    let run := r.runConfiguration .own c
    r.Reachable false none ∧ run.error? = some (.duplicateName "a") ∧
      run.registry.definitions.map (·.name) = ["a", "c", "b"] ∧
      run.registry.report.groups =
        [⟨"a", [verdict "1", verdict "3", verdict "4"]⟩, ⟨"b", [verdict "2"]⟩] ∧
      ∃ before k after, c.components = before ++ k :: after ∧
        run.StopsAt .own (r.runConfiguration .own { c with components := before }) k.conditions
          (.component k.declaration) (.duplicateName "a") := by
  intro always verdict r c run
  have hr : r.Reachable false none := .call .empty _
  have herror : run.error? = some (.duplicateName "a") := by decide +kernel
  refine ⟨hr, herror, by decide +kernel, by decide +kernel, ?_⟩
  rcases (failed_runs_keep_what_came_before hr).1 .own c _ herror with ⟨hown, _⟩ | hcomponent
  · -- the name that was refused is not that of the configuration
    have hname : ∀ name, r.Refuses name (.duplicateName "a") → name = "a" := by
      intro name h
      cases h
      rfl
    exact absurd (hname _ hown.refused) (by decide)
  · obtain ⟨before, k, after, hs, hstops, _⟩ := hcomponent
    exact ⟨before, k, after, hs, hstops⟩

end Componentry
