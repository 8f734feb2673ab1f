import Componentry.Proofs.Agreement
import Componentry.Proofs.Failure
import Componentry.Proofs.Scope

/-!
# Componentry.Proofs.Independence

Assembly by conditions that cannot see what is being assembled. Such conditions come to the same at
any time (`Unseen`), so a run tells of each configuration what it would tell of it alone
(`Tells.at_start`, `Settles`), and no two orders can differ in what they tell of a name
(`Settles.agreeAt`). Where names are valid and differ, no registration fails either
(`error?_run_eq_none`). `assembly_order_independent` puts both together.
-/

namespace Componentry

/-! ## Conditions that do not see the registry -/

/-- A search of ancestors only. -/
def Condition.SearchesAncestors : Condition → Prop
  | ifPresent criteria | ifMissing criteria => criteria.reach = .ancestors
  | custom _ _ => False

/-- The conditions on a configuration and on its components. -/
def Configuration.allConditions (c : Configuration) : List Condition :=
  c.conditions ++ c.components.flatMap (·.conditions)

/-- Conditions get to see one hierarchy throughout, or they search the ancestors of the registry. -/
def Plan.IsBlind (p : Plan) : Prop :=
  (∃ h, p.view = .fixed h) ∨
    (p.view = .own ∧ ∀ c ∈ p.configurations, ∀ k ∈ c.allConditions, k.SearchesAncestors)

namespace Registry

/-- Conditions come to the same whatever has been registered and reported since `start`. -/
def Unseen (view : Viewpoint) (start : Registry) (conditions : List Condition) : Prop :=
  ∀ k ∈ conditions, ∀ r : Registry, r.ancestors = start.ancestors → ∀ subject,
    (k.verdict (view r.hierarchy) subject).value = (k.verdict (view start.hierarchy) subject).value

namespace Unseen

variable {view : Viewpoint} {start r : Registry} {conditions : List Condition}

theorem of_subset {all : List Condition} (h : Unseen view start all) (hs : conditions ⊆ all) :
    Unseen view start conditions :=
  fun k hk => h k (hs hk)

theorem of_fixed (h : Hierarchy) (start : Registry) (conditions : List Condition) :
    Unseen (.fixed h) start conditions :=
  fun _ _ _ _ _ => rfl

theorem of_searchesAncestors (h : ∀ k ∈ conditions, k.SearchesAncestors) (start : Registry) :
    Unseen .own start conditions := by
  intro k hk r hr subject
  have hsame : ∀ criteria : Criteria, criteria.reach = .ancestors →
      (evaluate subject criteria r.hierarchy).value =
        (evaluate subject criteria start.hierarchy).value := by
    intro criteria hreach
    refine value_evaluate_congr (.of_take_eq (fun hne => absurd hreach hne) ?_) subject
    exact congrArg (List.take 64) hr
  cases k with
  | ifPresent criteria =>
    simp only [Condition.verdict, Condition.check, Viewpoint.own, id, Logged.value_bind,
      Logged.value_pure, hsame criteria (h _ hk)]
  | ifMissing criteria =>
    simp only [Condition.verdict, Condition.check, Viewpoint.own, id, Logged.value_bind,
      Logged.value_pure, hsame criteria (h _ hk)]
  | custom name check => exact absurd (h _ hk) id

theorem verdicts_eq (h : Unseen view start conditions) (hr : r.ancestors = start.ancestors)
    (subject : Subject) :
    verdicts conditions (view r.hierarchy) subject =
      verdicts conditions (view start.hierarchy) subject :=
  List.map_congr_left fun k hk => h k hk r hr subject

theorem recordedVerdicts?_eq (h : Unseen view start conditions)
    (hr : r.ancestors = start.ancestors) (subject : Subject) :
    recordedVerdicts? conditions (view r.hierarchy) subject =
      recordedVerdicts? conditions (view start.hierarchy) subject := by
  rw [recordedVerdicts?, h.verdicts_eq hr, recordedVerdicts?]

theorem admits_eq (h : Unseen view start conditions) (hr : r.ancestors = start.ancestors)
    (subject : Subject) :
    r.admits view conditions subject = start.admits view conditions subject := by
  rw [admits, ← allMatched_verdicts, h.verdicts_eq hr, allMatched_verdicts, admits]

end Unseen

/-- What is told of a declaration does not depend on when it was judged. -/
theorem Tells.at_start {view : Viewpoint} {start prior r : Registry} {conditions : List Condition}
    {subject : Subject} {d : Definition} (h : Tells view prior conditions subject d r)
    (hu : Unseen view start conditions) (hp : prior.ancestors = start.ancestors) :
    Tells view start conditions subject d r where
  verdicts := h.verdicts.trans (hu.recordedVerdicts?_eq hp subject)
  definition := by rw [h.definition, hu.admits_eq hp]

/-! ## What is told of a whole configuration -/

/-- A registry tells of a configuration and its components what their conditions come to at the
start, when nothing is registered. -/
structure Settles (view : Viewpoint) (start : Registry) (c : Configuration) (r : Registry) :
    Prop where
  configuration : Tells view start c.conditions (.configuration c.declaration) c.definition r
  component : start.admits view c.conditions (.configuration c.declaration) = true →
    ∀ k ∈ c.components, Tells view start k.conditions (.component k.declaration)
      (k.definition c.declaration.name) r
  skipped : start.admits view c.conditions (.configuration c.declaration) = false →
    ∀ k ∈ c.components, Blank k.declaration.name r

namespace Tells

variable {view : Viewpoint} {start r r' : Registry} {conditions : List Condition}
  {subject : Subject} {d : Definition}

theorem agreeAt (h : Tells view start conditions subject d r)
    (h' : Tells view start conditions subject d r') : AgreeAt d.name r r' :=
  ⟨h'.verdicts.trans h.verdicts.symm, h'.definition.trans h.definition.symm⟩

end Tells

theorem Blank.agreeAt {name : String} {r r' : Registry} (h : Blank name r) (h' : Blank name r') :
    AgreeAt name r r' :=
  ⟨h'.verdicts.trans h.verdicts.symm, h'.definition.trans h.definition.symm⟩

namespace Settles

variable {view : Viewpoint} {start r r' : Registry} {c : Configuration}

theorem agreeAt (h : Settles view start c r) (h' : Settles view start c r') :
    ∀ name ∈ c.names, AgreeAt name r r' := by
  intro name hname
  rcases List.mem_cons.1 hname with rfl | hname
  · exact h.configuration.agreeAt h'.configuration
  · obtain ⟨k, hk, rfl⟩ := List.mem_map.1 hname
    cases ha : start.admits view c.conditions (.configuration c.declaration) with
    | true => exact (h.component ha k hk).agreeAt (h'.component ha k hk)
    | false => exact (h.skipped ha k hk).agreeAt (h'.skipped ha k hk)

/-- A priority tells nothing. -/
theorem reprioritize (h : Settles view start c r) (priority : Int) :
    Settles view start { c with priority } r :=
  ⟨h.configuration, h.component, h.skipped⟩

end Settles

/-- A valid name of which nothing is told is not refused. -/
theorem Blank.not_refuses {name : String} {r : Registry} {e : RegistryError} (h : Blank name r)
    (hr : r.Intact) (hv : isValidName name = true) : ¬ r.Refuses name e := by
  intro hrefused
  cases hrefused with
  | invalid hinvalid => rcases hinvalid with hi | hi <;> simp [isValidName, hi] at hv
  | duplicate _ _ _ hn => exact h.not_hasName hr hn

/-- Registries that tell the same of every name have the same definitions. -/
theorem perm_definitions_of_agreeAt {r r' : Registry} (hr : r.Intact) (hr' : r'.Intact)
    (h : ∀ name, AgreeAt name r r') : r'.definitions.Perm r.definitions := by
  have hnodup : ∀ {r : Registry}, r.Intact → r.definitions.Nodup :=
    fun hr => .of_map _ hr.sound.nodup_names
  refine (List.perm_ext_iff_of_nodup (hnodup hr') (hnodup hr)).2 fun d => ?_
  rw [hr'.mem_definitions_iff, hr.mem_definitions_iff, (h d.name).definition]

end Registry

/-! ## Plans -/

namespace Plan

variable {p : Plan}

theorem IsBlind.unseen (h : p.IsBlind) {c : Configuration} (hc : c ∈ p.configurations)
    (start : Registry) : Registry.Unseen p.view start c.allConditions := by
  rcases h with ⟨seen, hview⟩ | ⟨hview, hconditions⟩
  · rw [hview]
    exact .of_fixed seen start _
  · rw [hview]
    exact .of_searchesAncestors (hconditions c hc) start

theorem ancestors_runThrough (p : Plan) (configurations : List Configuration) :
    (p.runThrough configurations).registry.ancestors =
      (Registry.create p.overriding p.parent?).ancestors :=
  (Registry.kept_ancestors _).runConfigurations p.view configurations rfl

/-- Where names are valid and differ, each of them is free when its turn comes. -/
theorem error?_run_eq_none (hnames : (p.configurations.flatMap (·.names)).Nodup)
    (hvalid : ∀ name ∈ p.configurations.flatMap (·.names), isValidName name = true) :
    p.run.error? = none := by
  cases herror : p.run.error? with
  | none => rfl
  | some e =>
    have hbuild : p.build.value = .error e := Run.result_eq_error_iff.2 herror
    obtain ⟨before, c, after, hs, _, hc⟩ := build_eq_error_iff.1 hbuild
    have hmem : c ∈ p.ordered := by simp [hs]
    have hordered := nodup_names_ordered hnames
    have hcnames : c.names.Nodup := (List.nodup_flatMap.1 hordered).1 c hmem
    have hcvalid : ∀ name ∈ c.names, isValidName name = true := fun name hname =>
      hvalid name (List.mem_flatMap.2 ⟨c, p.perm_ordered.mem_iff.1 hmem, hname⟩)
    have hintact := p.intact_runThrough before
    have hblank := blank_runThrough hs hordered
    rcases Registry.stopsAt_runConfiguration hintact hc with
      ⟨hown, _⟩ | ⟨front, k, back, hsplit, hk, _⟩
    · exact absurd hown.refused ((hblank _ List.mem_cons_self).not_refuses hintact
        (hcvalid _ List.mem_cons_self))
    · have hkname : k.declaration.name ∈ c.names := by simp [Configuration.names, hsplit]
      exact absurd hk.refused ((Registry.blank_component hintact hblank hcnames hsplit).not_refuses
        (Registry.kept_intact.runConfiguration _ _ hintact) (hcvalid _ hkname))

theorem settles_run (hok : p.run.error? = none)
    (hnames : (p.configurations.flatMap (·.names)).Nodup) {c : Configuration}
    (hc : c ∈ p.configurations)
    (hu : Registry.Unseen p.view (Registry.create p.overriding p.parent?) c.allConditions) :
    Registry.Settles p.view (Registry.create p.overriding p.parent?) c p.run.registry := by
  obtain ⟨before, after, hs⟩ := List.append_of_mem (p.perm_ordered.mem_iff.2 hc)
  obtain ⟨hprior, hblank, hown, hrun, hlater⟩ := p.run_split hs hok (nodup_names_ordered hnames)
  have hancestors := p.ancestors_runThrough before
  have huown := hu.of_subset (List.subset_append_left _ _)
  have hadmits := huown.admits_eq hancestors (.configuration c.declaration)
  have hkname : ∀ k ∈ c.components, k.declaration.name ∈ c.names :=
    fun k hk => List.mem_cons_of_mem _ (List.mem_map_of_mem hk)
  refine ⟨?_, fun ha k hk => ?_, fun ha k hk => ?_⟩
  · have htells := Registry.Tells.runConfiguration hprior (hblank _ List.mem_cons_self) hown hrun
    exact (htells.of_agreeAt (hlater _ List.mem_cons_self)).at_start huown hancestors
  · obtain ⟨front, back, hsplit⟩ := List.append_of_mem hk
    have htells := Registry.Tells.component_of_admits hprior hblank hown hrun
      (hadmits.trans ha) hsplit
    have huk : Registry.Unseen p.view (Registry.create p.overriding p.parent?) k.conditions :=
      hu.of_subset fun x hx => List.mem_append_right _ (List.mem_flatMap.2 ⟨k, hk, hx⟩)
    refine (htells.of_agreeAt (hlater _ (hkname k hk))).at_start huk ?_
    exact (Registry.kept_ancestors _).runConfiguration p.view _ hancestors
  · have hskipped := Registry.blank_component_of_not_admits hprior hblank hown
      (hadmits.trans ha) hk
    exact hskipped.of_agreeAt (hlater _ (hkname k hk))

theorem blank_run {name : String} (hn : name ∉ p.configurations.flatMap (·.names)) :
    Registry.Blank name p.run.registry := by
  refine (Registry.blank_create name _ _).of_agreeAt
    (Registry.AgreeAt.runConfigurations (Registry.intact_create _ _) fun hmem => hn ?_)
  exact (p.perm_ordered.flatMap_right _).mem_iff.1 hmem

/-- The same plan with its configurations submitted in another order and given other priorities. -/
def reordered (p : Plan) (order : List Configuration) (priority : Configuration → Int) : Plan :=
  { p with configurations := order.map fun c => { c with priority := priority c } }

theorem names_reordered (p : Plan) (order : List Configuration) (priority : Configuration → Int) :
    (p.reordered order priority).configurations.flatMap (·.names) = order.flatMap (·.names) := by
  rw [reordered, List.flatMap_map]
  rfl

/-- Runs in any order tell the same of every name. -/
theorem agreeAt_run_reordered (hnames : (p.configurations.flatMap (·.names)).Nodup)
    (hblind : p.IsBlind) (hok : p.run.error? = none) {order : List Configuration}
    {priority : Configuration → Int} (hp : order.Perm p.configurations)
    (hok' : (p.reordered order priority).run.error? = none) (name : String) :
    Registry.AgreeAt name p.run.registry (p.reordered order priority).run.registry := by
  have hsame := hp.flatMap_right (·.names)
  have hnames' : ((p.reordered order priority).configurations.flatMap (·.names)).Nodup := by
    rw [names_reordered]
    exact hsame.nodup_iff.2 hnames
  by_cases hn : name ∈ p.configurations.flatMap (·.names)
  · obtain ⟨c, hc, hname⟩ := List.mem_flatMap.1 hn
    have hc' : { c with priority := priority c } ∈ (p.reordered order priority).configurations :=
      List.mem_map_of_mem (hp.mem_iff.2 hc)
    have hu := hblind.unseen hc (Registry.create p.overriding p.parent?)
    have hsettled := settles_run hok hnames hc hu
    have hsettled' := (settles_run hok' hnames' hc' hu).reprioritize c.priority
    exact hsettled.agreeAt hsettled' name hname
  · refine (blank_run hn).agreeAt (blank_run ?_)
    rw [names_reordered, hsame.mem_iff]
    exact hn

end Plan

/-- Where all names are valid and differ and no condition can see the registry that is filled, a
build succeeds in any order of submission and with any priorities, and it always comes to the same
definitions and to the same verdicts on every name. -/
theorem assembly_order_independent {p : Plan}
    (hnames : (p.configurations.flatMap (·.names)).Nodup)
    (hvalid : ∀ name ∈ p.configurations.flatMap (·.names), isValidName name = true)
    (hblind : p.IsBlind) :
    ∃ r, p.build.value = .ok r ∧
      ∀ (order : List Configuration) (priority : Configuration → Int),
        order.Perm p.configurations →
        ∃ r', (p.reordered order priority).build.value = .ok r' ∧
          r'.definitions.Perm r.definitions ∧
          ∀ name, r'.report.verdictsFor? name = r.report.verdictsFor? name := by
  have hok := Plan.error?_run_eq_none hnames hvalid
  refine ⟨_, Run.result_eq_ok_iff.2 ⟨hok, rfl⟩, fun order priority hp => ?_⟩
  have hsame := hp.flatMap_right (·.names)
  have hok' : (p.reordered order priority).run.error? = none := by
    refine Plan.error?_run_eq_none ?_ ?_
    · rw [Plan.names_reordered]
      exact hsame.nodup_iff.2 hnames
    · rw [Plan.names_reordered]
      exact fun name hname => hvalid name (hsame.mem_iff.1 hname)
  have hagree := Plan.agreeAt_run_reordered hnames hblind hok hp hok'
  refine ⟨_, Run.result_eq_ok_iff.2 ⟨hok', rfl⟩, ?_, fun name => (hagree name).verdicts⟩
  exact Registry.perm_definitions_of_agreeAt (p.intact_runThrough _)
    ((p.reordered order priority).intact_runThrough _) hagree

/-- Guards that ask a parent for `T` let `b` in and keep `a` out, whether or not `c` is there to
provide `T` as well. -/
theorem assembly_order_independent_guarded :
    let t : ComponentType := .plain "T"
    let asked : Criteria := { types := [t], reach := .ancestors }
    let parent : Hierarchy := ⟨({ names := ["t"], types := [("T", ["t"])] } : Tables).level, []⟩
    let one : Configuration :=
      { declaration := { name := "one" }
        components := [{ declaration := { name := "a", hint? := some t }
                         conditions := [.ifMissing asked] },
          { declaration := { name := "b" }, conditions := [.ifPresent asked] }] }
    let two : Configuration :=
      { declaration := { name := "two" }
        conditions := [.ifPresent asked]
        components := [{ declaration := { name := "c", hint? := some t } }] }
    let p : Plan := { configurations := [one, two], parent? := some parent }
    let priority : Configuration → Int := fun c => if c.declaration.name = "two" then 7 else -3
    (p.configurations.flatMap (·.names)).Nodup ∧
      (∀ name ∈ p.configurations.flatMap (·.names), isValidName name = true) ∧ p.IsBlind ∧
      [two, one].Perm p.configurations ∧
      ∃ r r', p.build.value = .ok r ∧ (p.reordered [two, one] priority).build.value = .ok r' ∧
        r.definitions.map (·.name) = ["one", "b", "two", "c"] ∧
        r'.definitions.map (·.name) = ["two", "c", "one", "b"] ∧
        r'.definitions.Perm r.definitions := by
  intro t asked parent one two p priority
  have hnames : (p.configurations.flatMap (·.names)).Nodup := by decide +kernel
  have hvalid : ∀ name ∈ p.configurations.flatMap (·.names), isValidName name = true := by
    decide +kernel
  have hblind : p.IsBlind := by
    refine Or.inr ⟨rfl, ?_⟩
    simp [p, one, two, asked, Configuration.allConditions, Condition.SearchesAncestors]
  have hp : [two, one].Perm p.configurations := List.Perm.swap _ _ _
  obtain ⟨r, hr, hany⟩ := assembly_order_independent hnames hvalid hblind
  obtain ⟨r', hr', hperm, _⟩ := hany [two, one] priority hp
  have hordered : p.ordered = [one, two] := by
    simp [p, Plan.ordered, List.mergeSort, one, two]
  have hordered' : (p.reordered [two, one] priority).ordered =
      [{ two with priority := 7 }, { one with priority := -3 }] := by
    simp [p, Plan.reordered, Plan.ordered, List.mergeSort, priority, one, two]
  refine ⟨hnames, hvalid, hblind, hp, r, r', hr, hr', ?_, ?_, hperm⟩
  · rw [← (Run.result_eq_ok_iff.1 hr).2, Plan.run, hordered]
    decide +kernel
  · rw [← (Run.result_eq_ok_iff.1 hr').2, Plan.run, hordered']
    decide +kernel

end Componentry
