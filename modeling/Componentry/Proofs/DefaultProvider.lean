import Componentry.Proofs.Meaning
import Componentry.Proofs.Progress

/-!
# Componentry.Proofs.DefaultProvider

Components that are registered only where nothing else provides what they do. The guard of such a
default provider has open criteria, so it looks for the type that the component implies, be it by
itself or as the element of a container (`Subject.Implies`). A registered candidate of the same
implied type is found by the guard (`Registry.matched_of_mem`), whichever of the two is the
container. So no stage of a run has two default providers of one implied type
(`at_most_one_default_provider`).
-/

namespace Componentry

/-- Open criteria that look at the registry itself, for a type or else for a container of it, and
overlook nothing. -/
structure Criteria.GuardsDefault (container? : Option ComponentType) (c : Criteria) : Prop where
  names : c.names = []
  types : c.types = []
  annotations : c.annotations = []
  ignored : c.ignored = []
  container : c.container? = container?
  reach : c.reach = .current ∨ c.reach = .all

structure Declaration.IsCandidate (d : Declaration) : Prop where
  autowire : d.autowireCandidate = true
  default : d.defaultCandidate = true

/-- A component that a search by type finds and that is to be registered only if no other one of
its implied type is. -/
structure Registration.IsDefaultProvider (container? : Option ComponentType) (k : Registration) :
    Prop where
  candidate : k.declaration.IsCandidate
  guard : ∃ c, .ifMissing c ∈ k.conditions ∧ c.GuardsDefault container?

def Task.IsDefaultProvider (container? : Option ComponentType) : Task → Prop
  | component _ k => k.IsDefaultProvider container?
  | configuration _ => False

/-- Both tasks are default providers of one implied type. -/
def Task.Competes (container? : Option ComponentType) (t t' : Task) : Prop :=
  t.IsDefaultProvider container? ∧ t'.IsDefaultProvider container? ∧
    ∃ target, t.subject.Implies container? target ∧ t'.subject.Implies container? target

/-- A component that a search by type finds, of a type that is known, with no other condition than
one guard. -/
structure Registration.IsGuardedBy (k : Registration) (c : Criteria) : Prop where
  candidate : k.declaration.IsCandidate
  only : k.conditions = [.ifMissing c]
  typed : k.declaration.produced?.isSome = true

/-! ## What a guard looks for -/

theorem ComponentType.conformsTo_containing {t container element : ComponentType}
    (h : t.conformsTo container = true) (he : t.element? = some element) :
    t.conformsTo (container.containing element) = true := by
  rw [conformsTo, Bool.and_eq_true] at h
  exact (conformsTo_iff_of_element rfl).2 ⟨h.1, element, he, rfl⟩

/-- What a component implies it also provides, by itself or as a container. -/
theorem Subject.Implies.provides {container? : Option ComponentType} {d : Declaration}
    {target : ComponentType} (h : (Subject.component d).Implies container? target) :
    d.provides target = true ∨ ∃ container, container? = some container ∧
      d.provides (container.containing target) = true := by
  cases h with
  | element hp hc hw =>
    refine Or.inr ⟨_, hc, ?_⟩
    rw [Declaration.provides, hp, Option.any_some]
    exact ComponentType.conformsTo_containing hw.conforms hw.element?
  | produced hp _ =>
    refine Or.inl ?_
    rw [Declaration.provides, hp, Option.any_some]
    exact ComponentType.conformsTo_self target

theorem exists_implies {d : Declaration} (h : d.produced?.isSome = true)
    (container? : Option ComponentType) :
    ∃ target, (Subject.component d).Implies container? target := by
  obtain ⟨produced, hp⟩ := Option.isSome_iff_exists.1 h
  simp only [Subject.implies_iff, Subject.impliedType?, hp]
  exact ⟨_, rfl⟩

theorem Criteria.GuardsDefault.forSubject? {container? : Option ComponentType} {c : Criteria}
    (g : c.GuardsDefault container?) {subject : Subject} {target : ComponentType}
    (h : subject.Implies container? target) :
    c.forSubject? subject = some (c.withType target) :=
  inEffect_iff.1 (.implied g.names g.types g.annotations (g.container ▸ h))

theorem Criteria.GuardsDefault.searched {container? : Option ComponentType} {c : Criteria}
    (g : c.GuardsDefault container?) (h : Hierarchy) :
    ∃ farther, h.searched c.reach = h.current :: farther := by
  rcases g.reach with hr | hr
  · rw [hr]
    exact ⟨[], rfl⟩
  · rw [hr]
    exact ⟨_, rfl⟩

/-! ## What a guard finds -/

namespace Catalog

variable {c : Catalog} {d : Definition}

theorem mem_namesOfType_of_provides {target : ComponentType} (hd : d ∈ c.definitions)
    (h : d.declaration.provides target = true) : d.name ∈ c.namesOfType .all target := by
  refine List.mem_flatMap.2 ⟨d, hd, ?_⟩
  simp [Definition.namesOfType, h]

theorem foundAt_zero {target : ComponentType} (hd : d ∈ c.definitions)
    (h : d.declaration.provides target = true) (farther : List Level) :
    FoundAt (c.level :: farther) (·.namesOfType .all target) d.name 0 := by
  refine ⟨⟨⟨c.level, rfl, mem_namesOfType_of_provides hd h⟩, ?_⟩, fun _ _ => Nat.zero_le _⟩
  intro closer hc
  cases hc

/-- A name that the closest level registers is found nowhere else. -/
theorem Sound.depth_eq_zero (s : c.Sound) (hd : d ∈ c.definitions) {farther : List Level}
    {query : Level → List String} {depth : Nat}
    (h : FoundAt (c.level :: farther) query d.name depth) : depth = 0 := by
  cases depth with
  | zero => rfl
  | succ depth =>
    have hhidden := h.1.2 c.level List.mem_cons_self
    rw [baseName_of_unmarked (s.unmarked hd)] at hhidden
    have hreg : c.level.isRegistered d.name = true := s.isRegistered_of_mem hd
    rw [hreg] at hhidden
    cases hhidden

theorem Sound.foundForType (s : c.Sound) (hd : d ∈ c.definitions)
    {container? : Option ComponentType} {target : ComponentType}
    (h : (Subject.component d.declaration).Implies container? target)
    (farther : List Level) : FoundForType (c.level :: farther) container? target d.name 0 := by
  by_cases hfound : ∃ depth, FoundAt (c.level :: farther) (·.namesOfType .all target) d.name depth
  · obtain ⟨depth, hdepth⟩ := hfound
    have hzero := s.depth_eq_zero hd hdepth
    exact Or.inl (hzero ▸ hdepth)
  · rcases h.provides with hp | ⟨container, hc, hp⟩
    · exact Or.inl (foundAt_zero hd hp farther)
    · exact Or.inr ⟨hfound, container, hc, foundAt_zero hd hp farther⟩

theorem Sound.candidateAt (s : c.Sound) (hd : d ∈ c.definitions)
    (h : d.declaration.IsCandidate) (farther : List Level) :
    CandidateAt (c.level :: farther) d.name 0 := by
  refine ⟨c.level, rfl, ?_⟩
  simp only [baseName_of_unmarked (s.unmarked hd), level, autowireCandidate, defaultCandidate,
    s.component?_of_mem hd, Option.all_some]
  exact ⟨h.autowire, h.default⟩

end Catalog

namespace Registry

/-- A guard finds a candidate that implies what the guarded component does. -/
theorem matched_of_mem {r : Registry} (s : r.catalog.Sound) {d : Definition}
    (hd : d ∈ r.definitions) (hcandidate : d.declaration.IsCandidate)
    {container? : Option ComponentType} {c : Criteria} (g : c.GuardsDefault container?)
    {subject : Subject} {target : ComponentType}
    (h : (Subject.component d.declaration).Implies container? target)
    (hsubject : subject.Implies container? target) :
    (evaluate subject c r.hierarchy).value.matched = true := by
  obtain ⟨farther, hsearched⟩ := g.searched r.hierarchy
  have hfound := s.foundForType hd h farther
  have hat := s.candidateAt hd hcandidate farther
  have hmeets : Meets (c.withType target) (r.hierarchy.searched c.reach) d.name := by
    rw [hsearched]
    refine ⟨?_, Or.inl ⟨0, Or.inl ⟨target, ?_, ?_⟩, hat⟩⟩
    · rintro ⟨t, ht, _⟩
      have hnone : t ∈ c.ignored := ht
      rw [g.ignored] at hnone
      cases hnone
    · exact List.mem_append_right _ List.mem_cons_self
    · show FoundForType _ c.container? target d.name 0
      rw [g.container]
      exact hfound
  rw [Match.matched_iff, names_evaluate, g.forSubject? hsubject]
  exact List.ne_nil_of_mem (mem_names_search_iff_meets.2 hmeets)

/-- Once a component with nothing but such a guard was run, the guard finds something: the
component itself, or what the component was not registered for. -/
theorem matched_runComponent {r : Registry} (s : r.catalog.Sound) {source : String}
    {k : Registration} {c : Criteria} {container? : Option ComponentType}
    (g : c.GuardsDefault container?) (hk : k.IsGuardedBy c)
    (hok : (r.runComponent .own source k).error? = none) :
    (evaluate (.component k.declaration) c
      (r.runComponent .own source k).registry.hierarchy).value.matched = true := by
  obtain ⟨target, ht⟩ := exists_implies hk.typed container?
  rcases runComponent_cases hok with ⟨_, hd⟩ | ⟨ha, hr⟩
  · have hmem : k.definition source ∈ (r.runComponent .own source k).registry.definitions :=
      mem_of_define (by simpa using s) hd
    exact matched_of_mem (kept_sound.runComponent _ _ _ s) hmem hk.candidate g ht ht
  · rw [hr, hierarchy_reported]
    simpa [admits, hk.only, Viewpoint.own] using ha

/-- A default provider is not let in where another one of its implied type is registered. -/
theorem admits_eq_false {r : Registry} (s : r.catalog.Sound) {container? : Option ComponentType}
    {t t' : Task} (hmem : t.definition ∈ r.definitions) (hc : t.Competes container? t') :
    r.admits .own t'.conditions t'.subject = false := by
  obtain ⟨h, h', target, ht, ht'⟩ := hc
  cases t with
  | configuration c => cases h
  | component source k =>
    cases t' with
    | configuration c => cases h'
    | component source' k' =>
      obtain ⟨c, hc, g⟩ := h'.guard
      have hmatched := matched_of_mem s hmem h.candidate g ht ht'
      rw [admits, List.all_eq_false]
      refine ⟨.ifMissing c, hc, ?_⟩
      rw [Condition.isMet_ifMissing, Viewpoint.own, id, hmatched]
      exact Bool.false_ne_true

end Registry

/-! ## Stages -/

namespace Plan

variable {p : Plan} {s : Stage}

theorem Reaches.sound (h : p.Reaches s) : s.registry.catalog.Sound :=
  h.kept Registry.kept_sound Catalog.sound_empty

/-- Where nothing is overridden, definitions stay in the order in which tasks were registered. -/
theorem Reaches.definitions (h : p.Reaches s) (hover : p.overriding = false) :
    s.registry.definitions = s.registered.map (·.definition) := by
  induction h with
  | start => rfl
  | step hs hstep ih =>
    have hpolicy := hs.kept (Registry.kept_overriding _) rfl
    cases hstep with
    | refuse _ _ => exact ih
    | skip _ => exact ih
    | @register r r' registered later t _ hd =>
      have hreported : (r.reported p.view t.conditions t.subject).overriding = false :=
        hpolicy.trans hover
      have happend := Registry.definitions_define hreported hd
      rw [List.map_append, ← ih]
      exact happend

theorem Reaches.pairwise_not_competes (h : p.Reaches s) (hview : p.view = .own)
    (hover : p.overriding = false) (container? : Option ComponentType) :
    s.registered.Pairwise fun t t' => ¬ t.Competes container? t' := by
  induction h with
  | start => exact List.Pairwise.nil
  | step hs hstep ih =>
    cases hstep with
    | refuse _ _ => exact ih
    | skip _ => exact ih
    | register ha _ =>
      rw [List.pairwise_append]
      refine ⟨ih, List.pairwise_singleton _ _, ?_⟩
      intro t ht t' ht' hc
      rw [List.mem_singleton.1 ht'] at hc
      have hmem := List.mem_map_of_mem (f := (·.definition)) ht
      rw [← hs.definitions hover] at hmem
      rw [hview, Registry.admits_eq_false hs.sound hmem hc] at ha
      cases ha

end Plan

/-- Where nothing is overridden, no two of the tasks that are registered at any stage of a run are
default providers of one implied type. Under either policy, once a default provider with no other
condition was run, its guard finds something. -/
theorem at_most_one_default_provider {p : Plan} (hview : p.view = .own) :
    (∃ s, p.Reaches s ∧ s.pending = [] ∧ s.registry = p.run.registry) ∧
      ∀ s, p.Reaches s →
        (p.overriding = false → s.registry.definitions = s.registered.map (·.definition) ∧
          ∀ container?, s.registered.Pairwise fun t t' => ¬ t.Competes container? t') ∧
        ∀ source k later container? c, s.pending = .component source k :: later →
          k.IsGuardedBy c → c.GuardsDefault container? →
          (s.registry.runComponent p.view source k).error? = none →
          (evaluate (.component k.declaration) c
            (s.registry.runComponent p.view source k).registry.hierarchy).value.matched = true := by
  refine ⟨p.reaches_run, fun s hs => ⟨fun hover => ⟨hs.definitions hover, fun container? =>
    hs.pairwise_not_competes hview hover container?⟩, ?_⟩⟩
  intro source k later container? c _ hk g hok
  rw [hview] at hok ⊢
  exact Registry.matched_runComponent hs.sound g hk hok

/-- A container of a type and the type itself keep each other out, whichever is run first. The guard
of either one finds something once it was run. -/
theorem at_most_one_default_provider_boxed :
    let box : ComponentType := .plain "Box"
    let guard : Criteria := { container? := some box }
    let boxed : Registration :=
      { declaration := { name := "boxed", hint? := some (box.containing (.plain "T")) }
        conditions := [.ifMissing guard] }
    let bare : Registration :=
      { declaration := { name := "bare", hint? := some (.plain "T") }
        conditions := [.ifMissing guard] }
    let plan (first second : Registration) : Plan :=
      { configurations := [{ declaration := { name := "c" }, components := [first, second] }] }
    let guarded (s : Stage) (k : Registration) : Bool :=
      (evaluate (.component k.declaration) guard
        (s.registry.runComponent .own "c" k).registry.hierarchy).value.matched
    let keepsOut (first second : Registration) : Prop :=
      (plan first second).run.registry.definitions.map (·.name) = ["c", first.declaration.name] ∧
        (∃ s, (plan first second).Reaches s ∧ s.registry = (plan first second).run.registry ∧
          s.registered.Pairwise fun t t' => ¬ t.Competes (some box) t') ∧
        (∃ s, (plan first second).Reaches s ∧
          s.pending = [.component "c" first, .component "c" second] ∧ guarded s first = true) ∧
        ∃ s, (plan first second).Reaches s ∧ s.pending = [.component "c" second] ∧
          guarded s second = true
    (Task.component "c" boxed).Competes (some box) (.component "c" bare) ∧
      keepsOut boxed bare ∧ keepsOut bare boxed := by
  intro box guard boxed bare plan guarded keepsOut
  have hguards : guard.GuardsDefault (some box) := ⟨rfl, rfl, rfl, rfl, rfl, Or.inr rfl⟩
  have hcompetes : (Task.component "c" boxed).Competes (some box) (.component "c" bare) := by
    refine ⟨⟨⟨rfl, rfl⟩, guard, List.mem_singleton_self _, hguards⟩,
      ⟨⟨rfl, rfl⟩, guard, List.mem_singleton_self _, hguards⟩, .plain "T",
      .element rfl rfl ⟨by decide, rfl⟩, .produced rfl ?_⟩
    rintro _ ⟨⟩ element hw
    cases hw.element?
  have hboxed : boxed.IsGuardedBy guard := ⟨⟨rfl, rfl⟩, rfl, rfl⟩
  have hbare : bare.IsGuardedBy guard := ⟨⟨rfl, rfl⟩, rfl, rfl⟩
  have hordered : ∀ first second, (plan first second).ordered =
      (plan first second).configurations := by
    intro first second
    simp [plan, Plan.ordered]
  let opened : Registry := { catalog := Roster.put .empty { declaration := { name := "c" } } }
  have hdefine : (Registry.create false none).define { declaration := { name := "c" } } =
      .ok opened :=
    Registry.define_eq_ok_iff.2 ⟨by decide, Or.inr rfl, rfl⟩
  have hkeeps : ∀ first second, first.IsGuardedBy guard → second.IsGuardedBy guard →
      (plan first second).run.registry.definitions.map (·.name) = ["c", first.declaration.name] →
      (opened.runComponent .own "c" first).error? = none →
      ((opened.runComponent .own "c" first).registry.runComponent .own "c" second).error? = none →
      keepsOut first second := by
    intro first second h h' hnames hfirst hsecond
    obtain ⟨⟨last, hlast, _, hr⟩, hstages⟩ :=
      at_most_one_default_provider (p := plan first second) rfl
    have hstart := Plan.Reaches.start (p := plan first second)
    rw [Plan.start, hordered] at hstart
    have hs := hstart.opened rfl hdefine
    obtain ⟨_, hs'⟩ := hs.next rfl hfirst
    exact ⟨hnames, ⟨last, hlast, hr, ((hstages last hlast).1 rfl).2 _⟩,
      ⟨_, hs, rfl, (hstages _ hs).2 _ _ _ _ _ rfl h hguards hfirst⟩,
      ⟨_, hs', rfl, (hstages _ hs').2 _ _ _ _ _ rfl h' hguards hsecond⟩⟩
  refine ⟨hcompetes, hkeeps boxed bare hboxed hbare ?_ ?_ ?_,
    hkeeps bare boxed hbare hboxed ?_ ?_ ?_⟩
  · rw [Plan.run, hordered]
    decide +kernel
  · decide +kernel
  · decide +kernel
  · rw [Plan.run, hordered]
    decide +kernel
  · decide +kernel
  · decide +kernel

end Componentry
