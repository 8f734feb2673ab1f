import Componentry.Assembly
import Componentry.Proofs.Catalog

/-!
# Componentry.Proofs.Run

What a run does to a registry, one declaration at a time. `Registry.admits` is the decision on a
declaration and `Registry.reported` the registry after its conditions were judged;
`runComponent_eq` and `runConfiguration_eq` put a run together from them. A property that `define`
and `record` keep is kept by whole runs (`Kept.runConfigurations`).
-/

namespace Componentry

/-- Whether a condition matches. -/
def Condition.isMet (c : Condition) (h : Hierarchy) (subject : Subject) : Bool :=
  (c.check h subject).value.matched

@[simp] theorem Condition.isMet_ifMissing (c : Criteria) (h : Hierarchy) (subject : Subject) :
    (ifMissing c).isMet h subject = !(evaluate subject c h).value.matched := rfl

theorem allMatched_judge (cs : List Condition) (h : Hierarchy) (subject : Subject) :
    allMatched (judge cs h subject).value = cs.all (·.isMet h subject) := by
  induction cs with
  | nil => rfl
  | cons c cs ih =>
    have hv : (c.verdict h subject).value.matched = c.isMet h subject := rfl
    cases hm : c.isMet h subject with
    | true =>
      rw [List.all_cons, hm, Bool.true_and, ← ih]
      simp [judge, allMatched, hv, hm]
    | false =>
      rw [List.all_cons, hm, Bool.false_and]
      simp [judge, allMatched, hv, hm]

namespace Run

theorem andThen_of_error {run : Run} {e : RegistryError} (h : run.error? = some e)
    (next : Registry → Run) : run.andThen next = run := by
  rw [andThen, h]

theorem andThen_of_none {run : Run} (h : run.error? = none) (next : Registry → Run) :
    run.andThen next = { next run.registry with
      events := run.events ++ (next run.registry).events } := by
  rw [andThen, h]

theorem registry_andThen_of_none {run : Run} (h : run.error? = none) (next : Registry → Run) :
    (run.andThen next).registry = (next run.registry).registry := by
  rw [andThen_of_none h]

theorem error?_andThen_eq_none_iff {run : Run} {next : Registry → Run} :
    (run.andThen next).error? = none ↔ run.error? = none ∧ (next run.registry).error? = none := by
  cases h : run.error? with
  | none => rw [andThen_of_none h]; simp
  | some e => rw [andThen_of_error h, h]; simp

theorem result_eq_ok_iff {run : Run} {r : Registry} :
    run.result = .ok r ↔ run.error? = none ∧ run.registry = r := by
  cases h : run.error? <;> simp [result, h]

theorem result_eq_error_iff {run : Run} {e : RegistryError} :
    run.result = .error e ↔ run.error? = some e := by
  cases h : run.error? <;> simp [result, h]

end Run

namespace Registry

theorem define_eq_ok_iff {r r' : Registry} {d : Definition} :
    r.define d = .ok r' ↔
      isValidName d.name = true ∧ (r.overriding = true ∨ r.catalog.position? d.name = none) ∧
        r' = { r with catalog := r.catalog.put d } := by
  have hcatalog : r.define d = .ok r' ↔
      ∃ catalog, r.catalog.register r.overriding d = .ok catalog ∧ r' = { r with catalog } := by
    cases h : r.catalog.register r.overriding d with
    | error e => simp [define, h, bind, Except.bind]
    | ok catalog => simp [define, h, bind, Except.bind, pure, Except.pure, eq_comm]
  simp only [hcatalog, Catalog.register_ok_iff]
  constructor
  · intro ⟨_, ⟨hvalid, hfree, hput⟩, hr⟩
    exact ⟨hvalid, hfree, hput ▸ hr⟩
  · intro ⟨hvalid, hfree, hr⟩
    exact ⟨_, ⟨hvalid, hfree, rfl⟩, hr⟩

/-- A definition joins the others and takes the place of the one that has its name. -/
theorem mem_definitions_define_iff {r r' : Registry} (s : r.catalog.Sound) {d e : Definition}
    (h : r.define d = .ok r') :
    e ∈ r'.definitions ↔ e = d ∨ (e ∈ r.definitions ∧ e.name ≠ d.name) := by
  obtain ⟨_, _, rfl⟩ := define_eq_ok_iff.1 h
  exact s.wellFormed.mem_toList_put

theorem mem_of_define {r r' : Registry} (s : r.catalog.Sound) {d : Definition}
    (h : r.define d = .ok r') : d ∈ r'.definitions :=
  (mem_definitions_define_iff s h).2 (Or.inl rfl)

theorem get?_define {r r' : Registry} (s : r.catalog.Sound) {d : Definition}
    (h : r.define d = .ok r') (name : String) :
    r'.catalog.get? name = if d.name = name then some d else r.catalog.get? name := by
  obtain ⟨_, _, rfl⟩ := define_eq_ok_iff.1 h
  exact s.get?_put d name

theorem report_define {r r' : Registry} {d : Definition} (h : r.define d = .ok r') :
    r'.report = r.report := by
  obtain ⟨_, _, rfl⟩ := define_eq_ok_iff.1 h
  rfl

/-- Whether a definition has a name. -/
def HasName (r : Registry) (name : String) : Prop := ∃ d ∈ r.definitions, d.name = name

/-- The index tells the names that definitions have. -/
theorem position?_isSome_iff {r : Registry} (s : r.catalog.Sound) {name : String} :
    (r.catalog.position? name).isSome = true ↔ r.HasName name := by
  rw [← Option.ne_none_iff_isSome, ne_eq, s.position?_eq_none_iff]
  simp [HasName, definitions]

theorem hasName_of_define {r r' : Registry} (s : r.catalog.Sound) {d : Definition}
    (h : r.define d = .ok r') : r'.HasName d.name :=
  ⟨d, mem_of_define s h, rfl⟩

/-- A name may come to stand for another definition, but it stays registered. -/
theorem HasName.define {r r' : Registry} {name : String} (hn : r.HasName name)
    (s : r.catalog.Sound) {d : Definition} (h : r.define d = .ok r') : r'.HasName name := by
  obtain ⟨e, he, rfl⟩ := hn
  by_cases hname : e.name = d.name
  · exact ⟨d, mem_of_define s h, hname.symm⟩
  · exact ⟨e, (mem_definitions_define_iff s h).2 (Or.inr ⟨he, hname⟩), rfl⟩

/-- Where nothing is overridden, a definition comes to stand at the end. -/
theorem definitions_define {r r' : Registry} {d : Definition} (ho : r.overriding = false)
    (h : r.define d = .ok r') : r'.definitions = r.definitions ++ [d] := by
  obtain ⟨_, hfree, rfl⟩ := define_eq_ok_iff.1 h
  rw [ho] at hfree
  exact Roster.toList_put_of_none (hfree.resolve_left Bool.false_ne_true)

theorem runDefine_of_ok {r r' : Registry} {d : Definition} (h : r.define d = .ok r')
    (events : List Event) : r.runDefine d events = { registry := r', events } := by
  rw [runDefine, h]

theorem runDefine_of_error {r : Registry} {d : Definition} {e : RegistryError}
    (h : r.define d = .error e) (events : List Event) :
    r.runDefine d events = { registry := r, events, error? := some e } := by
  rw [runDefine, h]

theorem define_of_error?_runDefine {r : Registry} {d : Definition} {events : List Event}
    (h : (r.runDefine d events).error? = none) :
    r.define d = .ok (r.runDefine d events).registry := by
  cases hd : r.define d with
  | ok r' => rw [runDefine_of_ok hd]
  | error e => rw [runDefine_of_error hd] at h; cases h

/-- Whether all conditions match what they get to see of the registry. -/
def admits (view : Viewpoint) (r : Registry) (conditions : List Condition) (subject : Subject) :
    Bool :=
  conditions.all (·.isMet (view r.hierarchy) subject)

/-- The registry with the verdicts on a subject recorded under its name. -/
def reported (view : Viewpoint) (r : Registry) (conditions : List Condition) (subject : Subject) :
    Registry :=
  r.record subject.declaration.name (judge conditions (view r.hierarchy) subject).value

@[simp] theorem catalog_reported (view : Viewpoint) (r : Registry) (conditions : List Condition)
    (subject : Subject) : (r.reported view conditions subject).catalog = r.catalog := rfl

@[simp] theorem overriding_reported (view : Viewpoint) (r : Registry)
    (conditions : List Condition) (subject : Subject) :
    (r.reported view conditions subject).overriding = r.overriding := rfl

@[simp] theorem ancestors_reported (view : Viewpoint) (r : Registry)
    (conditions : List Condition) (subject : Subject) :
    (r.reported view conditions subject).ancestors = r.ancestors := rfl

@[simp] theorem hierarchy_reported (view : Viewpoint) (r : Registry)
    (conditions : List Condition) (subject : Subject) :
    (r.reported view conditions subject).hierarchy = r.hierarchy := rfl

end Registry

/-- The definition of a component that came with a configuration. -/
def Registration.definition (c : Registration) (configuration : String) : Definition :=
  { declaration := c.declaration, source? := some configuration }

/-- The definition of a configuration itself. -/
def Configuration.definition (c : Configuration) : Definition := { declaration := c.declaration }

namespace Registry

theorem runComponent_eq (view : Viewpoint) (configuration : String) (c : Registration)
    (r : Registry) : r.runComponent view configuration c =
      if r.admits view c.conditions (.component c.declaration) then
        (r.reported view c.conditions (.component c.declaration)).runDefine
          (c.definition configuration)
          ((judge c.conditions (view r.hierarchy) (.component c.declaration)).events ++
            [.registeringComponent c.declaration.name configuration])
      else
        { registry := r.reported view c.conditions (.component c.declaration)
          events := (judge c.conditions (view r.hierarchy) (.component c.declaration)).events ++
            [.skippingComponent c.declaration.name configuration] } := by
  rw [admits, ← allMatched_judge]
  rfl

theorem runConfiguration_eq (view : Viewpoint) (c : Configuration) (r : Registry) :
    r.runConfiguration view c =
      if r.admits view c.conditions (.configuration c.declaration) then
        ((r.reported view c.conditions (.configuration c.declaration)).runDefine c.definition
          (judge c.conditions (view r.hierarchy) (.configuration c.declaration)).events).andThen
            (runComponents view c.declaration.name c.components)
      else
        { registry := r.reported view c.conditions (.configuration c.declaration)
          events := (judge c.conditions (view r.hierarchy) (.configuration c.declaration)).events ++
            [.skippingConfiguration c.declaration.name] } := by
  rw [admits, ← allMatched_judge]
  rfl

/-- What a run of a component without an error came to. -/
theorem runComponent_cases {view : Viewpoint} {source : String} {c : Registration}
    {r : Registry} (h : (r.runComponent view source c).error? = none) :
    (r.admits view c.conditions (.component c.declaration) = true ∧
        (r.reported view c.conditions (.component c.declaration)).define (c.definition source) =
          .ok (r.runComponent view source c).registry) ∨
      (r.admits view c.conditions (.component c.declaration) = false ∧
        (r.runComponent view source c).registry =
          r.reported view c.conditions (.component c.declaration)) := by
  rw [runComponent_eq] at h ⊢
  cases ha : r.admits view c.conditions (.component c.declaration) with
  | true =>
    rw [ha, if_pos rfl] at h
    exact Or.inl ⟨rfl, define_of_error?_runDefine h⟩
  | false => exact Or.inr ⟨rfl, rfl⟩

/-- What a run of a configuration without an error came to. -/
theorem runConfiguration_cases {view : Viewpoint} {c : Configuration} {r : Registry}
    (h : (r.runConfiguration view c).error? = none) :
    (r.admits view c.conditions (.configuration c.declaration) = true ∧ ∃ opened,
        (r.reported view c.conditions (.configuration c.declaration)).define c.definition =
          .ok opened ∧
        (opened.runComponents view c.declaration.name c.components).error? = none ∧
        (r.runConfiguration view c).registry =
          (opened.runComponents view c.declaration.name c.components).registry) ∨
      (r.admits view c.conditions (.configuration c.declaration) = false ∧
        (r.runConfiguration view c).registry =
          r.reported view c.conditions (.configuration c.declaration)) := by
  rw [runConfiguration_eq] at h ⊢
  cases ha : r.admits view c.conditions (.configuration c.declaration) with
  | true =>
    rw [ha, if_pos rfl] at h
    rw [if_pos rfl]
    obtain ⟨hd, hcomponents⟩ := Run.error?_andThen_eq_none_iff.1 h
    exact Or.inl ⟨rfl, _, define_of_error?_runDefine hd, hcomponents,
      Run.registry_andThen_of_none hd _⟩
  | false => exact Or.inr ⟨rfl, rfl⟩

/-! ## Properties that runs keep -/

/-- A property that everything a run does keeps. -/
structure Kept (P : Registry → Prop) : Prop where
  define : ∀ {r r' : Registry} {d : Definition}, P r → r.define d = .ok r' → P r'
  record : ∀ {r : Registry} (source : String) (verdicts : List Verdict), P r →
    P (r.record source verdicts)

namespace Kept

variable {P : Registry → Prop}

theorem runDefine (k : Kept P) {r : Registry} (h : P r) (d : Definition) (events : List Event) :
    P (r.runDefine d events).registry := by
  cases hd : r.define d with
  | ok r' => rw [runDefine_of_ok hd]; exact k.define h hd
  | error e => rw [runDefine_of_error hd]; exact h

theorem reported (k : Kept P) {r : Registry} (h : P r) (view : Viewpoint)
    (conditions : List Condition) (subject : Subject) : P (r.reported view conditions subject) :=
  k.record _ _ h

theorem andThen {run : Run} {next : Registry → Run} (h : P run.registry)
    (hnext : ∀ r, P r → P (next r).registry) : P (run.andThen next).registry := by
  cases he : run.error? with
  | none => rw [Run.registry_andThen_of_none he]; exact hnext _ h
  | some e => rw [Run.andThen_of_error he]; exact h

theorem runComponent (k : Kept P) (view : Viewpoint) (configuration : String) (c : Registration)
    {r : Registry} (h : P r) : P (r.runComponent view configuration c).registry := by
  rw [runComponent_eq]
  split
  · exact k.runDefine (k.reported h _ _ _) _ _
  · exact k.reported h _ _ _

theorem runComponents (k : Kept P) (view : Viewpoint) (configuration : String)
    (cs : List Registration) {r : Registry} (h : P r) :
    P (r.runComponents view configuration cs).registry := by
  induction cs generalizing r with
  | nil => exact h
  | cons c cs ih => exact andThen (k.runComponent view configuration c h) fun _ => ih

theorem runConfiguration (k : Kept P) (view : Viewpoint) (c : Configuration) {r : Registry}
    (h : P r) : P (r.runConfiguration view c).registry := by
  rw [runConfiguration_eq]
  split
  · exact andThen (k.runDefine (k.reported h _ _ _) _ _) fun _ => k.runComponents view _ _
  · exact k.reported h _ _ _

theorem runConfigurations (k : Kept P) (view : Viewpoint) (cs : List Configuration)
    {r : Registry} (h : P r) : P (r.runConfigurations view cs).registry := by
  induction cs generalizing r with
  | nil => exact h
  | cons c cs ih => exact andThen (k.runConfiguration view c h) fun _ => ih

end Kept

theorem kept_sound : Kept fun r => r.catalog.Sound where
  define h hd := by
    obtain ⟨hvalid, _, rfl⟩ := define_eq_ok_iff.1 hd
    exact h.put hvalid
  record _ _ h := h

theorem kept_ancestors (levels : List Level) : Kept fun r => r.ancestors = levels where
  define h hd := by
    obtain ⟨_, _, rfl⟩ := define_eq_ok_iff.1 hd
    exact h
  record _ _ h := h

theorem kept_overriding (overriding : Bool) : Kept fun r => r.overriding = overriding where
  define h hd := by
    obtain ⟨_, _, rfl⟩ := define_eq_ok_iff.1 hd
    exact h
  record _ _ h := h

end Registry
end Componentry
