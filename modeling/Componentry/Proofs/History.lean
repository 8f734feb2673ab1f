import Componentry.Proofs.Lineage
import Componentry.Proofs.Progress
import Mathlib.Data.List.Induction

/-!
# Componentry.Proofs.History

A registry as a map in the order of insertion. `Registry.History` lists the definitions that calls
register on an empty registry, one after the other, refused ones left out. `Registry.Follows` is
what such a history makes of a registry: names stand in the order in which they first came, each
with the last definition that came under it.

`definitions_after_calls`: every registry that calls make follows its history, its index and its
lookups agree with its definitions, and the source of each definition is registered.
-/

namespace Componentry

/-- A definition in a history that no later one of its name replaces. -/
def IsLatest (history : List Definition) (d : Definition) : Prop :=
  ∃ before after, history = before ++ d :: after ∧ ∀ e ∈ after, e.name ≠ d.name

theorem isLatest_concat_iff {history : List Definition} {d e : Definition} :
    IsLatest (history ++ [d]) e ↔ e = d ∨ (IsLatest history e ∧ e.name ≠ d.name) := by
  constructor
  · rintro ⟨before, after, hs, hafter⟩
    rcases List.eq_nil_or_concat after with rfl | ⟨after, last, rfl⟩
    · left
      have hlast := (List.append_inj' hs rfl).2
      simpa using hlast.symm
    · right
      rw [List.concat_eq_append, ← List.cons_append, ← List.append_assoc] at hs
      obtain ⟨hhistory, hd⟩ := List.append_inj' hs rfl
      have hlast : last = d := by simpa using hd.symm
      refine ⟨⟨before, after, hhistory, fun e he => hafter e (by simp [he])⟩, ?_⟩
      exact hlast ▸ (hafter last (by simp)).symm
  · rintro (rfl | ⟨⟨before, after, rfl, hafter⟩, hne⟩)
    · exact ⟨history, [], rfl, by simp⟩
    · refine ⟨before, after ++ [d], by simp, fun x hx => ?_⟩
      rcases List.mem_append.1 hx with hx | hx
      · exact hafter x hx
      · rw [List.mem_singleton.1 hx]
        exact hne.symm

theorem eraseDups_concat {α : Type} [BEq α] [LawfulBEq α] [DecidableEq α] (xs : List α) (x : α) :
    (xs ++ [x]).eraseDups = if x ∈ xs then xs.eraseDups else xs.eraseDups ++ [x] := by
  rw [List.eraseDups_append]
  split <;> simp [List.removeAll, List.eraseDups_cons, *]

namespace Registry

/-- What a history of registrations makes of a registry. -/
structure Follows (history : List Definition) (r : Registry) : Prop where
  sound : r.catalog.Sound
  names : r.definitions.map (·.name) = (history.map (·.name)).eraseDups
  latest : ∀ d, d ∈ r.definitions ↔ IsLatest history d
  once : r.overriding = false → r.definitions = history
  sources : ∀ d ∈ r.definitions, ∀ source, d.source? = some source → r.HasName source

namespace Follows

variable {history : List Definition} {r r' : Registry} {d : Definition}

theorem create (overriding : Bool) (parent? : Option Hierarchy) :
    Follows [] (create overriding parent?) where
  sound := Catalog.sound_empty
  names := rfl
  latest d := by
    constructor
    · intro hd
      cases hd
    · rintro ⟨before, after, hs, _⟩
      simp at hs
  once _ := rfl
  sources d hd := by cases hd

theorem record (h : Follows history r) (source : String) (verdicts : List Verdict) :
    Follows history (r.record source verdicts) :=
  ⟨h.sound, h.names, h.latest, h.once, h.sources⟩

theorem mem_names_iff (h : Follows history r) {name : String} :
    name ∈ history.map (·.name) ↔ r.HasName name := by
  rw [← List.mem_eraseDups, ← h.names, List.mem_map]
  rfl

/-- A definition with a known name leaves the names as they are; any other one adds its name. -/
theorem names_define (h : Follows history r) (hd : r.define d = .ok r') :
    r'.definitions.map (·.name) = ((history ++ [d]).map (·.name)).eraseDups := by
  obtain ⟨_, _, rfl⟩ := define_eq_ok_iff.1 hd
  rw [List.map_append, List.map_singleton, eraseDups_concat, ← h.names]
  cases hp : r.catalog.position? d.name with
  | none =>
    have hnew : ¬ d.name ∈ history.map (·.name) := by
      rw [h.mem_names_iff, ← position?_isSome_iff h.sound, hp]
      exact Bool.false_ne_true
    have hput : Catalog.definitions (r.catalog.put d) = r.catalog.definitions ++ [d] :=
      Roster.toList_put_of_none hp
    rw [if_neg hnew]
    simp [definitions, hput]
  | some i =>
    have hold : d.name ∈ history.map (·.name) := by
      rw [h.mem_names_iff, ← position?_isSome_iff h.sound, hp]
      rfl
    rw [if_pos hold]
    exact h.sound.wellFormed.map_key_put_of_some hp

theorem define (h : Follows history r) (hd : r.define d = .ok r')
    (hsource : ∀ source, d.source? = some source → r.HasName source) :
    Follows (history ++ [d]) r' where
  sound := kept_sound.define h.sound hd
  names := h.names_define hd
  latest e := by
    rw [isLatest_concat_iff, ← h.latest]
    exact mem_definitions_define_iff h.sound hd
  once ho := by
    have hpolicy : r.overriding = r'.overriding := ((kept_overriding _).define rfl hd).symm
    rw [ho] at hpolicy
    rw [definitions_define hpolicy hd, h.once hpolicy]
  sources e he source hs := by
    have hknown : r.HasName source := by
      rcases (mem_definitions_define_iff h.sound hd).1 he with rfl | ⟨he, _⟩
      · exact hsource source hs
      · exact h.sources e he source hs
    exact hknown.define h.sound hd

end Follows
end Registry

/-! ## Stages -/

/-- A stage that follows the history before it and the tasks that it registered since. What is
pending comes from configurations that are registered. -/
structure Stage.Follows (history : List Definition) (s : Stage) : Prop where
  registry : s.registry.Follows (history ++ s.registered.map (·.definition))
  sources : ∀ t ∈ s.pending, ∀ source, t.definition.source? = some source →
    s.registry.HasName source

namespace Stage.Follows

variable {history : List Definition} {view : Viewpoint} {s s' : Stage}

theorem step (h : Follows history s) (hs : Step view s s') : Follows history s' := by
  cases hs with
  | @register r r' registered later t _ hd =>
    have hreported : (r.reported view t.conditions t.subject).Follows _ := h.registry.record _ _
    refine ⟨?_, fun t' ht' source hsource => ?_⟩
    · have hnext := hreported.define hd (h.sources t List.mem_cons_self)
      rw [List.map_append, ← List.append_assoc]
      exact hnext
    · rcases List.mem_append.1 ht' with ht' | ht'
      · -- only a configuration opens tasks, and it has just been registered
        cases t with
        | component _ _ => cases ht'
        | configuration c =>
          obtain ⟨k, _, rfl⟩ := List.mem_map.1 ht'
          cases hsource
          exact Registry.hasName_of_define hreported.sound hd
      · have hname : (r.reported view t.conditions t.subject).HasName source :=
          h.sources t' (List.mem_cons_of_mem t ht') source hsource
        exact hname.define hreported.sound hd
  | refuse _ _ => exact ⟨h.registry.record _ _, fun t ht => by cases ht⟩
  | skip _ => exact ⟨h.registry.record _ _, fun t ht => h.sources t (List.mem_cons_of_mem _ ht)⟩

theorem steps (h : Follows history s) (hs : Steps view s s') : Follows history s' := by
  induction hs with
  | refl => exact h
  | cons hs _ ih => exact ih (h.step hs)

end Stage.Follows

/-! ## Calls -/

namespace Registry

/-- The definitions that calls register on an empty registry, in order, and the registry that they
lead to. -/
inductive History (overriding : Bool) (parent? : Option Hierarchy) :
    List Call → List Definition → Registry → Prop where
  | empty : History overriding parent? [] [] (create overriding parent?)
  | registered {calls : List Call} {history : List Definition} {r r' : Registry}
      {d : Declaration} : History overriding parent? calls history r → r.register d = .ok r' →
      History overriding parent? (calls ++ [.register d]) (history ++ [{ declaration := d }]) r'
  | refused {calls : List Call} {history : List Definition} {r : Registry} {d : Declaration}
      {e : RegistryError} : History overriding parent? calls history r → r.register d = .error e →
      History overriding parent? (calls ++ [.register d]) history r
  | configuration {calls : List Call} {history : List Definition} {r r' : Registry}
      {view : Viewpoint} {c : Configuration} {tasks : List Task} :
      History overriding parent? calls history r →
      Stage.Steps view ⟨r, [], [.configuration c]⟩ ⟨r', tasks, []⟩ →
      History overriding parent? (calls ++ [.runConfiguration view c])
        (history ++ tasks.map (·.definition)) r'

variable {overriding : Bool} {parent? : Option Hierarchy}

theorem History.call {calls : List Call} {history : List Definition} {r : Registry}
    (h : History overriding parent? calls history r) (k : Call) :
    ∃ history', History overriding parent? (calls ++ [k]) history' (r.call k) := by
  cases k with
  | register d =>
    cases hd : r.register d with
    | ok r' =>
      simp only [Registry.call, hd]
      exact ⟨_, h.registered hd⟩
    | error e =>
      simp only [Registry.call, hd]
      exact ⟨_, h.refused hd⟩
  | runConfiguration view c =>
    obtain ⟨tasks, hsteps⟩ : ∃ tasks, Stage.Steps view ⟨r, [], [.configuration c]⟩
        ((r.runConfiguration view c).stage tasks []) := steps_runConfiguration c
    have hend : (r.runConfiguration view c).stage tasks [] =
        ⟨r.call (.runConfiguration view c), tasks, []⟩ := by
      simp [Run.stage, Registry.call]
    rw [hend] at hsteps
    exact ⟨_, h.configuration hsteps⟩

/-- All calls have a history. -/
theorem exists_history (calls : List Call) : ∃ history,
    History overriding parent? calls history
      (calls.foldl Registry.call (create overriding parent?)) := by
  induction calls using List.reverseRecOn with
  | nil => exact ⟨[], .empty⟩
  | append_singleton calls k ih =>
    obtain ⟨history, h⟩ := ih
    rw [List.foldl_append]
    exact h.call k

theorem History.follows {calls : List Call} {history : List Definition} {r : Registry}
    (h : History overriding parent? calls history r) : r.Follows history := by
  induction h with
  | empty => exact .create overriding parent?
  | registered _ hd ih => exact ih.define hd fun _ hs => by cases hs
  | refused _ _ ih => exact ih
  | @configuration calls history r r' view c tasks _ hsteps ih =>
    have hstart : Stage.Follows history ⟨r, [], [.configuration c]⟩ := by
      refine ⟨by simpa using ih, fun t ht source hs => ?_⟩
      rw [List.mem_singleton.1 ht] at hs
      cases hs
    exact (hstart.steps hsteps).registry

theorem position?_eq_some_iff {r : Registry} (s : r.catalog.Sound) {name : String} {i : Nat} :
    r.catalog.position? name = some i ↔ (r.definitions[i]?).map (·.name) = some name := by
  have hentries : r.definitions[i]? = r.catalog.entries[i]? := Array.getElem?_toList
  rw [hentries]
  exact s.wellFormed name i

end Registry

/-- Under either policy, what any calls leave behind is a map in the order of insertion: valid names
without repetition, an index and lookups that agree with the definitions, each with a registered
source. Names stand in the order of their first registration, each with its last one; where
nothing is overridden, that is its only one. -/
theorem definitions_after_calls (overriding : Bool) (parent? : Option Hierarchy)
    (calls : List Call) :
    let r := calls.foldl Registry.call (Registry.create overriding parent?)
    ((r.definitions.map (·.name)).Nodup ∧
        ∀ d ∈ r.definitions, d.name ≠ "" ∧ isFactoryName d.name = false) ∧
      (∀ name i, r.catalog.position? name = some i ↔
        (r.definitions[i]?).map (·.name) = some name) ∧
      (∀ name, isFactoryName name = false → ∀ d,
        r.catalog.component? name = some d ↔ d ∈ r.definitions ∧ d.name = name) ∧
      (∀ name d, r.catalog.component? (factoryName name) = some d ↔
        d ∈ r.definitions ∧ d.name = name ∧ d.declaration.isFactory = true) ∧
      (∀ d ∈ r.definitions, ∀ source, d.source? = some source → r.HasName source) ∧
      (∃ history, Registry.History overriding parent? calls history r) ∧
      ∀ history, Registry.History overriding parent? calls history r →
        r.definitions.map (·.name) = (history.map (·.name)).eraseDups ∧
          (∀ d, d ∈ r.definitions ↔ IsLatest history d) ∧
          (overriding = false → r.definitions = history) := by
  intro r
  obtain ⟨history, h⟩ : ∃ history, Registry.History overriding parent? calls history r :=
    Registry.exists_history calls
  have hsound : r.catalog.Sound := h.follows.sound
  have hpolicy : r.overriding = overriding := (Registry.Reachable.empty.calls calls).overriding_eq
  refine ⟨⟨hsound.nodup_names, fun d hd => ?_⟩, fun name i => Registry.position?_eq_some_iff hsound,
    fun name hn d => hsound.component?_eq_some_iff_of_unmarked hn, fun name d => ?_,
    h.follows.sources, ⟨history, h⟩, fun history h => ?_⟩
  · have hvalid := hsound.valid d hd
    simpa [isValidName] using hvalid
  · rw [hsound.component?_eq_some_iff]
    simp [Registry.definitions]
  · exact ⟨h.follows.names, h.follows.latest, fun ho => h.follows.once (hpolicy.trans ho)⟩

/-- A component takes the place of its own configuration and of one registered before; names keep
their places. -/
theorem definitions_after_calls_overridden :
    let c : Configuration :=
      { declaration := { name := "c" }
        components := [{ declaration := { name := "c" } }, { declaration := { name := "a" } },
          { declaration := { name := "&b" } }] }
    let calls : List Call := [.register { name := "a" }, .runConfiguration .own c]
    let r := calls.foldl Registry.call (Registry.create true none)
    r.definitions.map (fun d => (d.name, d.source?)) = [("a", some "c"), ("c", some "c")] ∧
      ∃ history, Registry.History true none calls history r ∧
        r.definitions.map (·.name) = (history.map (·.name)).eraseDups := by
  intro c calls r
  obtain ⟨_, _, _, _, _, ⟨history, h⟩, hlaws⟩ := definitions_after_calls true none calls
  refine ⟨by decide +kernel, history, h, (hlaws history h).1⟩

end Componentry
