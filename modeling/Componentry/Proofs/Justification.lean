import Componentry.Proofs.Order
import Componentry.Proofs.Run

/-!
# Componentry.Proofs.Justification

Why an assembled registry holds what it holds. `ConfigurationsAdd` goes through configurations and
tells from the definitions before each declaration whether it is added: all its conditions have to
match what is seen of a registry that holds exactly these definitions (`Registry.holding`). No run
is needed to say so. `build_justified`: a build adds the definitions that are justified in this way
by its own order.
-/

namespace Componentry

/-! ## Registries by their definitions -/

/-- The catalog that holds definitions in a given order. -/
def Catalog.holding (definitions : List Definition) : Catalog :=
  definitions.foldl Roster.put .empty

/-- The registry below a parent that holds definitions in a given order. -/
def Registry.holding (parent? : Option Hierarchy) (definitions : List Definition) : Registry :=
  { Registry.create false parent? with catalog := .holding definitions }

namespace Catalog

theorem holding_concat (definitions : List Definition) (d : Definition) :
    holding (definitions ++ [d]) = (holding definitions).put d := by
  rw [holding, List.foldl_append]
  rfl

theorem definitions_foldl_put {c : Catalog} (wf : c.WellFormed) {definitions : List Definition}
    (h : ((c.definitions ++ definitions).map (·.name)).Nodup) :
    Catalog.definitions (definitions.foldl Roster.put c) = c.definitions ++ definitions := by
  induction definitions generalizing c with
  | nil => exact (List.append_nil _).symm
  | cons d ds ih =>
    have hnew : c.position? d.name = none := by
      rw [wf.position?_eq_none_iff, wf.get?_eq_none_iff]
      intro e he
      rw [List.map_append, List.nodup_append] at h
      exact h.2.2 _ (List.mem_map_of_mem he) _ (List.mem_map_of_mem List.mem_cons_self)
    have hput : Catalog.definitions (c.put d) = c.definitions ++ [d] :=
      Roster.toList_put_of_none hnew
    rw [List.append_cons, ← hput] at h ⊢
    exact ih (wf.put d) h

/-- Definitions with names of their own are held as they are given. -/
theorem definitions_holding {definitions : List Definition}
    (h : (definitions.map (·.name)).Nodup) : (holding definitions).definitions = definitions :=
  definitions_foldl_put Roster.wellFormed_empty h

end Catalog

namespace Registry

/-- What a registry without a report to it is known by: its definitions in order. -/
structure Holds (parent? : Option Hierarchy) (definitions : List Definition) (r : Registry) :
    Prop where
  catalog : r.catalog = .holding definitions
  ancestors : r.ancestors = (create false parent?).ancestors
  overriding : r.overriding = false
  definitions : r.definitions = definitions

namespace Holds

variable {parent? : Option Hierarchy} {definitions : List Definition} {r : Registry}

theorem create : Holds parent? [] (create false parent?) := ⟨rfl, rfl, rfl, rfl⟩

theorem hierarchy (h : Holds parent? definitions r) :
    r.hierarchy = (holding parent? definitions).hierarchy := by
  rw [Registry.hierarchy, Registry.hierarchy, h.catalog, h.ancestors]
  rfl

theorem record (h : Holds parent? definitions r) (source : String) (verdicts : List Verdict) :
    Holds parent? definitions (r.record source verdicts) :=
  ⟨h.catalog, h.ancestors, h.overriding, h.definitions⟩

theorem define (h : Holds parent? definitions r) {r' : Registry} {d : Definition}
    (hd : r.define d = .ok r') : Holds parent? (definitions ++ [d]) r' := by
  have hdefinitions := definitions_define h.overriding hd
  obtain ⟨_, _, rfl⟩ := define_eq_ok_iff.1 hd
  refine ⟨?_, h.ancestors, h.overriding, ?_⟩
  · rw [Catalog.holding_concat, ← h.catalog]
  · rw [← h.definitions]
    exact hdefinitions

end Holds
end Registry

/-! ## What definitions justify -/

/-- All conditions match what is seen of a registry with given definitions. -/
def Justified (parent? : Option Hierarchy) (before : List Definition)
    (conditions : List Condition) (subject : Subject) : Prop :=
  ∀ k ∈ conditions, k.isMet (Registry.holding parent? before).hierarchy subject = true

/-- The definitions that the components of one configuration add to those before them. -/
inductive ComponentsAdd (parent? : Option Hierarchy) (source : String) :
    List Definition → List Registration → List Definition → Prop where
  | none {before : List Definition} : ComponentsAdd parent? source before [] []
  | registered {before added : List Definition} {c : Registration} {cs : List Registration} :
      Justified parent? before c.conditions (.component c.declaration) →
      ComponentsAdd parent? source (before ++ [c.definition source]) cs added →
      ComponentsAdd parent? source before (c :: cs) (c.definition source :: added)
  | skipped {before added : List Definition} {c : Registration} {cs : List Registration} :
      ¬ Justified parent? before c.conditions (.component c.declaration) →
      ComponentsAdd parent? source before cs added →
      ComponentsAdd parent? source before (c :: cs) added

/-- The definitions that configurations add to those before them: each adds its own definition and
those of its components, or nothing at all. -/
inductive ConfigurationsAdd (parent? : Option Hierarchy) :
    List Definition → List Configuration → List Definition → Prop where
  | none {before : List Definition} : ConfigurationsAdd parent? before [] []
  | registered {before added later : List Definition} {c : Configuration}
      {cs : List Configuration} :
      Justified parent? before c.conditions (.configuration c.declaration) →
      ComponentsAdd parent? c.declaration.name (before ++ [c.definition]) c.components added →
      ConfigurationsAdd parent? (before ++ c.definition :: added) cs later →
      ConfigurationsAdd parent? before (c :: cs) (c.definition :: added ++ later)
  | skipped {before later : List Definition} {c : Configuration} {cs : List Configuration} :
      ¬ Justified parent? before c.conditions (.configuration c.declaration) →
      ConfigurationsAdd parent? before cs later →
      ConfigurationsAdd parent? before (c :: cs) later

namespace Registry.Holds

variable {parent? : Option Hierarchy} {before : List Definition} {r : Registry}

/-- A run sees of its registry what the definitions before say. -/
theorem admits_own_iff (h : Holds parent? before r) {conditions : List Condition}
    {subject : Subject} :
    r.admits .own conditions subject = true ↔ Justified parent? before conditions subject := by
  rw [admits, List.all_eq_true, Viewpoint.own, id, h.hierarchy, Justified]

theorem not_justified (h : Holds parent? before r) {conditions : List Condition}
    {subject : Subject} (ha : r.admits .own conditions subject = false) :
    ¬ Justified parent? before conditions subject := by
  rw [← h.admits_own_iff, ha]
  exact Bool.false_ne_true

theorem runComponents {source : String} {cs : List Registration} (h : Holds parent? before r)
    (hok : (r.runComponents .own source cs).error? = none) :
    ∃ added, ComponentsAdd parent? source before cs added ∧
      Holds parent? (before ++ added) (r.runComponents .own source cs).registry := by
  induction cs generalizing before r with
  | nil => exact ⟨[], .none, (List.append_nil before).symm ▸ h⟩
  | cons c cs ih =>
    rw [Registry.runComponents] at hok ⊢
    obtain ⟨hc, hcs⟩ := Run.error?_andThen_eq_none_iff.1 hok
    rw [Run.registry_andThen_of_none hc]
    rcases runComponent_cases hc with ⟨ha, hd⟩ | ⟨ha, hr⟩
    · obtain ⟨added, hadded, hlast⟩ := ih ((h.record _ _).define hd) hcs
      rw [← List.append_cons] at hlast
      exact ⟨_, .registered (h.admits_own_iff.1 ha) hadded, hlast⟩
    · rw [hr] at hcs ⊢
      obtain ⟨added, hadded, hlast⟩ := ih (h.record _ _) hcs
      exact ⟨added, .skipped (h.not_justified ha) hadded, hlast⟩

theorem runConfigurations {cs : List Configuration} (h : Holds parent? before r)
    (hok : (r.runConfigurations .own cs).error? = none) :
    ∃ added, ConfigurationsAdd parent? before cs added ∧
      Holds parent? (before ++ added) (r.runConfigurations .own cs).registry := by
  induction cs generalizing before r with
  | nil => exact ⟨[], .none, (List.append_nil before).symm ▸ h⟩
  | cons c cs ih =>
    rw [Registry.runConfigurations] at hok ⊢
    obtain ⟨hc, hcs⟩ := Run.error?_andThen_eq_none_iff.1 hok
    rw [Run.registry_andThen_of_none hc]
    rcases runConfiguration_cases hc with ⟨ha, opened, hd, hcomponents, hr⟩ | ⟨ha, hr⟩
    · obtain ⟨added, hadded, hopened⟩ := ((h.record _ _).define hd).runComponents hcomponents
      rw [← hr, ← List.append_cons] at hopened
      obtain ⟨later, hlater, hlast⟩ := ih hopened hcs
      rw [List.append_assoc] at hlast
      exact ⟨_, .registered (h.admits_own_iff.1 ha) hadded hlater, hlast⟩
    · rw [hr] at hcs ⊢
      obtain ⟨later, hlater, hlast⟩ := ih (h.record _ _) hcs
      exact ⟨later, .skipped (h.not_justified ha) hlater, hlast⟩

end Registry.Holds

/-! ## Where a definition comes from -/

/-- A definition with what is justified by the definitions before it. -/
inductive Origin (parent? : Option Hierarchy) (configurations : List Configuration)
    (before : List Definition) : Definition → Prop where
  | configuration {c : Configuration} : c ∈ configurations →
      Justified parent? before c.conditions (.configuration c.declaration) →
      Origin parent? configurations before c.definition
  | component {c : Configuration} {k : Registration} : c ∈ configurations →
      c.definition ∈ before → k ∈ c.components →
      Justified parent? before k.conditions (.component k.declaration) →
      Origin parent? configurations before (k.definition c.declaration.name)

theorem Origin.cons {parent? : Option Hierarchy} {c : Configuration} {cs : List Configuration}
    {before : List Definition} {d : Definition} (h : Origin parent? cs before d) :
    Origin parent? (c :: cs) before d := by
  cases h with
  | configuration hc hj => exact .configuration (List.mem_cons_of_mem c hc) hj
  | component hc hbefore hk hj => exact .component (List.mem_cons_of_mem c hc) hbefore hk hj

theorem ComponentsAdd.exists_of_split {parent? : Option Hierarchy} {source : String}
    {before added front back : List Definition} {cs : List Registration} {d : Definition}
    (h : ComponentsAdd parent? source before cs added) (hs : added = front ++ d :: back) :
    ∃ k ∈ cs, d = k.definition source ∧
      Justified parent? (before ++ front) k.conditions (.component k.declaration) := by
  induction h generalizing front with
  | none => exact absurd hs.symm (List.append_ne_nil_of_right_ne_nil _ (List.cons_ne_nil _ _))
  | registered hj _ ih =>
    rcases List.cons_eq_append_iff.1 hs with ⟨rfl, heq⟩ | ⟨front, rfl, heq⟩
    · cases heq
      exact ⟨_, List.mem_cons_self, rfl, (List.append_nil _).symm ▸ hj⟩
    · obtain ⟨k, hk, hd, hj⟩ := ih heq
      rw [← List.append_cons] at hj
      exact ⟨k, List.mem_cons_of_mem _ hk, hd, hj⟩
  | skipped _ _ ih =>
    obtain ⟨k, hk, hd, hj⟩ := ih hs
    exact ⟨k, List.mem_cons_of_mem _ hk, hd, hj⟩

theorem ConfigurationsAdd.origin_of_split {parent? : Option Hierarchy}
    {before added front back : List Definition} {cs : List Configuration} {d : Definition}
    (h : ConfigurationsAdd parent? before cs added) (hs : added = front ++ d :: back) :
    Origin parent? cs (before ++ front) d := by
  induction h generalizing front with
  | none => exact absurd hs.symm (List.append_ne_nil_of_right_ne_nil _ (List.cons_ne_nil _ _))
  | @registered before added later c cs hj hcomponents _ ih =>
    rcases List.cons_eq_append_iff.1 hs with ⟨rfl, heq⟩ | ⟨rest, rfl, heq⟩
    · cases heq
      exact .configuration List.mem_cons_self ((List.append_nil before).symm ▸ hj)
    · -- the definition is one of a component, or one of a later configuration
      rcases List.append_eq_append_iff.1 heq with ⟨skipped, rfl, hlater⟩ | ⟨own, hadded, hback⟩
      · have ho := ih hlater
        rw [List.append_assoc] at ho
        exact ho.cons
      · rcases List.cons_eq_append_iff.1 hback with ⟨rfl, hlater⟩ | ⟨own, rfl, _⟩
        · have ho : Origin parent? cs (before ++ c.definition :: added ++ []) d := ih hlater
          rw [List.append_nil] at hadded
          rw [List.append_nil, hadded] at ho
          exact ho.cons
        · obtain ⟨k, hk, rfl, hkj⟩ := hcomponents.exists_of_split hadded
          rw [← List.append_cons] at hkj
          exact .component List.mem_cons_self (by simp) hk hkj
  | skipped _ _ ih => exact (ih hs).cons

/-- A build holds the definitions that its configurations add in their order. Each definition is
justified by exactly those before it, and a configuration or a component that is not justified by
what was added before adds nothing. -/
theorem build_justified {p : Plan} {r : Registry} (hover : p.overriding = false)
    (hview : p.view = .own) (h : p.build.value = .ok r) :
    StableDescending p.configurations p.ordered ∧
      ConfigurationsAdd p.parent? [] p.ordered r.definitions ∧
      (∀ before, before <+: r.definitions →
        (Registry.holding p.parent? before).definitions = before) ∧
      ∀ before d after, r.definitions = before ++ d :: after →
        Origin p.parent? p.ordered before d := by
  obtain ⟨hok, hr⟩ := Run.result_eq_ok_iff.1 h
  rw [Plan.run, hover, hview] at hok hr
  obtain ⟨added, hadded, hlast⟩ := Registry.Holds.create.runConfigurations hok
  rw [hr] at hlast
  have hdefinitions : r.definitions = added := hlast.definitions
  have hsound : r.catalog.Sound := by
    rw [← hr]
    exact Registry.kept_sound.runConfigurations _ _ Catalog.sound_empty
  refine ⟨p.stableDescending_ordered, hdefinitions ▸ hadded, ?_, ?_⟩
  · intro before hp
    exact Catalog.definitions_holding (hsound.nodup_names.sublist (hp.map _).sublist)
  · intro before d after hs
    exact hadded.origin_of_split (hdefinitions ▸ hs)

/-- The configuration that is submitted last runs first, so what it provides is there already for
the condition in the other one. -/
theorem build_justified_by_priority :
    let early : Configuration :=
      { declaration := { name := "early" }
        priority := 2
        components := [{ declaration := { name := "a", hint? := some (.plain "T") } }] }
    let late : Configuration :=
      { declaration := { name := "late" }
        priority := 1
        components := [{ declaration := { name := "b", hint? := some (.plain "T") }
                         conditions := [.ifMissing {}] }] }
    let p : Plan := { configurations := [late, early] }
    p.overriding = false ∧ p.view = .own ∧ ∃ r, p.build.value = .ok r ∧
      r.definitions.map (·.name) = ["early", "a", "late"] ∧
      ConfigurationsAdd none [] [early, late] r.definitions := by
  intro early late p
  have hordered : p.ordered = [early, late] := by
    simp [p, Plan.ordered, List.mergeSort, early, late]
  have hrun : p.run = (Registry.create false none).runConfigurations .own [early, late] := by
    rw [Plan.run, hordered]
  have hok : p.build.value = .ok p.run.registry := by
    refine Run.result_eq_ok_iff.2 ⟨?_, rfl⟩
    rw [hrun]
    decide +kernel
  refine ⟨rfl, rfl, p.run.registry, hok, ?_, ?_⟩
  · rw [hrun]
    decide +kernel
  · rw [← hordered]
    exact (build_justified rfl rfl hok).2.1

end Componentry
