import Componentry.Proofs.Failure

/-!
# Componentry.Proofs.Overriding

What the permission to override definitions changes. Conditions cannot see the policy of a registry,
so two runs that differ in the policy alone stay in step until the stricter one stops at a name that
is taken (`Run.InStep`): every declaration is decided alike, and what one registry accepts or finds
not valid, so does the other. A run that may override never stops at a taken name
(`Plan.invalidName_of_overriding`). `overriding_conservative`: the permission changes nothing in a
build that succeeds without it or that fails at a name that is not valid.
-/

namespace Componentry

/-- The same registry, allowed to override its definitions. -/
def Registry.permissive (r : Registry) : Registry := { r with overriding := true }

namespace Run

def permissive (run : Run) : Run := { run with registry := run.registry.permissive }

/-- The run stopped at a name that is taken. -/
def IsDuplicate (run : Run) : Prop := ∃ name, run.error? = some (.duplicateName name)

theorem not_isDuplicate_of_none {run : Run} (h : run.error? = none) : ¬ run.IsDuplicate := by
  rintro ⟨name, hname⟩
  rw [h] at hname
  cases hname

/-- Unless `run` stopped at a taken name, `allowed` comes to the same with the permission to
override. -/
def InStep (run allowed : Run) : Prop := ¬ run.IsDuplicate → allowed = run.permissive

theorem InStep.andThen {run allowed : Run} {next : Registry → Run} (h : run.InStep allowed)
    (hnext : ∀ r, (next r).InStep (next r.permissive)) :
    (run.andThen next).InStep (allowed.andThen next) := by
  intro hd
  cases he : run.error? with
  | some e =>
    rw [andThen_of_error he] at hd ⊢
    have hallowed := h hd
    have herror : allowed.error? = some e := hallowed ▸ he
    rw [andThen_of_error herror, hallowed]
  | none =>
    have hallowed := h (not_isDuplicate_of_none he)
    have hnone : allowed.error? = none := hallowed ▸ he
    rw [andThen_of_none he] at hd ⊢
    have hsame : next allowed.registry = (next run.registry).permissive := by
      rw [hallowed]
      exact hnext run.registry hd
    rw [andThen_of_none hnone, hsame, hallowed]
    rfl

end Run

namespace Registry

variable {r r' : Registry} {d : Definition}

theorem define_permissive_of_ok (h : r.define d = .ok r') :
    r.permissive.define d = .ok r'.permissive := by
  obtain ⟨hvalid, _, rfl⟩ := define_eq_ok_iff.1 h
  exact define_eq_ok_iff.2 ⟨hvalid, Or.inl rfl, rfl⟩

/-- A name is valid or not in any registry. -/
theorem define_eq_invalidName_iff {name : String} :
    r.define d = .error (.invalidName name) ↔ isValidName d.name = false ∧ d.name = name := by
  cases hvalid : isValidName d.name with
  | false => simp [define, Catalog.register, hvalid, bind, Except.bind]
  | true =>
    cases htaken : (!r.overriding && (r.catalog.position? d.name).isSome) <;>
      simp [define, Catalog.register, hvalid, htaken, bind, Except.bind, pure, Except.pure]

theorem inStep_runDefine (r : Registry) (d : Definition) (events : List Event) :
    (r.runDefine d events).InStep (r.permissive.runDefine d events) := by
  intro h
  cases hd : r.define d with
  | ok r' =>
    rw [runDefine_of_ok hd, runDefine_of_ok (define_permissive_of_ok hd)]
    rfl
  | error e =>
    rw [runDefine_of_error hd] at h ⊢
    cases e with
    | duplicateName name => exact absurd ⟨name, rfl⟩ h
    | invalidName name =>
      have hinvalid := define_eq_invalidName_iff.1 hd
      rw [runDefine_of_error (define_eq_invalidName_iff.2 hinvalid)]
      rfl

/-- A declaration is decided in the same way under both policies. -/
@[simp] theorem admits_permissive (view : Viewpoint) (r : Registry) (conditions : List Condition)
    (subject : Subject) :
    r.permissive.admits view conditions subject = r.admits view conditions subject := rfl

theorem inStep_runComponent (view : Viewpoint) (source : String) (c : Registration)
    (r : Registry) :
    (r.runComponent view source c).InStep (r.permissive.runComponent view source c) := by
  rw [runComponent_eq, runComponent_eq, admits_permissive]
  split
  · exact inStep_runDefine _ _ _
  · exact fun _ => rfl

theorem inStep_runEach {α : Type} {step : α → Registry → Run}
    (h : ∀ x r, (step x r).InStep (step x r.permissive)) (xs : List α) (r : Registry) :
    (runEach step xs r).InStep (runEach step xs r.permissive) := by
  induction xs generalizing r with
  | nil => exact fun _ => rfl
  | cons x xs ih => exact (h x r).andThen ih

theorem inStep_runConfiguration (view : Viewpoint) (c : Configuration) (r : Registry) :
    (r.runConfiguration view c).InStep (r.permissive.runConfiguration view c) := by
  rw [runConfiguration_eq, runConfiguration_eq, admits_permissive]
  split
  · refine (inStep_runDefine _ _ _).andThen fun r => ?_
    rw [runComponents_eq_runEach]
    exact inStep_runEach (inStep_runComponent view _) _ r
  · exact fun _ => rfl

end Registry

namespace Plan

/-- The same plan under another policy. -/
def withOverriding (p : Plan) (overriding : Bool) : Plan := { p with overriding }

theorem inStep_run (p : Plan) :
    (p.withOverriding false).run.InStep (p.withOverriding true).run := by
  show (Registry.runConfigurations p.view p.ordered (.create false p.parent?)).InStep
    (Registry.runConfigurations p.view p.ordered (Registry.create false p.parent?).permissive)
  rw [Registry.runConfigurations_eq_runEach]
  exact Registry.inStep_runEach (Registry.inStep_runConfiguration p.view) p.ordered _

/-- Where definitions may be overridden, only a name that is not valid is refused. -/
theorem invalidName_of_overriding {p : Plan} {e : RegistryError} (ho : p.overriding = true)
    (h : p.build.value = .error e) : ∃ name, e = .invalidName name := by
  obtain ⟨before, c, after, _, _, hc⟩ := build_eq_error_iff.1 h
  have hintact : (p.runThrough before).registry.Intact :=
    Registry.kept_intact.runConfigurations _ _ (Registry.intact_create _ _)
  have hpolicy : ∀ {r : Registry} {name : String}, r.overriding = true → r.Refuses name e →
      ∃ name, e = .invalidName name := by
    intro r name hr hrefused
    cases hrefused with
    | invalid _ => exact ⟨_, rfl⟩
    | duplicate _ _ hr' _ =>
      rw [hr] at hr'
      cases hr'
  have hbefore : (p.runThrough before).registry.overriding = true :=
    (Registry.kept_overriding true).runConfigurations _ _ ho
  rcases Registry.stopsAt_runConfiguration hintact hc with ⟨hown, _⟩ | ⟨_, k, _, _, hk, _⟩
  · exact hpolicy hbefore hown.refused
  · exact hpolicy ((Registry.kept_overriding true).runConfiguration _ _ hbefore) hk.refused

end Plan

/-- The permission to override definitions is conservative. If a build succeeds without it, then it
also succeeds with it, and the registry differs in nothing but the policy. If it fails without it at
a name that is not valid, it fails with it in the same way. With it a build fails at no other
names, and only where it also fails without it. -/
theorem overriding_conservative (p : Plan) :
    let refused := (p.withOverriding false).build
    let allowed := (p.withOverriding true).build
    (∀ r, refused.value = .ok r →
      allowed.value = .ok { r with overriding := true } ∧ allowed.events = refused.events) ∧
    (∀ name, refused.value = .error (.invalidName name) →
      allowed.value = .error (.invalidName name) ∧ allowed.events = refused.events) ∧
    ∀ e, allowed.value = .error e →
      (∃ name, e = .invalidName name) ∧ ∃ e', refused.value = .error e' := by
  intro refused allowed
  have hevents : ¬ (p.withOverriding false).run.IsDuplicate → allowed.events = refused.events := by
    intro h
    show (p.withOverriding true).run.events = _
    rw [p.inStep_run h]
    rfl
  have hok : ∀ r, refused.value = .ok r →
      allowed.value = .ok { r with overriding := true } ∧ allowed.events = refused.events := by
    intro r h
    obtain ⟨hnone, rfl⟩ := Run.result_eq_ok_iff.1 h
    have hd := Run.not_isDuplicate_of_none hnone
    have hsame := p.inStep_run hd
    exact ⟨Run.result_eq_ok_iff.2 ⟨hsame ▸ hnone, congrArg Run.registry hsame⟩, hevents hd⟩
  refine ⟨hok, fun name h => ?_, fun e h => ⟨Plan.invalidName_of_overriding rfl h, ?_⟩⟩
  · have herror := Run.result_eq_error_iff.1 h
    have hd : ¬ (p.withOverriding false).run.IsDuplicate := by
      rintro ⟨taken, htaken⟩
      rw [herror] at htaken
      cases htaken
    exact ⟨Run.result_eq_error_iff.2 (p.inStep_run hd ▸ herror), hevents hd⟩
  · cases hr : refused.value with
    | error e' => exact ⟨e', rfl⟩
    | ok r =>
      have hallowed := (hok r hr).1
      rw [h] at hallowed
      cases hallowed

/-- The permission does not matter where a guard keeps a second provider of `T` out, nor at an empty
name. It takes the run past a taken name, to where a factory name is refused. -/
theorem overriding_conservative_taken :
    let t : Option ComponentType := some (.plain "T")
    let plan (components : List Registration) : Plan :=
      { configurations := [{ declaration := { name := "c" }, components }] }
    let guarded := plan [{ declaration := { name := "a", hint? := t } },
      { declaration := { name := "b", hint? := t }, conditions := [.ifMissing {}] }]
    let unnamed := plan [{ declaration := { name := "" } }]
    let taken := plan [{ declaration := { name := "a" } }, { declaration := { name := "a" } },
      { declaration := { name := "&z" } }]
    (∃ r, (guarded.withOverriding false).build.value = .ok r ∧
        r.definitions.map (·.name) = ["c", "a"] ∧
        (guarded.withOverriding true).build.value = .ok { r with overriding := true }) ∧
      (unnamed.withOverriding false).build.value = .error (.invalidName "") ∧
      (unnamed.withOverriding true).build.value = .error (.invalidName "") ∧
      (taken.withOverriding true).build.value = .error (.invalidName "&z") ∧
      (taken.withOverriding false).build.value = .error (.duplicateName "a") ∧
      ∃ e, (taken.withOverriding false).build.value = .error e := by
  intro t plan guarded unnamed taken
  have hrun : ∀ components overriding, ((plan components).withOverriding overriding).run =
      (Registry.create overriding none).runConfigurations .own (plan components).configurations :=
    fun _ _ => by simp [plan, Plan.run, Plan.ordered, Plan.withOverriding]
  have hguarded : (guarded.withOverriding false).build.value =
      .ok (guarded.withOverriding false).run.registry := by
    refine Run.result_eq_ok_iff.2 ⟨?_, rfl⟩
    rw [hrun]
    decide +kernel
  have hunnamed : (unnamed.withOverriding false).build.value = .error (.invalidName "") := by
    refine Run.result_eq_error_iff.2 ?_
    rw [hrun]
    decide +kernel
  have htaken : ∀ overriding, ((taken.withOverriding overriding).run).error? =
      some (if overriding then .invalidName "&z" else .duplicateName "a") := by
    intro overriding
    rw [hrun]
    cases overriding <;> decide +kernel
  have hallowed : (taken.withOverriding true).build.value = .error (.invalidName "&z") :=
    Run.result_eq_error_iff.2 (htaken true)
  refine ⟨⟨_, hguarded, ?_, ((overriding_conservative guarded).1 _ hguarded).1⟩, hunnamed,
    ((overriding_conservative unnamed).2.1 "" hunnamed).1, hallowed,
    Run.result_eq_error_iff.2 (htaken false),
    ((overriding_conservative taken).2.2 _ hallowed).2⟩
  rw [hrun]
  decide +kernel

end Componentry
