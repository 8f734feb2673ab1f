import Componentry.Proofs.Listing

/-!
# Componentry.Proofs.Shorthand

What a container adds to criteria. Criteria with a container match what criteria without it match
that name, right after each type, the container of that type as well (`Criteria.unfolded`). Open
criteria first take up the type that the guarded component implies. Both steps together are
`container_is_shorthand`. A component and one that wraps what it provides imply the same type, but
only one layer is taken off: the two are told apart where both of them are containers
(`nested_containers_differ`).
-/

namespace Componentry

/-- The same criteria without a container, spelling out each type that the container adds. -/
def Criteria.unfolded (c : Criteria) (container : ComponentType) : Criteria :=
  { c with
    types := c.types.flatMap fun t => [t, container.containing t]
    ignored := c.ignored.flatMap fun t => [t, container.containing t]
    container? := none }

/-- Both have the same names, in the same order, and so both match or neither does. -/
structure Match.SameNames (m m' : Match) : Prop where
  matched : m.matched = m'.matched
  names : m.names = m'.names

theorem Match.SameNames.of_names {m m' : Match} (h : m.names = m'.names) : m.SameNames m' where
  matched := by rw [Match.matched, Match.matched, h]
  names := h

/-! ## Spelling out the container -/

theorem Criteria.isGiven_withType (c : Criteria) (target : ComponentType) :
    (c.withType target).IsGiven := by
  refine Or.inr (Or.inl ?_)
  simp [Criteria.withType]

theorem Criteria.isGiven_unfolded {c : Criteria} (h : c.IsGiven) (container : ComponentType) :
    (c.unfolded container).IsGiven := by
  rcases h with h | h | h
  · exact Or.inl h
  · obtain ⟨t, ht⟩ := List.exists_mem_of_ne_nil _ h
    refine Or.inr (Or.inl (List.ne_nil_of_mem (a := t) ?_))
    exact List.mem_flatMap.2 ⟨t, ht, List.mem_cons_self⟩
  · exact Or.inr (Or.inr h)

/-- Both list the same types, one after the other, so they match the same names. -/
theorem sameNames_evaluate_unfolded {r : Registry} {ancestors : List Registry}
    (h : Lineage (r :: ancestors)) {c : Criteria} {container : ComponentType} (hgiven : c.IsGiven)
    (hc : c.container? = some container) (subject : Subject) :
    (evaluate subject c r.hierarchy).value.SameNames
      (evaluate subject (c.unfolded container) r.hierarchy).value := by
  refine .of_names ?_
  rw [names_evaluate_eq_listed h hgiven,
    names_evaluate_eq_listed h (Criteria.isGiven_unfolded hgiven container), hc]
  simp only [Criteria.unfolded, ComponentType.flatMap_alternatives_none]
  rfl

/-! ## Taking up the implied type -/

theorem Subject.Implies.of_not_wraps {d : Declaration} {container produced : ComponentType}
    (hp : d.produced? = some produced) (h : ∀ element, ¬ produced.Wraps container element) :
    (Subject.component d).Implies (some container) produced := by
  refine .produced hp ?_
  rintro _ ⟨⟩
  exact h

/-- Open criteria are evaluated as if they named the implied type. -/
theorem evaluate_of_implies {c : Criteria} {subject : Subject} {container target : ComponentType}
    (hopen : ¬ c.IsGiven) (hc : c.container? = some container)
    (ht : subject.Implies (some container) target) (h : Hierarchy) :
    evaluate subject c h = evaluate subject (c.withType target) h := by
  have hopen : c.isOpen = true := Classical.not_not.1 fun ho => hopen (Criteria.isGiven_iff.2 ho)
  rw [evaluate_of_isGiven (c.isGiven_withType target), evaluate, Criteria.forSubject?, if_pos hopen,
    hc, Subject.implies_iff.1 ht, Option.map_some]

/-- Criteria with a container are shorthand for those that spell it out. Open criteria that guard a
component are so after taking up the type that the component implies: the element of what it
produces, if that wraps it in the container, and what it produces otherwise. Hence guards on a type
that is no such container and on a container that wraps it find the same. -/
theorem container_is_shorthand {r : Registry} {ancestors : List Registry}
    (h : Lineage (r :: ancestors)) {c : Criteria} {container : ComponentType}
    (hc : c.container? = some container) :
    let found (subject : Subject) (c : Criteria) : Match := (evaluate subject c r.hierarchy).value
    (c.IsGiven → ∀ subject, (found subject c).SameNames (found subject (c.unfolded container))) ∧
    (¬ c.IsGiven → ∀ (d : Declaration) (produced : ComponentType), d.produced? = some produced →
      (∀ element, produced.Wraps container element → (found (.component d) c).SameNames
        (found (.component d) ((c.withType element).unfolded container))) ∧
      ((∀ element, ¬ produced.Wraps container element) → (found (.component d) c).SameNames
        (found (.component d) ((c.withType produced).unfolded container)))) ∧
    (¬ c.IsGiven → ∀ (d d' : Declaration) (bare wrapped : ComponentType),
      d.produced? = some bare → (∀ element, ¬ bare.Wraps container element) →
      d'.produced? = some wrapped → wrapped.Wraps container bare →
      found (.component d) c = found (.component d') c) := by
  intro found
  have himplied : ¬ c.IsGiven → ∀ subject target, subject.Implies (some container) target →
      (found subject c).SameNames (found subject ((c.withType target).unfolded container)) := by
    intro hopen subject target ht
    rw [show found subject c = found subject (c.withType target) from
      congrArg (·.value) (evaluate_of_implies hopen hc ht r.hierarchy)]
    exact sameNames_evaluate_unfolded h (c.isGiven_withType target) hc subject
  refine ⟨fun hgiven subject => sameNames_evaluate_unfolded h hgiven hc subject,
    fun hopen d produced hp => ⟨fun element hw => ?_, fun hw => ?_⟩,
    fun hopen d d' bare wrapped hp hbare hp' hwrapped => ?_⟩
  · exact himplied hopen _ _ (.element hp rfl hw)
  · exact himplied hopen _ _ (.of_not_wraps hp hw)
  · have hgiven := c.isGiven_withType bare
    have hsame : evaluate (.component d) c r.hierarchy =
        evaluate (.component d') c r.hierarchy := by
      rw [evaluate_of_implies hopen hc (.of_not_wraps hp hbare),
        evaluate_of_implies hopen hc (.element hp' rfl hwrapped),
        evaluate_of_isGiven hgiven, evaluate_of_isGiven hgiven]
    exact congrArg (·.value) hsame

/-- Guards on `T` and on `Box<T>` both find a `T` of the parent and a `Box<T>` of the child. -/
theorem container_is_shorthand_boxed :
    let box : ComponentType := .plain "Box"
    let t : ComponentType := .plain "T"
    let parent := (Registry.create false none).call (.register { name := "t", hint? := some t })
    let child := (Registry.create false (some parent.hierarchy)).call
      (.register { name := "b", hint? := some (box.containing t) })
    let given : Criteria := { types := [t], container? := some box }
    let guard : Criteria := { container? := some box }
    let bare : Declaration := { name := "bare", hint? := some t }
    let boxed : Declaration := { name := "boxed", hint? := some (box.containing t) }
    let found (subject : Subject) (c : Criteria) : Match :=
      (evaluate subject c child.hierarchy).value
    Lineage [child, parent] ∧ given.IsGiven ∧ ¬ guard.IsGiven ∧
      (∀ element, ¬ t.Wraps box element) ∧ (box.containing t).Wraps box t ∧
      (found (.component bare) given).names = ["t", "b"] ∧
      (found (.component bare) given).SameNames (found (.component bare) (given.unfolded box)) ∧
      (found (.component bare) guard).SameNames
        (found (.component bare) ((guard.withType t).unfolded box)) ∧
      (found (.component boxed) guard).SameNames
        (found (.component boxed) ((guard.withType t).unfolded box)) ∧
      found (.component bare) guard = found (.component boxed) guard := by
  intro box t parent child given guard bare boxed found
  have hlineage : Lineage [child, parent] := .child (.root (.call .empty _)) (.call .empty _)
  have hgiven : given.IsGiven := Or.inr (Or.inl (by decide))
  have hguard : ¬ guard.IsGiven := fun h => absurd h (by simp [Criteria.IsGiven, guard])
  have hbare : ∀ element, ¬ t.Wraps box element := fun _ h => nomatch h.element?
  have hboxed : (box.containing t).Wraps box t := ⟨by decide, rfl⟩
  obtain ⟨hspelled, _, _⟩ :=
    container_is_shorthand hlineage (show given.container? = some box from rfl)
  obtain ⟨_, himplied, hsame⟩ :=
    container_is_shorthand hlineage (show guard.container? = some box from rfl)
  exact ⟨hlineage, hgiven, hguard, hbare, hboxed, by decide +kernel, hspelled hgiven _,
    (himplied hguard bare t rfl).2 hbare, (himplied hguard boxed _ rfl).1 t hboxed,
    hsame hguard bare boxed t _ rfl hbare rfl hboxed⟩

/-- A `Box<T>` implies `T`, and a `Box<Box<T>>` implies `Box<T>`, so a `T` keeps out the one and not
the other. -/
theorem nested_containers_differ :
    let box : ComponentType := .plain "Box"
    let inner : ComponentType := box.containing (.plain "T")
    let r := (Registry.create false none).call
      (.register { name := "t", hint? := some (.plain "T") })
    let guard : Criteria := { container? := some box }
    let found (produced : ComponentType) : Match :=
      (evaluate (.component { name := "d", hint? := some produced }) guard r.hierarchy).value
    Lineage [r] ∧ ¬ guard.IsGiven ∧ (box.containing inner).Wraps box inner ∧
      (found inner).names = ["t"] ∧ (found (box.containing inner)).names = [] ∧
      ¬ (found inner).SameNames (found (box.containing inner)) := by
  intro box inner r guard found
  have hguard : ¬ guard.IsGiven := fun h => absurd h (by simp [Criteria.IsGiven, guard])
  have hinner : (found inner).names = ["t"] := by decide +kernel
  have houter : (found (box.containing inner)).names = [] := by decide +kernel
  refine ⟨.root (.call .empty _), hguard, ⟨by decide, rfl⟩, hinner, houter, fun hsame => ?_⟩
  have hnames := hsame.names
  rw [hinner, houter] at hnames
  cases hnames

end Componentry
