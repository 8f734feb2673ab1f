import Componentry.Proofs.Meaning

/-!
# Componentry.Proofs.Combination

Evaluations of criteria that are put together. Criteria are alternatives, so criteria of two kinds
at once find what either of them finds; each ignored type takes names away, so two lists of them
leave what both leave. All follows from what a name has to meet (`mem_names_evaluate_iff`): it is
looked for (`IsSought`) and not ignored (`IsIgnored`). `evaluate_combines`: what is matched is
settled by which criteria there are, not by their order or their number.
-/

namespace Componentry

namespace Criteria

/-- Criteria that look for what either of two look for, where the first ones look for it. -/
def alongside (c c' : Criteria) : Criteria :=
  { c with
    names := c.names ++ c'.names
    types := c.types ++ c'.types
    annotations := c.annotations ++ c'.annotations }

/-- The same criteria, ignoring other types. -/
def ignoring (c : Criteria) (ignored : List ComponentType) : Criteria := { c with ignored }

/-- Both look in the same places and past the same types. -/
structure SearchAlike (c c' : Criteria) : Prop where
  ignored : c.ignored = c'.ignored
  container? : c.container? = c'.container?
  reach : c.reach = c'.reach

/-- Both have the same criteria and ignore the same types, in any order and any number. -/
structure SameMembers (c c' : Criteria) : Prop where
  names : ∀ name, name ∈ c.names ↔ name ∈ c'.names
  types : ∀ t, t ∈ c.types ↔ t ∈ c'.types
  annotations : ∀ a, a ∈ c.annotations ↔ a ∈ c'.annotations
  ignored : ∀ t, t ∈ c.ignored ↔ t ∈ c'.ignored
  container? : c.container? = c'.container?
  reach : c.reach = c'.reach

/-- A name is found for a type that is ignored. -/
def IsIgnored (c : Criteria) (levels : List Level) (name : String) : Prop :=
  ∃ t ∈ c.ignored, ∃ d, FoundForType levels c.container? t name d

/-- A name is a candidate for a type or an annotation, or asked for by name and registered. -/
def IsSought (c : Criteria) (levels : List Level) (name : String) : Prop :=
  (∃ d, ((∃ t ∈ c.types, FoundForType levels c.container? t name d) ∨
      ∃ a ∈ c.annotations, FoundAt levels (·.namesAnnotated a) name d) ∧
        CandidateAt levels name d) ∨
    (name ∈ c.names ∧ ∃ level ∈ levels, level.isRegistered name = true)

variable {c c' : Criteria} {levels : List Level} {name : String}

theorem meets_iff : Meets c levels name ↔ ¬ c.IsIgnored levels name ∧ c.IsSought levels name :=
  Iff.rfl

theorem isIgnored_ignoring_append {I J : List ComponentType} :
    (c.ignoring (I ++ J)).IsIgnored levels name ↔
      (c.ignoring I).IsIgnored levels name ∨ (c.ignoring J).IsIgnored levels name := by
  simp only [IsIgnored, ignoring, List.mem_append, or_and_right, exists_or]

theorem isSought_alongside (h : c.container? = c'.container?) :
    (c.alongside c').IsSought levels name ↔ c.IsSought levels name ∨ c'.IsSought levels name := by
  simp only [IsSought, alongside, List.mem_append, or_and_right, exists_or, h]
  exact (or_congr_left or_or_or_comm).trans or_or_or_comm

@[simp] theorem reach_alongside (c c' : Criteria) : (c.alongside c').reach = c.reach := rfl

theorem meets_alongside (h : c.SearchAlike c') :
    Meets (c.alongside c') levels name ↔ Meets c levels name ∨ Meets c' levels name := by
  have hignored : c'.IsIgnored levels name ↔ c.IsIgnored levels name := by
    rw [IsIgnored, IsIgnored, h.ignored, h.container?]
  rw [meets_iff, meets_iff, meets_iff, isSought_alongside h.container?, hignored]
  exact and_or_left

theorem meets_ignoring_append {I J : List ComponentType} :
    Meets (c.ignoring (I ++ J)) levels name ↔
      Meets (c.ignoring I) levels name ∧ Meets (c.ignoring J) levels name := by
  -- what is sought does not depend on what is ignored
  have hsought : ∀ ignored, (c.ignoring ignored).IsSought levels name ↔ c.IsSought levels name :=
    fun _ => Iff.rfl
  rw [meets_iff, meets_iff, meets_iff, isIgnored_ignoring_append, not_or, hsought, hsought, hsought]
  exact and_and_right

theorem SameMembers.meets_iff (h : c.SameMembers c') :
    Meets c levels name ↔ Meets c' levels name := by
  simp only [Meets, h.names, h.types, h.annotations, h.ignored, h.container?]

/-! ## Criteria in effect -/

theorem isGiven_alongside (h : c.IsGiven) (c' : Criteria) : (c.alongside c').IsGiven := by
  rcases h with h | h | h
  · exact Or.inl (List.append_ne_nil_of_left_ne_nil h _)
  · exact Or.inr (Or.inl (List.append_ne_nil_of_left_ne_nil h _))
  · exact Or.inr (Or.inr (List.append_ne_nil_of_left_ne_nil h _))

/-- What is ignored plays no part in which type is implied. -/
theorem forSubject?_ignoring (c : Criteria) (ignored : List ComponentType) (subject : Subject) :
    (c.ignoring ignored).forSubject? subject =
      (c.forSubject? subject).map (·.ignoring ignored) := by
  have hopen : (c.ignoring ignored).isOpen = c.isOpen := rfl
  rw [forSubject?, forSubject?, hopen]
  cases c.isOpen with
  | true =>
    rw [if_pos rfl, if_pos rfl, Option.map_map]
    rfl
  | false => rfl

theorem SameMembers.isOpen_eq (h : c.SameMembers c') : c.isOpen = c'.isOpen := by
  have hnil : ∀ {α : Type} {xs ys : List α}, (∀ x, x ∈ xs ↔ x ∈ ys) → (xs = [] ↔ ys = []) := by
    intro α xs ys hmem
    rw [List.eq_nil_iff_forall_not_mem, List.eq_nil_iff_forall_not_mem]
    exact forall_congr' fun x => not_congr (hmem x)
  rw [Bool.eq_iff_iff, isOpen_iff, isOpen_iff, hnil h.names, hnil h.types, hnil h.annotations]

theorem SameMembers.withType (h : c.SameMembers c') (target : ComponentType) :
    (c.withType target).SameMembers (c'.withType target) where
  names := h.names
  types t := by simp only [Criteria.withType, List.mem_append, h.types]
  annotations := h.annotations
  ignored := h.ignored
  container? := h.container?
  reach := h.reach

theorem SameMembers.exists_forSubject? (h : c.SameMembers c') {subject : Subject} {e : Criteria}
    (he : c.forSubject? subject = some e) :
    ∃ e', c'.forSubject? subject = some e' ∧ e.SameMembers e' := by
  rw [forSubject?, h.isOpen_eq, h.container?] at he
  rw [forSubject?]
  cases hopen : c'.isOpen with
  | true =>
    rw [hopen, if_pos rfl, Option.map_eq_some_iff] at he
    obtain ⟨target, himplied, rfl⟩ := he
    exact ⟨c'.withType target, by rw [if_pos rfl, himplied, Option.map_some], h.withType target⟩
  | false =>
    rw [hopen] at he
    cases he
    exact ⟨c', rfl, h⟩

theorem SameMembers.symm (h : c.SameMembers c') : c'.SameMembers c where
  names name := (h.names name).symm
  types t := (h.types t).symm
  annotations a := (h.annotations a).symm
  ignored t := (h.ignored t).symm
  container? := h.container?.symm
  reach := h.reach.symm

end Criteria

theorem mem_names_evaluate_of_sameMembers {subject : Subject} {c c' : Criteria} {h : Hierarchy}
    {name : String} (hsame : c.SameMembers c')
    (hn : name ∈ (evaluate subject c h).value.names) :
    name ∈ (evaluate subject c' h).value.names := by
  obtain ⟨e, he, hm⟩ := mem_names_evaluate_iff.1 hn
  obtain ⟨e', he', hsame'⟩ := hsame.exists_forSubject? he
  exact mem_names_evaluate_iff.2 ⟨e', he', hsame'.reach ▸ hsame'.meets_iff.1 hm⟩

/-- An evaluation is settled by which criteria there are. Criteria of two searches that are alike
otherwise match what either of them matches; with two lists of ignored types those names are left
that both lists leave; and neither order nor repetition matters to what is matched. -/
theorem evaluate_combines (subject : Subject) (h : Hierarchy) :
    (∀ c c' : Criteria, c.IsGiven → c'.IsGiven → c.SearchAlike c' →
      (∀ name, name ∈ (evaluate subject (c.alongside c') h).value.names ↔
        name ∈ (evaluate subject c h).value.names ∨
          name ∈ (evaluate subject c' h).value.names) ∧
      ((evaluate subject (c.alongside c') h).value.matched = true ↔
        (evaluate subject c h).value.matched = true ∨
          (evaluate subject c' h).value.matched = true)) ∧
    (∀ (c : Criteria) (I J : List ComponentType) (name : String),
      name ∈ (evaluate subject (c.ignoring (I ++ J)) h).value.names ↔
        name ∈ (evaluate subject (c.ignoring I) h).value.names ∧
          name ∈ (evaluate subject (c.ignoring J) h).value.names) ∧
    ∀ c c' : Criteria, c.SameMembers c' →
      ∀ name, name ∈ (evaluate subject c h).value.names ↔
        name ∈ (evaluate subject c' h).value.names := by
  refine ⟨fun c c' hc hc' hlike => ?_, fun c I J name => ?_, fun c c' hsame name => ?_⟩
  · have hnames : ∀ name, name ∈ (evaluate subject (c.alongside c') h).value.names ↔
        name ∈ (evaluate subject c h).value.names ∨
          name ∈ (evaluate subject c' h).value.names := by
      intro name
      rw [mem_names_evaluate_iff_of_isGiven hc, mem_names_evaluate_iff_of_isGiven hc',
        mem_names_evaluate_iff_of_isGiven (Criteria.isGiven_alongside hc c'),
        Criteria.reach_alongside, ← hlike.reach]
      exact Criteria.meets_alongside hlike
    refine ⟨hnames, ?_⟩
    simp only [Match.matched_iff_exists, hnames, exists_or]
  · simp only [mem_names_evaluate_iff, Criteria.forSubject?_ignoring]
    cases c.forSubject? subject with
    | none => simp
    | some e =>
      simp only [Option.map_some, Option.some.injEq, exists_eq_left']
      exact Criteria.meets_ignoring_append
  · exact ⟨mem_names_evaluate_of_sameMembers hsame, mem_names_evaluate_of_sameMembers hsame.symm⟩

/-- Levels that answer a name twice, or one that they do not register: the ignored type takes `d`
away from what the criteria would find. -/
theorem evaluate_combines_tables :
    let near : Tables := { names := ["a", "b"], types := [("T", ["b", "b", "c"])] }
    let far : Tables := { names := ["c"], types := [("T", ["b", "d"]), ("I", ["d"])] }
    let h : Hierarchy := ⟨near.level, [far.level]⟩
    let subject : Subject := .configuration { name := "s" }
    let byName : Criteria := { names := ["a", "e"], ignored := [.plain "I"] }
    let byType : Criteria := { types := [.plain "T"], ignored := [.plain "I"] }
    let twice : Criteria := { byType with types := [.plain "T", .plain "T"] }
    byName.IsGiven ∧ byType.IsGiven ∧ byName.SearchAlike byType ∧ twice.SameMembers byType ∧
      (evaluate subject byName h).value.names = ["a"] ∧
      (evaluate subject byType h).value.names = ["b", "c"] ∧
      (evaluate subject (byType.ignoring []) h).value.names = ["b", "c", "d"] ∧
      (∀ name, name ∈ (evaluate subject (byName.alongside byType) h).value.names ↔
        name ∈ ["a"] ∨ name ∈ ["b", "c"]) ∧
      ∀ name, name ∈ (evaluate subject twice h).value.names ↔ name ∈ ["b", "c"] := by
  intro near far h subject byName byType twice
  have hname : byName.IsGiven := Or.inl (by decide)
  have htype : byType.IsGiven := Or.inr (Or.inl (by decide))
  have hlike : byName.SearchAlike byType := ⟨rfl, rfl, rfl⟩
  have htwice : twice.SameMembers byType :=
    ⟨fun _ => Iff.rfl, fun t => by simp [twice, byType], fun _ => Iff.rfl, fun _ => Iff.rfl, rfl,
      rfl⟩
  have ha : (evaluate subject byName h).value.names = ["a"] := by decide +kernel
  have hbc : (evaluate subject byType h).value.names = ["b", "c"] := by decide +kernel
  refine ⟨hname, htype, hlike, htwice, ha, hbc, by decide +kernel, ?_, ?_⟩
  · rw [← ha, ← hbc]
    exact ((evaluate_combines subject h).1 byName byType hname htype hlike).1
  · rw [← hbc]
    exact (evaluate_combines subject h).2.2 twice byType htwice

end Componentry
