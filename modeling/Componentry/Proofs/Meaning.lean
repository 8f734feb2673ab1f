import Componentry.Proofs.Search

/-!
# Componentry.Proofs.Meaning

What an evaluation finds, said without the lists that it goes through. The levels of a search are
told by how many parents away they are (`Hierarchy.Searches`), and what a subject implies by the
type that it produces (`Subject.Implies`). `FoundAt` places a name at the closest level that answers
it unhidden, `FoundForType` falls back on the container where the type itself is not answered, and
`Meets` says when a name counts. `evaluate_meaning`: the names of an evaluation are those that meet
the criteria in effect, whatever the levels answer.
-/

namespace Componentry

/-! ## Levels by distance -/

/-- How many parents away the closest level of a search is. -/
def Reach.closest : Reach → Nat
  | ancestors => 1
  | current | all => 0

/-- How many parents away the farthest level of a search can be. -/
def Reach.farthest : Reach → Nat
  | current => 0
  | ancestors | all => 64

namespace Hierarchy

/-- What can be seen from an ancestor, so many parents away. -/
def ancestor? (h : Hierarchy) : Nat → Option Hierarchy
  | 0 => some h
  | n + 1 => h.parent?.bind (ancestor? · n)

theorem current_ancestor? (h : Hierarchy) (n : Nat) :
    (h.ancestor? n).map (·.current) = h.levels[n]? := by
  induction n generalizing h with
  | zero => rfl
  | succ n ih =>
    obtain ⟨current, ancestors⟩ := h
    cases ancestors with
    | nil => rfl
    | cons parent ancestors => exact ih ⟨parent, ancestors⟩

theorem isSome_ancestor?_iff (h : Hierarchy) (n : Nat) :
    (h.ancestor? n).isSome = true ↔ n ≤ h.ancestors.length := by
  rw [← Option.isSome_map, current_ancestor?, isSome_getElem?, levels, List.length_cons,
    Nat.lt_succ_iff]

/-- The levels that a search of a reach goes through: from the closest on, each one a parent farther
away than the one before, as long as there are ancestors and none is beyond the farthest. -/
def Searches (h : Hierarchy) (reach : Reach) (levels : List Level) : Prop :=
  ∀ depth, levels[depth]? =
    if reach.closest + depth ≤ reach.farthest then
      (h.ancestor? (reach.closest + depth)).map (·.current)
    else none

theorem searched_eq_drop_take (h : Hierarchy) (reach : Reach) :
    h.searched reach = (h.levels.take (reach.farthest + 1)).drop reach.closest := by
  cases reach <;> rfl

theorem searches_iff {h : Hierarchy} {reach : Reach} {levels : List Level} :
    h.Searches reach levels ↔ levels = h.searched reach := by
  simp only [List.ext_getElem?_iff, searched_eq_drop_take, List.getElem?_drop, List.getElem?_take,
    Nat.lt_succ_iff, ← current_ancestor?, Searches]

end Hierarchy

/-! ## Names that meet criteria -/

/-- A level at `depth` answers `name`, and no closer one registers what is behind the name. -/
def Visible (levels : List Level) (query : Level → List String) (name : String) (depth : Nat) :
    Prop :=
  (∃ level, levels[depth]? = some level ∧ name ∈ query level) ∧
    ∀ closer ∈ levels.take depth, closer.isRegistered (baseName name) = false

/-- `depth` is the least at which `name` is visible. -/
def FoundAt (levels : List Level) (query : Level → List String) (name : String) (depth : Nat) :
    Prop :=
  Visible levels query name depth ∧ ∀ d, Visible levels query name d → depth ≤ d

/-- A name is found where the type is answered, or else where the container of it is. -/
def FoundForType (levels : List Level) (container? : Option ComponentType)
    (target : ComponentType) (name : String) (depth : Nat) : Prop :=
  FoundAt levels (·.namesOfType .all target) name depth ∨
    (¬ ∃ d, FoundAt levels (·.namesOfType .all target) name d) ∧
      ∃ container, container? = some container ∧
        FoundAt levels (·.namesOfType .all (container.containing target)) name depth

/-- The level at `depth` takes the component behind `name` for a candidate in both respects. -/
def CandidateAt (levels : List Level) (name : String) (depth : Nat) : Prop :=
  ∃ level, levels[depth]? = some level ∧ level.autowireCandidate (baseName name) = true ∧
    level.defaultCandidate (baseName name) = true

/-- `name` counts as found by criteria. -/
def Meets (c : Criteria) (levels : List Level) (name : String) : Prop :=
  (¬ ∃ t ∈ c.ignored, ∃ d, FoundForType levels c.container? t name d) ∧
    ((∃ d, ((∃ t ∈ c.types, FoundForType levels c.container? t name d) ∨
        ∃ a ∈ c.annotations, FoundAt levels (·.namesAnnotated a) name d) ∧
          CandidateAt levels name d) ∨
      (name ∈ c.names ∧ ∃ level ∈ levels, level.isRegistered name = true))

/-! ## What a subject implies -/

/-- A type that can stand for a container and holds an element. -/
structure ComponentType.Wraps (t container element : ComponentType) : Prop where
  conforms : t.conformsTo container = true
  element? : t.element? = some element

/-- A component implies the element of what it produces, if that wraps it in the container, and
otherwise what it produces. A configuration implies nothing. -/
inductive Subject.Implies (container? : Option ComponentType) : Subject → ComponentType → Prop where
  | element {d : Declaration} {container produced element : ComponentType} :
      d.produced? = some produced → container? = some container →
      produced.Wraps container element → Implies container? (.component d) element
  | produced {d : Declaration} {produced : ComponentType} : d.produced? = some produced →
      (∀ container, container? = some container → ∀ element, ¬ produced.Wraps container element) →
      Implies container? (.component d) produced

section Implied

variable {d : Declaration} {container? : Option ComponentType}
  {container produced element : ComponentType}

theorem impliedType?_of_wraps (hp : d.produced? = some produced)
    (h : produced.Wraps container element) :
    (Subject.component d).impliedType? (some container) = some element := by
  simp [Subject.impliedType?, hp, h.element?, h.conforms]

theorem impliedType?_of_not_wraps (hp : d.produced? = some produced)
    (h : ∀ container, container? = some container → ∀ element, ¬ produced.Wraps container element) :
    (Subject.component d).impliedType? container? = some produced := by
  rw [Subject.impliedType?, hp, Option.map_some]
  cases container? with
  | none => rfl
  | some container =>
    cases he : produced.element? with
    | none => rfl
    | some element =>
      have hconforms : ¬ produced.conformsTo container = true := fun hc =>
        h container rfl element ⟨hc, he⟩
      simp [hconforms]

theorem Subject.implies_iff {subject : Subject} {target : ComponentType} :
    subject.Implies container? target ↔ subject.impliedType? container? = some target := by
  constructor
  · intro h
    cases h with
    | element hp hc hw => exact hc ▸ impliedType?_of_wraps hp hw
    | produced hp hw => exact impliedType?_of_not_wraps hp hw
  · intro h
    cases subject with
    | configuration d => cases h
    | component d =>
      obtain ⟨produced, hp, _⟩ := Option.map_eq_some_iff.1 h
      by_cases hw : ∃ container, container? = some container ∧ ∃ element,
          produced.Wraps container element
      · obtain ⟨container, rfl, element, hw⟩ := hw
        rw [impliedType?_of_wraps hp hw] at h
        cases h
        exact .element hp rfl hw
      · have hnone : ∀ container, container? = some container → ∀ element,
            ¬ produced.Wraps container element := by
          intro container hc element he
          exact hw ⟨container, hc, element, he⟩
        rw [impliedType?_of_not_wraps hp hnone] at h
        cases h
        exact .produced hp hnone

end Implied

/-! ## The criteria in effect -/

/-- The criteria that an evaluation goes by. -/
inductive InEffect (subject : Subject) (c : Criteria) : Criteria → Prop where
  | given : c.names ≠ [] ∨ c.types ≠ [] ∨ c.annotations ≠ [] → InEffect subject c c
  | implied {target : ComponentType} : c.names = [] → c.types = [] → c.annotations = [] →
      subject.Implies c.container? target →
      InEffect subject c { c with types := c.types ++ [target] }

theorem isOpen_iff {c : Criteria} :
    c.isOpen = true ↔ c.names = [] ∧ c.types = [] ∧ c.annotations = [] := by
  simp [Criteria.isOpen, and_assoc]

/-- Criteria that name something to look for. -/
def Criteria.IsGiven (c : Criteria) : Prop := c.names ≠ [] ∨ c.types ≠ [] ∨ c.annotations ≠ []

theorem Criteria.isGiven_iff {c : Criteria} : c.IsGiven ↔ ¬ c.isOpen = true := by
  rw [isOpen_iff, Classical.not_and_iff_not_or_not, Classical.not_and_iff_not_or_not]
  rfl

theorem Criteria.forSubject?_of_isGiven {c : Criteria} (h : c.IsGiven) (subject : Subject) :
    c.forSubject? subject = some c :=
  if_neg (isGiven_iff.1 h)

theorem Criteria.isSome_forSubject?_iff {c : Criteria} {subject : Subject} :
    (c.forSubject? subject).isSome = true ↔
      c.IsGiven ∨ ∃ target, subject.Implies c.container? target := by
  simp only [Subject.implies_iff, ← Option.isSome_iff_exists]
  by_cases hg : c.IsGiven
  · simp [forSubject?_of_isGiven hg, hg]
  · have hopen : c.isOpen = true := Classical.not_not.1 fun ho => hg (isGiven_iff.2 ho)
    rw [forSubject?, if_pos hopen, Option.isSome_map]
    simp [hg]

theorem inEffect_iff {subject : Subject} {c e : Criteria} :
    InEffect subject c e ↔ c.forSubject? subject = some e := by
  rw [Criteria.forSubject?]
  by_cases ho : c.isOpen = true
  · rw [if_pos ho, Option.map_eq_some_iff]
    obtain ⟨hn, ht, ha⟩ := isOpen_iff.1 ho
    constructor
    · rintro (⟨h⟩ | ⟨_, _, _, h⟩)
      · simp [hn, ht, ha] at h
      · exact ⟨_, Subject.implies_iff.1 h, rfl⟩
    · rintro ⟨target, h, rfl⟩
      exact .implied hn ht ha (Subject.implies_iff.2 h)
  · rw [if_neg ho, Option.some.injEq]
    constructor
    · rintro (_ | ⟨hn, ht, ha, _⟩)
      · rfl
      · exact absurd (isOpen_iff.2 ⟨hn, ht, ha⟩) ho
    · rintro rfl
      exact .given (Criteria.isGiven_iff.2 ho)

theorem names_and_reach_of_forSubject? {c e : Criteria} {subject : Subject}
    (h : c.forSubject? subject = some e) : e.names = c.names ∧ e.reach = c.reach := by
  rcases inEffect_iff.2 h with _ | _
  · exact ⟨rfl, rfl⟩
  · exact ⟨rfl, rfl⟩

/-- With something to look for, it does not matter who asks. -/
theorem evaluate_of_isGiven {c : Criteria} (hc : c.IsGiven) (subject : Subject) (h : Hierarchy) :
    evaluate subject c h =
      { value := c.search (h.searched c.reach), events := h.depthEvents c.reach } := by
  rw [evaluate, Criteria.forSubject?_of_isGiven hc]

/-! ## Where a name is found -/

theorem mem_sightings_iff_visible {levels : List Level} {query : Level → List String}
    {name : String} {depth : Nat} :
    (⟨name, depth⟩ : Found) ∈ sightings levels query ↔ Visible levels query name depth := by
  rw [mem_sightings_iff, Visible]
  constructor
  · rintro ⟨level, hl, hq, hh⟩
    exact ⟨⟨level, hl, hq⟩, isHidden_eq_false_iff.1 hh⟩
  · rintro ⟨⟨level, hl, hq⟩, hh⟩
    exact ⟨level, hl, hq, isHidden_eq_false_iff.2 hh⟩

theorem FoundAt.unique {levels : List Level} {query : Level → List String} {name : String}
    {d d' : Nat} (h : FoundAt levels query name d) (h' : FoundAt levels query name d') :
    d = d' :=
  Nat.le_antisymm (h.2 d' h'.1) (h'.2 d h.1)

/-- The first sighting of a name is at the least depth, as sightings come from the closest level
on. -/
theorem foundAt_of_find?_sightings {levels : List Level} {query : Level → List String}
    {name : String} {depth : Nat}
    (h : (sightings levels query).find? (·.name == name) = some ⟨name, depth⟩) :
    FoundAt levels query name depth := by
  refine ⟨mem_sightings_iff_visible.1 (List.mem_of_find?_eq_some h), fun d hd => ?_⟩
  obtain ⟨_, before, after, hs, hbefore⟩ := List.find?_eq_some_iff_append.1 h
  have hmem := mem_sightings_iff_visible.2 hd
  have hsorted := pairwise_depth_sightings levels query
  rw [hs] at hmem hsorted
  rcases List.mem_append.1 hmem with hm | hm
  · simpa using hbefore _ hm
  · rcases List.mem_cons.1 hm with he | hm
    · cases he
      exact Nat.le_refl _
    · exact List.rel_of_pairwise_cons (List.pairwise_append.1 hsorted).2.1 hm

theorem find?_sightings_eq_some_iff {levels : List Level} {query : Level → List String}
    {name : String} {depth : Nat} :
    (sightings levels query).find? (·.name == name) = some ⟨name, depth⟩ ↔
      FoundAt levels query name depth := by
  refine ⟨foundAt_of_find?_sightings, fun h => ?_⟩
  cases hfind : (sightings levels query).find? (·.name == name) with
  | none => simpa using List.find?_eq_none.1 hfind _ (mem_sightings_iff_visible.2 h.1)
  | some f =>
    obtain ⟨name', d⟩ := f
    have hname : name' = name := by simpa using List.find?_some hfind
    subst hname
    rw [h.unique (foundAt_of_find?_sightings hfind)]

theorem find?_sightings_eq_none_iff {levels : List Level} {query : Level → List String}
    {name : String} : (sightings levels query).find? (·.name == name) = none ↔
      ¬ ∃ d, FoundAt levels query name d := by
  constructor
  · rintro h ⟨d, hd⟩
    rw [find?_sightings_eq_some_iff.2 hd] at h
    cases h
  · intro h
    cases hfind : (sightings levels query).find? (·.name == name) with
    | none => rfl
    | some f =>
      obtain ⟨name', d⟩ := f
      have hname : name' = name := by simpa using List.find?_some hfind
      subst hname
      exact absurd ⟨d, foundAt_of_find?_sightings hfind⟩ h

theorem mem_findAnnotated_iff {levels : List Level} {a : Annotation} {name : String}
    {depth : Nat} : (⟨name, depth⟩ : Found) ∈ findAnnotated levels a ↔
      FoundAt levels (·.namesAnnotated a) name depth := by
  rw [findAnnotated, mem_firstSightings, find?_sightings_eq_some_iff]

theorem mem_findByType_iff {levels : List Level} {container? : Option ComponentType}
    {target : ComponentType} {name : String} {depth : Nat} :
    (⟨name, depth⟩ : Found) ∈ findByType levels container? target ↔
      FoundForType levels container? target name depth := by
  rw [findByType, mem_firstSightings, List.flatMap_cons, List.find?_append, Option.or_eq_some_iff,
    find?_sightings_eq_some_iff, find?_sightings_eq_none_iff, FoundForType]
  cases container? with
  | none => simp
  | some container => simp [find?_sightings_eq_some_iff]

theorem mem_ignoredNames_iff {c : Criteria} {levels : List Level} {name : String} :
    name ∈ c.ignoredNames levels ↔
      ∃ t ∈ c.ignored, ∃ d, FoundForType levels c.container? t name d := by
  rw [Criteria.ignoredNames, List.mem_map]
  constructor
  · rintro ⟨⟨_, d⟩, hf, rfl⟩
    obtain ⟨t, ht, hf⟩ := List.mem_flatMap.1 hf
    exact ⟨t, ht, d, mem_findByType_iff.1 hf⟩
  · rintro ⟨t, ht, d, hd⟩
    exact ⟨⟨name, d⟩, List.mem_flatMap.2 ⟨t, ht, mem_findByType_iff.2 hd⟩, rfl⟩

theorem isCandidate_iff {levels : List Level} {name : String} {depth : Nat} :
    isCandidate levels ⟨name, depth⟩ = true ↔ CandidateAt levels name depth := by
  unfold isCandidate CandidateAt
  cases levels[depth]? with
  | none => simp
  | some level => simp

/-! ## Which names count -/

/-- Candidates by the depths at which their names were found. -/
theorem mem_candidates_iff_of_depths {levels : List Level} {ignored : List String}
    {found : List Found} {name : String} {P : Nat → Prop}
    (h : ∀ d, (⟨name, d⟩ : Found) ∈ found ↔ P d) :
    name ∈ candidates levels ignored found ↔
      name ∉ ignored ∧ ∃ d, P d ∧ CandidateAt levels name d := by
  rw [mem_candidates_iff]
  refine and_congr_right fun _ => ?_
  constructor
  · rintro ⟨⟨_, d⟩, hf, rfl, hc⟩
    exact ⟨d, (h d).1 hf, isCandidate_iff.1 hc⟩
  · rintro ⟨d, hd, hc⟩
    exact ⟨⟨name, d⟩, (h d).2 hd, rfl, isCandidate_iff.2 hc⟩

theorem mem_names_search_iff_meets {c : Criteria} {levels : List Level} {name : String} :
    name ∈ (c.search levels).names ↔ Meets c levels name := by
  simp only [mem_names_search_iff, mem_names_findings_iff,
    mem_candidates_iff_of_depths fun _ => mem_findByType_iff,
    mem_candidates_iff_of_depths fun _ => mem_findAnnotated_iff, mem_ignoredNames_iff, Meets]
  constructor
  · rintro (⟨t, ht, hi, d, hd, hc⟩ | ⟨a, ha, hi, d, hd, hc⟩ | ⟨hn, hi, hr⟩)
    · exact ⟨hi, Or.inl ⟨d, Or.inl ⟨t, ht, hd⟩, hc⟩⟩
    · exact ⟨hi, Or.inl ⟨d, Or.inr ⟨a, ha, hd⟩, hc⟩⟩
    · exact ⟨hi, Or.inr ⟨hn, hr⟩⟩
  · rintro ⟨hi, ⟨d, ⟨t, ht, hd⟩ | ⟨a, ha, hd⟩, hc⟩ | ⟨hn, hr⟩⟩
    · exact Or.inl ⟨t, ht, hi, d, hd, hc⟩
    · exact Or.inr (Or.inl ⟨a, ha, hi, d, hd, hc⟩)
    · exact Or.inr (Or.inr ⟨hn, hi, hr⟩)

theorem mem_names_evaluate_iff {subject : Subject} {c : Criteria} {h : Hierarchy} {name : String} :
    name ∈ (evaluate subject c h).value.names ↔
      ∃ e, c.forSubject? subject = some e ∧ Meets e (h.searched e.reach) name := by
  rw [names_evaluate]
  cases c.forSubject? subject with
  | none => simp
  | some e => simp [mem_names_search_iff_meets]

theorem mem_names_evaluate_iff_of_isGiven {subject : Subject} {c : Criteria} {h : Hierarchy}
    {name : String} (hc : c.IsGiven) :
    name ∈ (evaluate subject c h).value.names ↔ Meets c (h.searched c.reach) name := by
  rw [mem_names_evaluate_iff, Criteria.forSubject?_of_isGiven hc]
  simp

/-- The names of an evaluation are those that meet the criteria in effect on the levels that their
reach covers, each one once. Without criteria in effect nothing is found. -/
theorem evaluate_meaning (subject : Subject) (c : Criteria) (h : Hierarchy) :
    (evaluate subject c h).value.names.Nodup ∧
      ((evaluate subject c h).value.matched = true ↔ (evaluate subject c h).value.names ≠ []) ∧
      ((∃ e levels, InEffect subject c e ∧ h.Searches e.reach levels ∧
          ∀ name, name ∈ (evaluate subject c h).value.names ↔ Meets e levels name) ∨
        ((¬ ∃ e, InEffect subject c e) ∧ (evaluate subject c h).value.matched = false ∧
          (evaluate subject c h).value.names = [])) := by
  simp only [inEffect_iff, Hierarchy.searches_iff, evaluate]
  cases c.forSubject? subject with
  | none =>
    refine ⟨List.nodup_nil, Match.matched_iff, Or.inr ⟨?_, rfl, rfl⟩⟩
    rintro ⟨e, he⟩
    cases he
  | some e =>
    exact ⟨nodup_names_search e _, Match.matched_iff,
      Or.inl ⟨e, _, rfl, rfl, fun name => mem_names_search_iff_meets⟩⟩

/-- A guard on a `Box<T>` looks for `T`. The child answers `s` twice, so it is found once, and hides
that of the parent, marked or not. It answers `v` for the container alone, so `v` is found at the
parent, where it is a candidate. Of what else the parent answers, `n` is no candidate, marked or
not, and `i` is ignored. -/
theorem evaluate_meaning_tables :
    let box : ComponentType := .plain "Box"
    let t : ComponentType := .plain "T"
    let child : Level :=
      ({ names := ["s"], types := [("T", ["s", "s", "u"]), ("Box<T>", ["v"])]
         notAutowire := ["v"] } : Tables).level
    let parent : Level :=
      ({ names := ["s", "n"]
         types := [("T", ["s", "&s", "v", "n", "&n", "i"]), ("Box<T>", ["b"]), ("I", ["i"])]
         notDefault := ["n"] } : Tables).level
    let h : Hierarchy := ⟨child, [parent]⟩
    let guarded : Subject := .component { name := "g", hint? := some (box.containing t) }
    let c : Criteria := { ignored := [.plain "I"], container? := some box }
    let sought : Criteria := { c with types := [t] }
    InEffect guarded c sought ∧ h.Searches .all [child, parent] ∧
      (evaluate guarded c h).value.names = ["s", "u", "v", "b"] ∧
      ∀ name, name ∈ ["s", "u", "v", "b"] ↔ Meets sought [child, parent] name := by
  intro box t child parent h guarded c sought
  have heffect : InEffect guarded c sought :=
    .implied rfl rfl rfl (.element rfl rfl ⟨by decide, rfl⟩)
  have hlevels : h.Searches .all [child, parent] := Hierarchy.searches_iff.2 rfl
  have hnames : (evaluate guarded c h).value.names = ["s", "u", "v", "b"] := by decide +kernel
  obtain ⟨_, _, hmeets | ⟨hnone, _⟩⟩ := evaluate_meaning guarded c h
  · obtain ⟨e, levels, he, hl, hmeets⟩ := hmeets
    obtain rfl : sought = e :=
      Option.some.inj ((inEffect_iff.1 heffect).symm.trans (inEffect_iff.1 he))
    obtain rfl : levels = [child, parent] := Hierarchy.searches_iff.1 hl
    rw [hnames] at hmeets
    exact ⟨heffect, hlevels, hnames, hmeets⟩
  · exact absurd ⟨sought, heffect⟩ hnone

end Componentry
