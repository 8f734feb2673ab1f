import Componentry.Proofs.Flattening
import Mathlib.Data.List.Forall2

/-!
# Componentry.Proofs.Frame

Registering a definition changes what is found under its own name, marked or not, and nothing else.
Two catalogs agree apart from a name (`Catalog.AgreeApart`) if only a definition of that name tells
them apart; a registration leaves a catalog that agrees apart from the registered name
(`agreeApart_put`). A search of catalogs that agree, level by level, finds the same other names
in the same order (`filter_names_search`). `evaluate_frame`: so does every evaluation.
-/

namespace Componentry

/-- Whether a name is neither `own` nor the factory behind it. -/
def isApart (own name : String) : Bool := name != own && name != factoryName own

theorem isApart_eq {own : String} (h : isFactoryName own = false) (name : String) :
    isApart own name = (baseName name != own) := by
  rw [Bool.eq_iff_iff, isApart, Bool.and_eq_true, bne_iff_ne, bne_iff_ne, bne_iff_ne,
    ← not_or, not_iff_not]
  constructor
  · rintro (rfl | rfl)
    · exact baseName_of_unmarked h
    · exact baseName_factoryName own
  · intro hb
    cases hm : isFactoryName name with
    | true => exact Or.inr (hb ▸ (factoryName_baseName hm).symm)
    | false => exact Or.inl ((baseName_of_unmarked hm).symm.trans hb)

/-! ## Catalogs -/

namespace Catalog

/-- Catalogs that a definition named `own` tells apart, if anything does. -/
structure AgreeApart (own : String) (c c' : Catalog) : Prop where
  definitions : c.definitions.filter (·.name != own) = c'.definitions.filter (·.name != own)
  component? : ∀ name, baseName name ≠ own → c.component? name = c'.component? name

namespace AgreeApart

variable {own : String} {c c' : Catalog}

theorem refl (own : String) (c : Catalog) : AgreeApart own c c := ⟨rfl, fun _ _ => rfl⟩

theorem isRegistered (h : AgreeApart own c c') {name : String} (hn : baseName name ≠ own) :
    c.isRegistered name = c'.isRegistered name := by
  rw [Catalog.isRegistered, Catalog.isRegistered, h.component? name hn]

end AgreeApart

theorem agreeApart_put {c : Catalog} (s : c.Sound) (d : Definition) :
    AgreeApart d.name c (c.put d) := by
  refine ⟨(s.wellFormed.filter_toList_put d).symm, fun name hn => ?_⟩
  rw [component?, component?, s.get?_put, if_neg hn.symm]

end Catalog

/-! ## Candidates -/

/-- Candidates compared on some names only: those that are found, what is ignored among them and
which of them are candidates. -/
theorem filter_candidates_congr {levels levels' : List Level} {ignored ignored' : List String}
    {found found' : List Found} {p p' keep : String → Bool}
    (hp : ∀ f ∈ found, isCandidate levels f = p f.name)
    (hp' : ∀ f ∈ found', isCandidate levels' f = p' f.name)
    (hfound : (found.map (·.name)).filter keep = (found'.map (·.name)).filter keep)
    (hkeep : ∀ name, keep name = true →
      ignored.contains name = ignored'.contains name ∧ p name = p' name) :
    (candidates levels ignored found).filter keep =
      (candidates levels' ignored' found').filter keep := by
  rw [map_name_candidates hp, map_name_candidates hp', List.filter_comm, hfound,
    List.filter_comm keep]
  refine List.filter_congr fun name hname => ?_
  obtain ⟨hi, hc⟩ := hkeep name (List.mem_filter.1 hname).2
  rw [hi, hc]

/-! ## Searches -/

/-- Sound catalogs that, level by level, only definitions named `own` tell apart. -/
structure AgreeApart (own : String) (catalogs catalogs' : List Catalog) : Prop where
  levels : List.Forall₂ (Catalog.AgreeApart own) catalogs catalogs'
  sound : ∀ c ∈ catalogs, c.Sound
  sound' : ∀ c ∈ catalogs', c.Sound
  unmarked : isFactoryName own = false

namespace AgreeApart

variable {own : String} {catalogs catalogs' : List Catalog}

theorem any_isRegistered (h : AgreeApart own catalogs catalogs') {name : String}
    (hn : baseName name ≠ own) :
    (catalogs.map (·.level)).any (·.isRegistered name) =
      (catalogs'.map (·.level)).any (·.isRegistered name) := by
  obtain ⟨hlevels, -, -, -⟩ := h
  induction hlevels with
  | nil => rfl
  | @cons c c' _ _ hc _ ih =>
    rw [List.map_cons, List.any_cons, ih, List.map_cons, List.any_cons]
    congr 1
    exact hc.isRegistered hn

/-- Definitions of other names are unhidden in the one place if and only if they are in the
other. -/
theorem filter_unhidden (h : AgreeApart own catalogs catalogs') :
    (unhidden catalogs).filter (·.name != own) = (unhidden catalogs').filter (·.name != own) := by
  obtain ⟨hlevels, hs, -, -⟩ := h
  induction hlevels with
  | nil => rfl
  | @cons c c' cs cs' hc _ ih =>
    have hcs : ∀ c ∈ cs, c.Sound := fun c hc => hs c (List.mem_cons_of_mem _ hc)
    have hcomm := List.filter_comm fun d : Definition => d.name != own
    rw [unhidden_cons, unhidden_cons, List.filter_append, List.filter_append, hc.definitions,
      hcomm, hcomm, ← ih hcs]
    congr 1
    refine List.filter_congr fun d hd => ?_
    obtain ⟨hd, hne⟩ := List.mem_filter.1 hd
    have hbase := baseName_of_unmarked (unmarked_of_mem_unhidden hcs hd)
    rw [hc.isRegistered (by rw [hbase]; simpa using hne)]

/-- What a name answers for is told by the definitions of its own name. -/
theorem isCandidateAmong_unhidden (h : AgreeApart own catalogs catalogs') {name : String}
    (hn : baseName name ≠ own) :
    isCandidateAmong (unhidden catalogs) name = isCandidateAmong (unhidden catalogs') name := by
  have hfilter : ∀ definitions : List Definition,
      isCandidateAmong (definitions.filter (·.name != own)) name =
        isCandidateAmong definitions name := by
    intro definitions
    rw [isCandidateAmong, isCandidateAmong, List.any_filter]
    congr 1
    funext d
    by_cases hd : d.name = own
    · simp [hd, hn.symm]
    · simp [hd]
  rw [← hfilter, h.filter_unhidden, hfilter]

/-- Other names are answered by other definitions. -/
theorem filter_answers (h : AgreeApart own catalogs catalogs') {query : Level → List String}
    {answer : Definition → List String} (i : Itemised query answer) :
    ((unhidden catalogs).flatMap answer).filter (isApart own) =
      ((unhidden catalogs').flatMap answer).filter (isApart own) := by
  have hanswers : ∀ catalogs : List Catalog, (∀ c ∈ catalogs, c.Sound) →
      ((unhidden catalogs).flatMap answer).filter (isApart own) =
        ((unhidden catalogs).filter (·.name != own)).flatMap answer := by
    intro catalogs hs
    refine filter_flatMap_of_forall fun d hd name hname => ?_
    rw [isApart_eq h.unmarked, i.baseName_eq (unmarked_of_mem_unhidden hs hd) hname]
  rw [hanswers catalogs h.sound, hanswers catalogs' h.sound', h.filter_unhidden]

theorem filter_findByType (h : AgreeApart own catalogs catalogs')
    (container? : Option ComponentType) (target : ComponentType) :
    ((findByType (catalogs.map (·.level)) container? target).map (·.name)).filter (isApart own) =
      ((findByType (catalogs'.map (·.level)) container? target).map (·.name)).filter
        (isApart own) := by
  rw [map_name_findByType h.sound, map_name_findByType h.sound', filter_eraseDups,
    filter_eraseDups, List.filter_flatMap, List.filter_flatMap]
  congr 1
  exact List.flatMap_congr fun t _ => h.filter_answers (itemised_namesOfType t)

theorem filter_findAnnotated (h : AgreeApart own catalogs catalogs') (a : Annotation) :
    ((findAnnotated (catalogs.map (·.level)) a).map (·.name)).filter (isApart own) =
      ((findAnnotated (catalogs'.map (·.level)) a).map (·.name)).filter (isApart own) := by
  rw [map_name_findAnnotated h.sound, map_name_findAnnotated h.sound', filter_eraseDups,
    filter_eraseDups, h.filter_answers (itemised_namesAnnotated a)]

/-- No other name comes to be ignored or stops being ignored. -/
theorem contains_ignoredNames (h : AgreeApart own catalogs catalogs') (c : Criteria)
    {name : String} (hn : isApart own name = true) :
    (c.ignoredNames (catalogs.map (·.level))).contains name =
      (c.ignoredNames (catalogs'.map (·.level))).contains name := by
  have hfilter : (c.ignoredNames (catalogs.map (·.level))).filter (isApart own) =
      (c.ignoredNames (catalogs'.map (·.level))).filter (isApart own) := by
    rw [Criteria.ignoredNames, Criteria.ignoredNames, List.map_flatMap, List.map_flatMap,
      List.filter_flatMap, List.filter_flatMap]
    exact List.flatMap_congr fun t _ => h.filter_findByType c.container? t
  have hmem : name ∈ (c.ignoredNames (catalogs.map (·.level))).filter (isApart own) ↔
      name ∈ (c.ignoredNames (catalogs'.map (·.level))).filter (isApart own) := by
    rw [hfilter]
  simpa [List.mem_filter, hn] using hmem

/-- A search finds the same other names, in the same order. -/
theorem filter_names_search (h : AgreeApart own catalogs catalogs') (c : Criteria) :
    (c.search (catalogs.map (·.level))).names.filter (isApart own) =
      (c.search (catalogs'.map (·.level))).names.filter (isApart own) := by
  have hbase : ∀ name, isApart own name = true → baseName name ≠ own := by
    intro name hname
    simpa [isApart_eq h.unmarked] using hname
  have hkeep : ∀ name, isApart own name = true →
      (c.ignoredNames (catalogs.map (·.level))).contains name =
          (c.ignoredNames (catalogs'.map (·.level))).contains name ∧
        isCandidateAmong (unhidden catalogs) name =
          isCandidateAmong (unhidden catalogs') name := by
    intro name hname
    exact ⟨h.contains_ignoredNames c hname, h.isCandidateAmong_unhidden (hbase name hname)⟩
  show (((c.findings _).flatMap (·.names)).eraseDups).filter _ =
    (((c.findings _).flatMap (·.names)).eraseDups).filter _
  rw [filter_eraseDups, filter_eraseDups, flatMap_names_findings, flatMap_names_findings]
  simp only [List.filter_append, List.filter_flatMap]
  congr 2
  · congr 1
    · refine List.flatMap_congr fun t _ => ?_
      exact filter_candidates_congr (fun _ => isCandidate_of_mem_findByType h.sound)
        (fun _ => isCandidate_of_mem_findByType h.sound') (h.filter_findByType _ t) hkeep
    · refine List.flatMap_congr fun a _ => ?_
      exact filter_candidates_congr (fun _ => isCandidate_of_mem_findAnnotated h.sound)
        (fun _ => isCandidate_of_mem_findAnnotated h.sound') (h.filter_findAnnotated a) hkeep
  · rw [List.filter_comm, List.filter_comm (isApart own)]
    refine List.filter_congr fun name hname => ?_
    have hname := (List.mem_filter.1 hname).2
    rw [h.contains_ignoredNames c hname, h.any_isRegistered (hbase name hname)]

end AgreeApart

/-- A name that is found belongs to a definition of its base name. -/
theorem exists_definition_of_mem_names_search {catalogs : List Catalog}
    (hs : ∀ c ∈ catalogs, c.Sound) {c : Criteria} {name : String}
    (h : name ∈ (c.search (catalogs.map (·.level))).names) :
    ∃ k ∈ catalogs, ∃ d ∈ k.definitions, d.name = baseName name := by
  have hunhidden : ∀ {query answer}, Itemised query answer →
      name ∈ (unhidden catalogs).flatMap answer →
      ∃ k ∈ catalogs, ∃ d ∈ k.definitions, d.name = baseName name := by
    intro query answer i hname
    obtain ⟨d, hd, hname⟩ := List.mem_flatMap.1 hname
    have hbase := i.baseName_eq (unmarked_of_mem_unhidden hs hd) hname
    obtain ⟨depth, k, hk, hd, _⟩ := mem_unhidden_iff.1 hd
    exact ⟨k, List.mem_of_getElem? hk, d, hd, hbase.symm⟩
  rcases mem_names_findings_iff.1 (mem_names_search_iff.1 h) with
    ⟨t, _, hname⟩ | ⟨a, _, hname⟩ | ⟨_, _, level, hlevel, hname⟩
  · obtain ⟨_, f, hf, rfl, _⟩ := mem_candidates_iff.1 hname
    have hmem := List.mem_map_of_mem (f := (·.name)) hf
    rw [map_name_findByType hs, List.mem_eraseDups] at hmem
    obtain ⟨t, _, hmem⟩ := List.mem_flatMap.1 hmem
    exact hunhidden (itemised_namesOfType t) hmem
  · obtain ⟨_, f, hf, rfl, _⟩ := mem_candidates_iff.1 hname
    have hmem := List.mem_map_of_mem (f := (·.name)) hf
    rw [map_name_findAnnotated hs, List.mem_eraseDups] at hmem
    exact hunhidden (itemised_namesAnnotated a) hmem
  · obtain ⟨k, hk, rfl⟩ := List.mem_map.1 hlevel
    obtain ⟨d, hd⟩ := Option.isSome_iff_exists.1 hname
    obtain ⟨hd, hbase, _⟩ := (hs k hk).component?_eq_some_iff.1 hd
    exact ⟨k, hk, d, hd, hbase⟩

/-! ## Hierarchies -/

/-- The same registries but for one of them, which has registered a declaration. -/
inductive RegisteredIn (d : Declaration) : List Registry → List Registry → Prop where
  | here {r r' : Registry} {rs : List Registry} : r.register d = .ok r' →
      RegisteredIn d (r :: rs) (r' :: rs)
  | farther {r : Registry} {rs rs' : List Registry} : RegisteredIn d rs rs' →
      RegisteredIn d (r :: rs) (r :: rs')

namespace Registry

/-- A registry with ancestors, the closest one first. -/
def below (r : Registry) (ancestors : List Registry) : Registry :=
  { r with ancestors := ancestors.map (·.catalog.level) }

/-- A registry of a lineage is below its ancestors already. -/
theorem below_of_lineage {r : Registry} {ancestors : List Registry}
    (h : Lineage (r :: ancestors)) : r.below ancestors = r := by
  rw [below, ← h.ancestors_eq]

theorem searched_below (r : Registry) (ancestors : List Registry) (reach : Reach) :
    (r.below ancestors).hierarchy.searched reach =
      ((r.searched ancestors reach).map (·.catalog)).map (·.level) := by
  rw [searched_hierarchy (r := r.below ancestors) rfl]
  cases reach <;> rfl

theorem names_evaluate_below (r : Registry) (ancestors : List Registry) (subject : Subject)
    (c : Criteria) : (evaluate subject c (r.below ancestors).hierarchy).value.names =
      (c.forSubject? subject).elim [] fun e =>
        (e.search (((r.searched ancestors c.reach).map (·.catalog)).map (·.level))).names := by
  rw [names_evaluate]
  cases he : c.forSubject? subject with
  | none => rfl
  | some e =>
    have hreach := (names_and_reach_of_forSubject? he).2
    rw [Option.elim_some, Option.elim_some, searched_below, hreach]

theorem agreeApart_define {r r' : Registry} (s : r.catalog.Sound) {d : Definition}
    (h : r.define d = .ok r') : Catalog.AgreeApart d.name r.catalog r'.catalog := by
  obtain ⟨_, _, rfl⟩ := define_eq_ok_iff.1 h
  exact Catalog.agreeApart_put s d

theorem unmarked_of_define {r r' : Registry} {d : Definition} (h : r.define d = .ok r') :
    isFactoryName d.name = false := by
  obtain ⟨hvalid, _, _⟩ := define_eq_ok_iff.1 h
  exact unmarked_of_isValidName hvalid

end Registry

namespace RegisteredIn

variable {d : Declaration} {rs rs' : List Registry}

theorem unmarked (h : RegisteredIn d rs rs') : isFactoryName d.name = false := by
  induction h with
  | here hd => exact Registry.unmarked_of_define hd
  | farther _ ih => exact ih

theorem sound (h : RegisteredIn d rs rs') (hs : ∀ r ∈ rs, r.catalog.Sound) :
    ∀ r ∈ rs', r.catalog.Sound := by
  induction h with
  | here hd =>
    intro r hr
    rcases List.mem_cons.1 hr with rfl | hr
    · exact Registry.kept_sound.define (hs _ List.mem_cons_self) hd
    · exact hs r (List.mem_cons_of_mem _ hr)
  | farther _ ih =>
    intro r hr
    rcases List.mem_cons.1 hr with rfl | hr
    · exact hs _ List.mem_cons_self
    · exact ih (fun r hr => hs r (List.mem_cons_of_mem _ hr)) r hr

theorem agreeApart (h : RegisteredIn d rs rs') (hs : ∀ r ∈ rs, r.catalog.Sound) :
    List.Forall₂ (fun r r' => Catalog.AgreeApart d.name r.catalog r'.catalog) rs rs' := by
  induction h with
  | here hd =>
    refine .cons (Registry.agreeApart_define (hs _ List.mem_cons_self) hd) ?_
    exact List.forall₂_same.2 fun r _ => .refl d.name r.catalog
  | farther _ ih =>
    exact .cons (.refl d.name _) (ih fun r hr => hs r (List.mem_cons_of_mem _ hr))

/-- However far a search reaches, it covers registries of which at most the one is changed. -/
theorem searched {r r' : Registry} (h : RegisteredIn d (r :: rs) (r' :: rs'))
    (hs : ∀ s ∈ r :: rs, s.catalog.Sound) (reach : Reach) :
    AgreeApart d.name ((r.searched rs reach).map (·.catalog))
      ((r'.searched rs' reach).map (·.catalog)) where
  levels := by
    rw [List.forall₂_map_left_iff, List.forall₂_map_right_iff]
    cases h.agreeApart hs with
    | cons hr hrs =>
      cases reach with
      | current => exact .cons hr .nil
      | ancestors => exact List.forall₂_take 64 hrs
      | all => exact .cons hr (List.forall₂_take 64 hrs)
  sound := Registry.sound_searched hs reach
  sound' := Registry.sound_searched (h.sound hs) reach
  unmarked := h.unmarked

end RegisteredIn

/-! ## Further registrations -/

namespace Registry

variable {subject : Subject} {c : Criteria} {ancestors : List Registry} {name : String}

theorem names_evaluate_current (hc : c.reach = .current) (r : Registry) :
    (evaluate subject c (r.below ancestors).hierarchy).value.names =
      (c.forSubject? subject).elim [] fun e => (e.search ([r.catalog].map (·.level))).names := by
  rw [names_evaluate_below, hc]
  rfl

/-- What the registry itself was found to hold stays found when another name is registered. -/
theorem mem_names_of_define {r r' : Registry} (s : r.catalog.Sound) (ho : r.overriding = false)
    {d : Definition} (hd : r.define d = .ok r') (hc : c.reach = .current)
    (h : name ∈ (evaluate subject c (r.below ancestors).hierarchy).value.names) :
    name ∈ (evaluate subject c (r'.below ancestors).hierarchy).value.names := by
  rw [names_evaluate_current hc] at h ⊢
  cases he : c.forSubject? subject with
  | none =>
    rw [he] at h
    cases h
  | some e =>
    rw [he, Option.elim_some] at h
    have hs : ∀ k ∈ [r.catalog], k.Sound := by simpa using s
    have hs' : ∀ k ∈ [r'.catalog], k.Sound := by simpa using kept_sound.define s hd
    have hunmarked := unmarked_of_define hd
    have hagree : AgreeApart d.name [r.catalog] [r'.catalog] :=
      ⟨.cons (agreeApart_define s hd) .nil, hs, hs', hunmarked⟩
    have happart : isApart d.name name = true := by
      obtain ⟨k, hk, f, hf, hbase⟩ := exists_definition_of_mem_names_search hs h
      rw [List.mem_singleton.1 hk] at hf
      rw [isApart_eq hunmarked, ← hbase, bne_iff_ne]
      obtain ⟨_, hnew, _⟩ := define_eq_ok_iff.1 hd
      rw [ho] at hnew
      have hfree := hnew.resolve_left Bool.false_ne_true
      exact s.position?_eq_none_iff.1 hfree f hf
    have hkept := List.mem_filter.2 ⟨h, happart⟩
    rw [hagree.filter_names_search e] at hkept
    exact (List.mem_filter.1 hkept).1

theorem mem_names_of_calls {r : Registry} (s : r.catalog.Sound) (ho : r.overriding = false)
    (hc : c.reach = .current) (calls : List Call)
    (h : name ∈ (evaluate subject c (r.below ancestors).hierarchy).value.names) :
    name ∈ (evaluate subject c
      ((calls.foldl Registry.call r).below ancestors).hierarchy).value.names := by
  have hkept : Kept fun r => r.catalog.Sound ∧ r.overriding = false ∧
      name ∈ (evaluate subject c (r.below ancestors).hierarchy).value.names :=
    { define := fun ⟨s, ho, h⟩ hd =>
        ⟨kept_sound.define s hd, (kept_overriding false).define ho hd,
          mem_names_of_define s ho hd hc h⟩
      record := fun _ _ h => h }
  have hall : ∀ r : Registry, r.catalog.Sound ∧ r.overriding = false ∧
      name ∈ (evaluate subject c (r.below ancestors).hierarchy).value.names →
      name ∈ (evaluate subject c
        ((calls.foldl Registry.call r).below ancestors).hierarchy).value.names := by
    induction calls with
    | nil => exact fun _ h => h.2.2
    | cons k calls ih => exact fun r h => ih _ (hkept.call h k)
  exact hall r ⟨s, ho, h⟩

end Registry

/-- One registration at any level of a hierarchy changes what any criteria match under the
registered name only, behind the mark or not; all other names are matched as before and in the same
order. Where nothing is overridden, what criteria match in a registry itself they still match after
any calls. -/
theorem evaluate_frame {r : Registry} {ancestors : List Registry}
    (h : ∀ s ∈ r :: ancestors, ∃ overriding parent?, s.Reachable overriding parent?) :
    (∀ d r' ancestors', RegisteredIn d (r :: ancestors) (r' :: ancestors') → ∀ subject c,
      (evaluate subject c (r.below ancestors).hierarchy).value.names.filter (isApart d.name) =
        (evaluate subject c (r'.below ancestors').hierarchy).value.names.filter
          (isApart d.name)) ∧
    (r.overriding = false → ∀ subject c, c.reach = .current → ∀ calls : List Call,
      ∀ name ∈ (evaluate subject c (r.below ancestors).hierarchy).value.names,
        name ∈ (evaluate subject c
          ((calls.foldl Registry.call r).below ancestors).hierarchy).value.names) := by
  have hsound : ∀ s ∈ r :: ancestors, s.catalog.Sound := by
    intro s hs
    obtain ⟨_, _, hreach⟩ := h s hs
    exact hreach.sound
  constructor
  · intro d r' ancestors' hd subject c
    rw [Registry.names_evaluate_below, Registry.names_evaluate_below]
    cases c.forSubject? subject with
    | none => rfl
    | some e => exact (hd.searched hsound c.reach).filter_names_search e
  · intro ho subject c hc calls name hname
    exact Registry.mem_names_of_calls (hsound r List.mem_cons_self) ho hc calls hname

/-- The child comes to hide one of the two components of its parent: the other one is found as
before. -/
theorem evaluate_frame_hidden :
    let provider (name : String) : Declaration := { name, hint? := some (.plain "T") }
    let parent := [Call.register (provider "a"), .register (provider "b")].foldl Registry.call
      (Registry.create false none)
    let child := Registry.create false (some parent.hierarchy)
    let child' := child.call (.register { name := "a" })
    let criteria : Criteria := { types := [.plain "T"] }
    let subject := Subject.component { name := "c" }
    Lineage [child, parent] ∧ Lineage [child', parent] ∧
      RegisteredIn { name := "a" } [child, parent] [child', parent] ∧
      (evaluate subject criteria child.hierarchy).value.names = ["a", "b"] ∧
      (evaluate subject criteria child'.hierarchy).value.names = ["b"] ∧
      (evaluate subject criteria child.hierarchy).value.names.filter (isApart "a") =
        (evaluate subject criteria child'.hierarchy).value.names.filter (isApart "a") := by
  intro provider parent child child' criteria subject
  have hparent : parent.Reachable false none := Registry.Reachable.empty.calls _
  have hchild : child.Reachable false (some parent.hierarchy) := .empty
  have hlineage : Lineage [child, parent] := .child (.root hparent) hchild
  have hlineage' : Lineage [child', parent] := .child (.root hparent) (.call hchild _)
  have hregistered : RegisteredIn { name := "a" } [child, parent] [child', parent] := .here rfl
  have hreach : ∀ s ∈ [child, parent], ∃ overriding parent?, s.Reachable overriding parent? := by
    intro s hs
    rcases List.mem_pair.1 hs with rfl | rfl
    · exact ⟨false, _, hchild⟩
    · exact ⟨false, none, hparent⟩
  have hframe := (evaluate_frame hreach).1 _ _ _ hregistered subject criteria
  rw [Registry.below_of_lineage hlineage, Registry.below_of_lineage hlineage'] at hframe
  exact ⟨hlineage, hlineage', hregistered, by decide +kernel, by decide +kernel, hframe⟩

end Componentry
