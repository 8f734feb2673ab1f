import Componentry.Proofs.Catalog
import Componentry.Proofs.Search
import Mathlib.Data.List.Basic
import Mathlib.Data.List.Induction
import Mathlib.Data.List.Nodup

/-!
# Componentry.Proofs.Visibility

Searching the levels of sound catalogs. Every name that is found stands at the one closest level
that registers what is behind it, so a search sees no more than the definitions that no closer
catalog hides (`unhidden`): the names it sights are theirs (`map_name_sightings`), and whether a
name is a candidate is told by the definition behind it (`isCandidate_eq`). `findings_congr`: where
the same definitions are unhidden, the same is found.
-/

namespace Componentry

/-- The definitions whose names no closer catalog registers, level by level. -/
def unhidden (catalogs : List Catalog) : List Definition :=
  catalogs.zipIdx.flatMap fun (c, depth) =>
    c.definitions.filter fun d => !(catalogs.take depth).any (·.isRegistered d.name)

theorem mem_unhidden_iff {catalogs : List Catalog} {d : Definition} :
    d ∈ unhidden catalogs ↔ ∃ depth c, catalogs[depth]? = some c ∧ d ∈ c.definitions ∧
      (catalogs.take depth).any (·.isRegistered d.name) = false := by
  simp only [unhidden, List.mem_flatMap, List.mem_filter, Bool.not_eq_true', Prod.exists,
    List.mk_mem_zipIdx_iff_getElem?]
  exact exists_comm

theorem unhidden_concat (catalogs : List Catalog) (c : Catalog) :
    unhidden (catalogs ++ [c]) =
      unhidden catalogs ++ c.definitions.filter fun d => !catalogs.any (·.isRegistered d.name) := by
  rw [unhidden, List.zipIdx_append, List.flatMap_append]
  congr 1
  · refine List.flatMap_congr fun ⟨c, depth⟩ hc => ?_
    have hlt : depth < catalogs.length := by simpa using List.snd_lt_of_mem_zipIdx hc
    simp only [List.take_append_of_le_length (Nat.le_of_lt hlt)]
  · simp

/-- A closest catalog hides what is unhidden among the others under its names. -/
theorem unhidden_cons (c : Catalog) (catalogs : List Catalog) :
    unhidden (c :: catalogs) =
      c.definitions ++ (unhidden catalogs).filter fun d => !c.isRegistered d.name := by
  rw [unhidden, List.zipIdx_cons, List.zipIdx_succ, List.flatMap_cons, List.flatMap_map, unhidden,
    List.filter_flatMap]
  congr 1
  · simp
  · refine List.flatMap_congr fun entry _ => ?_
    simp [List.filter_filter, List.any_cons]

theorem unhidden_singleton (c : Catalog) : unhidden [c] = c.definitions := by
  simp [unhidden]

theorem exists_mem_unhidden_iff {catalogs : List Catalog} {name : String}
    (hs : ∀ c ∈ catalogs, c.Sound) (hn : isFactoryName name = false) :
    (∃ d ∈ unhidden catalogs, d.name = name) ↔ catalogs.any (·.isRegistered name) = true := by
  induction catalogs using List.reverseRecOn with
  | nil => simp [unhidden]
  | append_singleton catalogs c ih =>
    have ih := ih fun c hc => hs c (List.mem_append_left _ hc)
    have hc := hs c (by simp)
    rw [unhidden_concat, List.any_append, Bool.or_eq_true, ← ih]
    constructor
    · rintro ⟨d, hd, rfl⟩
      rcases List.mem_append.1 hd with hd | hd
      · exact Or.inl ⟨d, hd, rfl⟩
      · right
        simpa using hc.isRegistered_of_mem (List.mem_filter.1 hd).1
    · rintro (⟨d, hd, rfl⟩ | h)
      · exact ⟨d, List.mem_append_left _ hd, rfl⟩
      · by_cases hcloser : catalogs.any (·.isRegistered name) = true
        · obtain ⟨d, hd, rfl⟩ := ih.2 hcloser
          exact ⟨d, List.mem_append_left _ hd, rfl⟩
        · obtain ⟨d, hd, rfl⟩ := (hc.isRegistered_iff_of_unmarked hn).1 (by simpa using h)
          refine ⟨d, List.mem_append_right _ (List.mem_filter.2 ⟨hd, ?_⟩), rfl⟩
          simpa using hcloser

theorem unmarked_of_mem_unhidden {catalogs : List Catalog} {d : Definition}
    (hs : ∀ c ∈ catalogs, c.Sound) (hd : d ∈ unhidden catalogs) :
    isFactoryName d.name = false := by
  obtain ⟨depth, c, hc, hd, _⟩ := mem_unhidden_iff.1 hd
  exact (hs c (List.mem_of_getElem? hc)).unmarked hd

theorem nodup_names_unhidden {catalogs : List Catalog} (hs : ∀ c ∈ catalogs, c.Sound) :
    ((unhidden catalogs).map (·.name)).Nodup := by
  induction catalogs using List.reverseRecOn with
  | nil => simp [unhidden]
  | append_singleton catalogs c ih =>
    have hs' : ∀ c ∈ catalogs, c.Sound := fun c hc => hs c (List.mem_append_left _ hc)
    have hc := hs c (by simp)
    rw [unhidden_concat, List.map_append, List.nodup_append]
    refine ⟨ih hs', hc.nodup_names.sublist (List.filter_sublist.map _), ?_⟩
    intro name hname name' hname' heq
    subst heq
    obtain ⟨d, hd, rfl⟩ := List.mem_map.1 hname
    obtain ⟨e, he, heq⟩ := List.mem_map.1 hname'
    have hreg := (exists_mem_unhidden_iff hs' (unmarked_of_mem_unhidden hs' hd)).1 ⟨d, hd, rfl⟩
    have hhidden := (List.mem_filter.1 he).2
    rw [heq, hreg] at hhidden
    cases hhidden

/-! ## Queries answered definition by definition -/

/-- A query that a catalog answers with what each definition answers, under its own name or under
that of the factory it is. -/
structure Itemised (query : Level → List String) (answer : Definition → List String) : Prop where
  eq_flatMap : ∀ c : Catalog, query c.level = c.definitions.flatMap answer
  baseName_eq : ∀ {d : Definition} {name : String}, isFactoryName d.name = false →
    name ∈ answer d → baseName name = d.name

theorem itemised_namesOfType (target : ComponentType) :
    Itemised (·.namesOfType .all target) (·.namesOfType target) where
  eq_flatMap _ := rfl
  baseName_eq hd h := baseName_of_mem_namesOfType hd h

/-- The name of a definition that has an annotation. -/
def Definition.namesAnnotated (d : Definition) (a : Annotation) : List String :=
  if d.declaration.effectiveAnnotations.contains a then [d.name] else []

theorem itemised_namesAnnotated (a : Annotation) :
    Itemised (·.namesAnnotated a) (·.namesAnnotated a) where
  eq_flatMap c := by
    show (c.definitions.filter _).map _ = _
    induction c.definitions with
    | nil => rfl
    | cons d ds ih =>
      rw [List.flatMap_cons, ← ih, List.filter_cons, Definition.namesAnnotated]
      split <;> rfl
  baseName_eq {d name} hd h := by
    rw [Definition.namesAnnotated] at h
    split at h
    · rw [List.mem_singleton.1 h, baseName_of_unmarked hd]
    · cases h

variable {catalogs : List Catalog} {query : Level → List String}
  {answer : Definition → List String}

/-- Filtering what items come to is filtering the items, where they stand or fall together with all
they come to. -/
theorem filter_flatMap_of_forall {α β : Type} {xs : List α} {f : α → List β} {p : β → Bool}
    {q : α → Bool} (h : ∀ x ∈ xs, ∀ y ∈ f x, p y = q x) :
    (xs.flatMap f).filter p = (xs.filter q).flatMap f := by
  induction xs with
  | nil => rfl
  | cons x xs ih =>
    have hrest := ih fun z hz => h z (List.mem_cons_of_mem x hz)
    have hx := h x List.mem_cons_self
    rw [List.flatMap_cons, List.filter_append, hrest, List.filter_cons]
    cases hq : q x with
    | true =>
      have hall : (f x).filter p = f x := List.filter_eq_self.2 fun y hy => (hx y hy).trans hq
      rw [hall, if_pos rfl, List.flatMap_cons]
    | false =>
      have hnone : (f x).filter p = [] := by
        refine List.filter_eq_nil_iff.2 fun y hy => ?_
        rw [hx y hy, hq]
        exact Bool.false_ne_true
      rw [hnone, if_neg Bool.false_ne_true, List.nil_append]

/-- Whether closer levels hide an answer is a matter of the definition behind it. -/
theorem filter_flatMap_not_isHidden (i : Itemised query answer) {c : Catalog} (hc : c.Sound)
    (closer : List Catalog) :
    (c.definitions.flatMap answer).filter (fun n => !isHidden (closer.map (·.level)) n) =
      (c.definitions.filter fun d => !closer.any (·.isRegistered d.name)).flatMap answer := by
  refine filter_flatMap_of_forall fun d hd n hn => ?_
  rw [isHidden, i.baseName_eq (hc.unmarked hd) hn, List.any_map]
  rfl

theorem map_name_sightings (i : Itemised query answer) (hs : ∀ c ∈ catalogs, c.Sound) :
    (sightings (catalogs.map (·.level)) query).map (·.name) =
      (unhidden catalogs).flatMap answer := by
  rw [sightings, List.map_flatMap, List.zipIdx_map, List.flatMap_map, unhidden,
    List.flatMap_assoc]
  refine List.flatMap_congr ?_
  intro entry hc
  obtain ⟨c, depth⟩ := entry
  have hsound := hs c (List.fst_mem_of_mem_zipIdx hc)
  simp only [Prod.map, List.map_map, ← List.map_take]
  rw [i.eq_flatMap, ← filter_flatMap_not_isHidden i hsound]
  exact List.map_id _

/-- Whether the definition behind a name is a candidate in both respects. -/
def isCandidateAmong (definitions : List Definition) (name : String) : Bool :=
  definitions.any fun d => d.name == baseName name && d.declaration.autowireCandidate &&
    d.declaration.defaultCandidate

theorem isCandidateAmong_of_mem {definitions : List Definition} {d : Definition} {name : String}
    (hn : (definitions.map (·.name)).Nodup) (hd : d ∈ definitions) (hname : d.name = baseName name) :
    isCandidateAmong definitions name =
      (d.declaration.autowireCandidate && d.declaration.defaultCandidate) := by
  rw [Bool.eq_iff_iff, isCandidateAmong, List.any_eq_true]
  constructor
  · rintro ⟨e, he, h⟩
    simp only [Bool.and_eq_true, beq_iff_eq] at h ⊢
    have heq : e = d := List.inj_on_of_nodup_map hn he hd (h.1.1.trans hname.symm)
    subst heq
    exact ⟨h.1.2, h.2⟩
  · intro h
    simp only [Bool.and_eq_true] at h
    exact ⟨d, hd, by simp [hname, h]⟩

/-- A sighted name stands at the closest level that registers what is behind it, so that level
answers for the one definition that is unhidden under it. -/
theorem isCandidate_eq (i : Itemised query answer) (hs : ∀ c ∈ catalogs, c.Sound) {f : Found}
    (hf : f ∈ sightings (catalogs.map (·.level)) query) :
    isCandidate (catalogs.map (·.level)) f = isCandidateAmong (unhidden catalogs) f.name := by
  obtain ⟨level, hl, hq, hh⟩ := mem_sightings_iff.1 hf
  rw [List.getElem?_map, Option.map_eq_some_iff] at hl
  obtain ⟨c, hc, rfl⟩ := hl
  have hsound := hs c (List.mem_of_getElem? hc)
  rw [i.eq_flatMap] at hq
  obtain ⟨d, hd, hname⟩ := List.mem_flatMap.1 hq
  have hbase := i.baseName_eq (hsound.unmarked hd) hname
  have hu : d ∈ unhidden catalogs := by
    refine mem_unhidden_iff.2 ⟨f.depth, c, hc, hd, ?_⟩
    rw [isHidden, hbase, ← List.map_take, List.any_map] at hh
    exact hh
  rw [isCandidateAmong_of_mem (nodup_names_unhidden hs) hu hbase.symm, isCandidate,
    List.getElem?_map, hc, hbase]
  simp [Catalog.level, Catalog.autowireCandidate, Catalog.defaultCandidate,
    hsound.component?_of_mem hd]

/-! ## What is found -/

theorem any_isRegistered_eq (hs : ∀ c ∈ catalogs, c.Sound) {name : String}
    (hn : isFactoryName name = false) :
    (catalogs.map (·.level)).any (·.isRegistered name) =
      (unhidden catalogs).any (·.name == name) := by
  rw [Bool.eq_iff_iff, List.any_map]
  refine (exists_mem_unhidden_iff hs hn).symm.trans ?_
  simp

theorem map_name_findByType (hs : ∀ c ∈ catalogs, c.Sound) (container? : Option ComponentType)
    (target : ComponentType) :
    (findByType (catalogs.map (·.level)) container? target).map (·.name) =
      ((target :: (container?.map (·.containing target)).toList).flatMap fun t =>
        (unhidden catalogs).flatMap (·.namesOfType t)).eraseDups := by
  rw [findByType, map_name_firstSightings, List.map_flatMap]
  congr 1
  exact List.flatMap_congr fun t _ => map_name_sightings (itemised_namesOfType t) hs

theorem map_name_findAnnotated (hs : ∀ c ∈ catalogs, c.Sound) (a : Annotation) :
    (findAnnotated (catalogs.map (·.level)) a).map (·.name) =
      ((unhidden catalogs).flatMap (·.namesAnnotated a)).eraseDups := by
  rw [findAnnotated, map_name_firstSightings, map_name_sightings (itemised_namesAnnotated a) hs]

theorem isCandidate_of_mem_findByType (hs : ∀ c ∈ catalogs, c.Sound)
    {container? : Option ComponentType} {target : ComponentType} {f : Found}
    (hf : f ∈ findByType (catalogs.map (·.level)) container? target) :
    isCandidate (catalogs.map (·.level)) f = isCandidateAmong (unhidden catalogs) f.name := by
  obtain ⟨t, _, ht⟩ := List.mem_flatMap.1 (mem_of_mem_firstSightings hf)
  exact isCandidate_eq (itemised_namesOfType t) hs ht

theorem isCandidate_of_mem_findAnnotated (hs : ∀ c ∈ catalogs, c.Sound) {a : Annotation}
    {f : Found} (hf : f ∈ findAnnotated (catalogs.map (·.level)) a) :
    isCandidate (catalogs.map (·.level)) f = isCandidateAmong (unhidden catalogs) f.name :=
  isCandidate_eq (itemised_namesAnnotated a) hs (mem_of_mem_firstSightings hf)

theorem findings_congr {catalogs' : List Catalog} (hs : ∀ c ∈ catalogs, c.Sound)
    (hs' : ∀ c ∈ catalogs', c.Sound) (h : unhidden catalogs = unhidden catalogs') {c : Criteria}
    (hn : ∀ name ∈ c.names, isFactoryName name = false) :
    c.findings (catalogs.map (·.level)) = c.findings (catalogs'.map (·.level)) := by
  have htype : ∀ t, (findByType (catalogs.map (·.level)) c.container? t).map (·.name) =
      (findByType (catalogs'.map (·.level)) c.container? t).map (·.name) := by
    intro t
    rw [map_name_findByType hs, map_name_findByType hs', h]
  have hignored : c.ignoredNames (catalogs.map (·.level)) =
      c.ignoredNames (catalogs'.map (·.level)) := by
    rw [Criteria.ignoredNames, Criteria.ignoredNames, List.map_flatMap, List.map_flatMap]
    exact List.flatMap_congr fun t _ => htype t
  have hbyType : ∀ ignored t, candidates (catalogs.map (·.level)) ignored
        (findByType (catalogs.map (·.level)) c.container? t) =
      candidates (catalogs'.map (·.level)) ignored
        (findByType (catalogs'.map (·.level)) c.container? t) := by
    intro ignored t
    rw [map_name_candidates fun _ => isCandidate_of_mem_findByType hs,
      map_name_candidates fun _ => isCandidate_of_mem_findByType hs', htype, h]
  have hbyAnnotation : ∀ ignored a, candidates (catalogs.map (·.level)) ignored
        (findAnnotated (catalogs.map (·.level)) a) =
      candidates (catalogs'.map (·.level)) ignored
        (findAnnotated (catalogs'.map (·.level)) a) := by
    intro ignored a
    rw [map_name_candidates fun _ => isCandidate_of_mem_findAnnotated hs,
      map_name_candidates fun _ => isCandidate_of_mem_findAnnotated hs',
      map_name_findAnnotated hs, map_name_findAnnotated hs', h]
  have hbyName : ∀ ignored : List String,
      (c.names.filter fun name =>
        !ignored.contains name && (catalogs.map (·.level)).any (·.isRegistered name)) =
      c.names.filter fun name =>
        !ignored.contains name && (catalogs'.map (·.level)).any (·.isRegistered name) := by
    intro ignored
    refine List.filter_congr fun name hname => ?_
    rw [any_isRegistered_eq hs (hn name hname), any_isRegistered_eq hs' (hn name hname), h]
  simp only [Criteria.findings, hignored, hbyType, hbyAnnotation, hbyName]

end Componentry
