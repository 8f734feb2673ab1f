import Componentry.Proofs.Flattening

/-!
# Componentry.Proofs.Listing

The names that a search of sound catalogs matches, as one list. A search removes repetitions for
each criterion and again for all of them; once is enough (`eraseDups_flatMap_append`). It asks for
each type and, with a container, for the container of it right after (`ComponentType.alternatives`),
so the container only lengthens the lists of types: `names_search_eq_listed`. So it is for
evaluations in a hierarchy of registries, `names_evaluate_eq_listed`.
-/

namespace Componentry

/-! ## Removing repetitions early -/

theorem eraseDups_eraseDups {α : Type} [BEq α] [LawfulBEq α] (xs : List α) :
    xs.eraseDups.eraseDups = xs.eraseDups := by
  match xs with
  | [] => rfl
  | x :: xs =>
    have hrest := eraseDups_eraseDups (xs.filter fun y => !y == x)
    rw [List.eraseDups_cons, List.eraseDups_cons, filter_eraseDups, List.filter_filter]
    simp only [Bool.and_self]
    rw [hrest]
termination_by xs.length
decreasing_by exact Nat.lt_succ_of_le (List.length_filter_le _ _)

theorem eraseDups_append_of_left {α : Type} [BEq α] [LawfulBEq α] (xs ys : List α) :
    (xs.eraseDups ++ ys).eraseDups = (xs ++ ys).eraseDups := by
  have hrest : ys.removeAll xs.eraseDups = ys.removeAll xs := by
    refine List.filter_congr fun y _ => ?_
    rw [Bool.eq_iff_iff]
    simp
  rw [List.eraseDups_append, List.eraseDups_append, eraseDups_eraseDups, hrest]

theorem eraseDups_append_of_right {α : Type} [BEq α] [LawfulBEq α] (xs ys : List α) :
    (xs ++ ys.eraseDups).eraseDups = (xs ++ ys).eraseDups := by
  have hrest : ys.eraseDups.removeAll xs = (ys.removeAll xs).eraseDups := filter_eraseDups _ ys
  rw [List.eraseDups_append, List.eraseDups_append, hrest, eraseDups_eraseDups]

theorem eraseDups_flatMap_append {α β : Type} [BEq β] [LawfulBEq β] (f : α → List β)
    (xs : List α) (ys : List β) :
    ((xs.flatMap fun x => (f x).eraseDups) ++ ys).eraseDups = (xs.flatMap f ++ ys).eraseDups := by
  induction xs with
  | nil => rfl
  | cons x xs ih =>
    rw [List.flatMap_cons, List.append_assoc, eraseDups_append_of_left,
      ← eraseDups_append_of_right, ih, eraseDups_append_of_right, List.flatMap_cons,
      List.append_assoc]

/-! ## Listings -/

/-- The types that are asked for in a search for one type: itself, then the container of it. -/
def ComponentType.alternatives (container? : Option ComponentType) (target : ComponentType) :
    List ComponentType :=
  target :: (container?.map (·.containing target)).toList

@[simp] theorem ComponentType.flatMap_alternatives_none (targets : List ComponentType) :
    targets.flatMap (alternatives none) = targets :=
  List.flatMap_singleton' targets

/-- What the unhidden definitions answer to types, one type after the other. -/
def answers (catalogs : List Catalog) (targets : List ComponentType) : List String :=
  targets.flatMap fun t => (unhidden catalogs).flatMap (·.namesOfType t)

/-- The names that types, annotations and names lead to, each one once, less those that answer to
ignored types. -/
def listed (catalogs : List Catalog) (types ignored : List ComponentType)
    (annotations : List Annotation) (names : List String) : List String :=
  let counts (name : String) : Bool := !(answers catalogs ignored).contains name
  let isSought (name : String) : Bool := counts name && isCandidateAmong (unhidden catalogs) name
  let annotated := annotations.flatMap fun a => (unhidden catalogs).flatMap (·.namesAnnotated a)
  ((answers catalogs types).filter isSought ++ annotated.filter isSought ++
    names.filter fun name =>
      counts name && (catalogs.map (·.level)).any (·.isRegistered name)).eraseDups

variable {catalogs : List Catalog}

theorem mem_answers_iff {targets : List ComponentType} {name : String} :
    name ∈ answers catalogs targets ↔
      ∃ t ∈ targets, ∃ d ∈ unhidden catalogs, name ∈ d.namesOfType t := by
  simp [answers]

theorem answers_flatMap {α : Type} (xs : List α) (f : α → List ComponentType) :
    answers catalogs (xs.flatMap f) = xs.flatMap fun x => answers catalogs (f x) :=
  List.flatMap_assoc

theorem map_name_findByType_eq (hs : ∀ c ∈ catalogs, c.Sound)
    (container? : Option ComponentType) (target : ComponentType) :
    (findByType (catalogs.map (·.level)) container? target).map (·.name) =
      (answers catalogs (target.alternatives container?)).eraseDups :=
  map_name_findByType hs container? target

theorem contains_ignoredNames_eq (hs : ∀ c ∈ catalogs, c.Sound) (c : Criteria) (name : String) :
    (c.ignoredNames (catalogs.map (·.level))).contains name =
      (answers catalogs (c.ignored.flatMap (·.alternatives c.container?))).contains name := by
  rw [Bool.eq_iff_iff, List.contains_iff_mem, List.contains_iff_mem, Criteria.ignoredNames,
    List.map_flatMap, answers_flatMap]
  simp only [map_name_findByType_eq hs, List.mem_flatMap, List.mem_eraseDups]

/-- What a search matches, read off the definitions. -/
theorem names_search_eq_listed (hs : ∀ c ∈ catalogs, c.Sound) (c : Criteria) :
    (c.search (catalogs.map (·.level))).names =
      listed catalogs (c.types.flatMap (·.alternatives c.container?))
        (c.ignored.flatMap (·.alternatives c.container?)) c.annotations c.names := by
  have htypes : ∀ ignored t, candidates (catalogs.map (·.level)) ignored
      (findByType (catalogs.map (·.level)) c.container? t) =
        ((answers catalogs (t.alternatives c.container?)).filter fun name =>
          !ignored.contains name && isCandidateAmong (unhidden catalogs) name).eraseDups := by
    intro ignored t
    rw [map_name_candidates fun _ => isCandidate_of_mem_findByType hs, map_name_findByType_eq hs,
      filter_eraseDups]
  have hannotations : ∀ ignored a, candidates (catalogs.map (·.level)) ignored
      (findAnnotated (catalogs.map (·.level)) a) =
        (((unhidden catalogs).flatMap (·.namesAnnotated a)).filter fun name =>
          !ignored.contains name && isCandidateAmong (unhidden catalogs) name).eraseDups := by
    intro ignored a
    rw [map_name_candidates fun _ => isCandidate_of_mem_findAnnotated hs, map_name_findAnnotated hs,
      filter_eraseDups]
  show ((c.findings (catalogs.map (·.level))).flatMap (·.names)).eraseDups = _
  rw [flatMap_names_findings]
  simp only [htypes, hannotations, contains_ignoredNames_eq hs]
  -- the repetitions that each criterion removes are removed at the end
  rw [List.append_assoc, eraseDups_flatMap_append, ← eraseDups_append_of_right,
    eraseDups_flatMap_append, eraseDups_append_of_right, listed, answers_flatMap c.types,
    List.filter_flatMap, List.filter_flatMap, List.append_assoc]

/-- What an evaluation matches, read off the definitions of the registries that it covers. -/
theorem names_evaluate_eq_listed {r : Registry} {ancestors : List Registry}
    (h : Lineage (r :: ancestors)) {c : Criteria} (hgiven : c.IsGiven) (subject : Subject) :
    (evaluate subject c r.hierarchy).value.names =
      listed ((r.searched ancestors c.reach).map (·.catalog))
        (c.types.flatMap (·.alternatives c.container?))
        (c.ignored.flatMap (·.alternatives c.container?)) c.annotations c.names := by
  rw [evaluate_of_isGiven hgiven, Registry.searched_hierarchy h.ancestors_eq]
  exact names_search_eq_listed (Registry.sound_searched h.sound c.reach) c

end Componentry
