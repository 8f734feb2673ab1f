import Componentry.Declaration
import Componentry.Event
import Componentry.Search

/-!
# Componentry.Evaluation

Evaluating criteria against a hierarchy: which components meet them, and in which words that is
reported. Components found by type or by annotation have to be candidates, components found by name
need not be. Components of ignored types never count.

Open criteria look for the type that the guarded declaration provides. For a container of the kind
that the criteria name, that is its element type, so an element and its container guard against
each other. Where no type can be told, nothing is found.
-/

namespace Componentry

inductive Subject where
  | component (declaration : Declaration)
  | configuration (declaration : Declaration)
deriving DecidableEq, Repr

namespace Subject

def declaration : Subject → Declaration
  | component d => d
  | configuration d => d

def isConfiguration : Subject → Bool
  | component _ => false
  | configuration _ => true

/-- The type that open criteria look for. -/
def impliedType? (container? : Option ComponentType) : Subject → Option ComponentType
  | configuration _ => none
  | component d =>
    d.produced?.map fun produced =>
      match container?, produced.element? with
      | some container, some element =>
        if produced.conformsTo container then element else produced
      | _, _ => produced

end Subject

/-- The criteria to search by: open criteria are completed with the implied type. -/
def Criteria.forSubject? (c : Criteria) (subject : Subject) : Option Criteria :=
  if c.isOpen then (subject.impliedType? c.container?).map c.withType else some c

inductive Finding where
  | ofType (target : ComponentType) (names : List String)
  | annotated (a : Annotation) (names : List String)
  | named (names : List String)
deriving DecidableEq, Repr

namespace Finding

def names : Finding → List String
  | ofType _ names => names
  | annotated _ names => names
  | named names => names

def render : Finding → String
  | ofType target names =>
    "found components of type '" ++ target.render ++ "' " ++ ", ".intercalate names
  | annotated a names =>
    "found components annotated with '" ++ a.name ++ "' " ++ ", ".intercalate names
  | named names => "found components named " ++ ", ".intercalate names

end Finding

/-- The components that criteria match, and a description of the search. -/
structure Match where
  /-- Each matched name once. -/
  names : List String
  reason : String
deriving DecidableEq, Repr

def Match.matched (m : Match) : Bool := !m.names.isEmpty

/-- The names that count among those found: candidates that are not ignored. -/
def candidates (levels : List Level) (ignored : List String) (found : List Found) : List String :=
  (found.filter fun f => !ignored.contains f.name && isCandidate levels f).map (·.name)

namespace Criteria

def ignoredNames (c : Criteria) (levels : List Level) : List String :=
  (c.ignored.flatMap (findByType levels c.container?)).map (·.name)

/-- What each criterion finds, in the order types, annotations, names; a criterion that finds
nothing is left out. -/
def findings (c : Criteria) (levels : List Level) : List Finding :=
  let ignored := c.ignoredNames levels
  let byType := c.types.map fun t =>
    Finding.ofType t (candidates levels ignored (findByType levels c.container? t))
  let byAnnotation := c.annotations.map fun a =>
    Finding.annotated a (candidates levels ignored (findAnnotated levels a))
  let byName := Finding.named <| c.names.filter fun name =>
    !ignored.contains name && levels.any (·.isRegistered name)
  (byType ++ byAnnotation ++ [byName]).filter fun f => !f.names.isEmpty

def search (c : Criteria) (levels : List Level) : Match :=
  let findings := c.findings levels
  let result :=
    if findings.isEmpty then "did not find any components"
    else "; ".intercalate (findings.map (·.render))
  { names := (findings.flatMap (·.names)).eraseDups
    reason := c.render ++ " " ++ result }

end Criteria

/-- A search that covers ancestors says so when it leaves some of them out. -/
def Hierarchy.depthEvents (h : Hierarchy) (reach : Reach) : List Event :=
  if reach ≠ .current ∧ maxAncestors < h.ancestors.length then [.hierarchyTooDeep maxAncestors]
  else []

def evaluate (subject : Subject) (c : Criteria) (h : Hierarchy) : Logged Match :=
  match c.forSubject? subject with
  | none => { value := { names := [], reason := c.render ++ " unable to deduce component type" } }
  | some c => { value := c.search (h.searched c.reach), events := h.depthEvents c.reach }

end Componentry
