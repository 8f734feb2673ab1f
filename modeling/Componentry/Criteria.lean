import Componentry.ComponentType

/-!
# Componentry.Criteria

What a search for components looks for, and how far it looks. Names, types and annotations are
alternatives: a component that meets one of them is found. Criteria with none of them are open
(`isOpen`): they look for what the guarded declaration itself would provide.
-/

namespace Componentry

inductive Reach where
  | current
  | ancestors
  | all
deriving DecidableEq, Repr

def Reach.render : Reach → String
  | current => "current"
  | ancestors => "ancestors"
  | all => "all"

structure Criteria where
  names : List String := []
  types : List ComponentType := []
  annotations : List Annotation := []
  /-- Components of these types do not count as found. -/
  ignored : List ComponentType := []
  /-- A search for a type also finds this container, with that type as its element. -/
  container? : Option ComponentType := none
  reach : Reach := .all
deriving DecidableEq, Repr

namespace Criteria

/-- Whether the criteria name nothing to look for. -/
def isOpen (c : Criteria) : Bool := c.names.isEmpty && c.types.isEmpty && c.annotations.isEmpty

def withType (c : Criteria) (target : ComponentType) : Criteria :=
  { c with types := c.types ++ [target] }

def renderPart (label : String) : List String → List String
  | [] => []
  | items => [label ++ ": " ++ ", ".intercalate items]

def render (c : Criteria) : String :=
  let parts :=
    renderPart "names" c.names ++
    renderPart "types" (c.types.map (·.render)) ++
    renderPart "annotations" (c.annotations.map (·.name)) ++
    renderPart "ignored" (c.ignored.map (·.render)) ++
    renderPart "parameterized container" (c.container?.map (·.render)).toList ++
    renderPart "search" [c.reach.render]
  "(" ++ "; ".intercalate parts ++ ")"

end Criteria

end Componentry
