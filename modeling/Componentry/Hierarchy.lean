import Componentry.ComponentType

/-!
# Componentry.Hierarchy

What conditions see of registries: a row of levels, the current one first and then its ancestors,
from the closest one on. A level answers queries about itself alone. Nothing ties its answers
together, so a level may stand for a registry of any kind: `Catalog.level` answers from definitions
and `Tables.level` from tables.
-/

namespace Componentry

inductive Scopes where
  | all
  | singletonOnly
deriving DecidableEq, Repr

structure Level where
  /-- Whether a name is registered; a name with the factory mark asks for a factory. -/
  isRegistered : String → Bool
  /-- The names of the components that provide a type, and the marked names of the factories that
  are of that type. -/
  namesOfType : Scopes → ComponentType → List String
  namesAnnotated : Annotation → List String
  /-- Whether a search by type may choose a component at all. -/
  autowireCandidate : String → Bool
  /-- Whether a search by type chooses a component unasked. -/
  defaultCandidate : String → Bool
  annotationsOf : String → List Annotation

/-- A level and its ancestors, the closest one first. -/
structure Hierarchy where
  current : Level
  ancestors : List Level

namespace Hierarchy

def levels (h : Hierarchy) : List Level := h.current :: h.ancestors

def parent? (h : Hierarchy) : Option Hierarchy :=
  match h.ancestors with
  | [] => none
  | parent :: ancestors => some ⟨parent, ancestors⟩

/-- Whether a name is registered at any level, however far away. -/
def isRegistered (h : Hierarchy) (name : String) : Bool := h.levels.any (·.isRegistered name)

end Hierarchy

/-- Answers written down beforehand, for a level that stands in for a registry. -/
structure Tables where
  names : List String := []
  /-- Names for the rendered forms of types. -/
  types : List (String × List String) := []
  annotations : List (String × List String) := []
  notAutowire : List String := []
  notDefault : List String := []

namespace Tables

def answer (table : List (String × List String)) (entry : String) : List String :=
  (table.lookup entry).getD []

/-- The level that answers from tables, whatever the scopes asked for. -/
def level (t : Tables) : Level where
  isRegistered name := t.names.contains name
  namesOfType _ target := answer t.types target.render
  namesAnnotated a := answer t.annotations a.name
  autowireCandidate name := !t.notAutowire.contains name
  defaultCandidate name := !t.notDefault.contains name
  annotationsOf _ := []

end Tables

end Componentry
