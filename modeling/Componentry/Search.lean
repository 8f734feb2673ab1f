import Componentry.Criteria
import Componentry.Hierarchy
import Componentry.Name

/-!
# Componentry.Search

Searching a hierarchy by type or by annotation. All searched levels are asked, the closest one
first. A name that is registered at a closer level hides what levels behind it answer under that
name, so that a search finds a component only where its name really leads. Each name is found once,
at the first level that answers it.
-/

namespace Componentry

def maxAncestors : Nat := 64

/-- The levels that a search covers, the closest one first. -/
def Hierarchy.searched (h : Hierarchy) : Reach → List Level
  | .current => [h.current]
  | .ancestors => h.ancestors.take maxAncestors
  | .all => h.current :: h.ancestors.take maxAncestors

structure Found where
  name : String
  depth : Nat
deriving DecidableEq, Repr

/-- Whether one of the levels registers a name or the factory behind it. -/
def isHidden (closer : List Level) (name : String) : Bool :=
  closer.any (·.isRegistered (baseName name))

/-- All answers to a query that no closer level hides, level by level. -/
def sightings (levels : List Level) (query : Level → List String) : List Found :=
  levels.zipIdx.flatMap fun (level, depth) =>
    ((query level).filter fun name => !isHidden (levels.take depth) name).map (⟨·, depth⟩)

def firstSightings (found : List Found) : List Found :=
  found.eraseDupsBy fun a b => a.name == b.name

/-- Searches by type. With a container, what answers to the type itself comes first, then what
answers to the container of it. -/
def findByType (levels : List Level) (container? : Option ComponentType)
    (target : ComponentType) : List Found :=
  let targets := target :: (container?.map (·.containing target)).toList
  firstSightings (targets.flatMap fun t => sightings levels (·.namesOfType .all t))

def findAnnotated (levels : List Level) (a : Annotation) : List Found :=
  firstSightings (sightings levels (·.namesAnnotated a))

/-- Whether the level that answered a name takes the component for a candidate. A factory is a
candidate if what it makes is one. -/
def isCandidate (levels : List Level) (found : Found) : Bool :=
  levels[found.depth]?.any fun level =>
    level.autowireCandidate (baseName found.name) &&
      level.defaultCandidate (baseName found.name)

end Componentry
