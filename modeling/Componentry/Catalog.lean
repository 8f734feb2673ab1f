import Componentry.Declaration
import Componentry.Hierarchy
import Componentry.Name
import Componentry.RegistryError
import Componentry.Roster

/-!
# Componentry.Catalog

The definitions of one registry, in the order in which their names were first registered, and the
queries on them. A catalog holds no name twice, and each name in it is valid: `register` refuses
any other (`register_ok_iff`).

A definition may answer to two names: its own one stands for what the component provides, and
behind the factory mark it stands for the component itself, if that is a factory.
-/

namespace Componentry

structure Definition where
  declaration : Declaration
  /-- The name of the configuration that the declaration came with, if any. -/
  source? : Option String := none
deriving DecidableEq, Repr, Inhabited

namespace Definition

def name (d : Definition) : String := d.declaration.name

/-- The names under which a definition answers to a query by type. -/
def namesOfType (d : Definition) (target : ComponentType) : List String :=
  (if d.declaration.provides target then [d.name] else []) ++
    (if d.declaration.isFactoryOfType target then [factoryName d.name] else [])

end Definition

instance : Keyed Definition := ⟨Definition.name⟩

abbrev Catalog := Roster Definition

namespace Catalog

/-- The definitions in the order in which their names were first registered. -/
def definitions (c : Catalog) : List Definition := c.toList

/-- The definition that a name refers to. Behind the factory mark it has to be a factory. -/
def component? (c : Catalog) (name : String) : Option Definition :=
  (c.get? (baseName name)).filter fun d => !isFactoryName name || d.declaration.isFactory

def isRegistered (c : Catalog) (name : String) : Bool := (c.component? name).isSome

def componentsOfType (c : Catalog) (target : ComponentType) : List Definition :=
  c.definitions.filter fun d =>
    d.declaration.provides target || d.declaration.isFactoryOfType target

def inScopes (c : Catalog) : Scopes → List Definition
  | .all => c.definitions
  | .singletonOnly => c.definitions.filter (·.declaration.isSingleton)

def namesOfType (c : Catalog) (scopes : Scopes) (target : ComponentType) : List String :=
  (c.inScopes scopes).flatMap (·.namesOfType target)

def namesAnnotated (c : Catalog) (a : Annotation) : List String :=
  (c.definitions.filter fun d => d.declaration.effectiveAnnotations.contains a).map (·.name)

/-- Names that are not registered count as candidates. -/
def autowireCandidate (c : Catalog) (name : String) : Bool :=
  (c.component? name).all (·.declaration.autowireCandidate)

def defaultCandidate (c : Catalog) (name : String) : Bool :=
  (c.component? name).all (·.declaration.defaultCandidate)

/-- The annotations of a component; behind the factory mark, those of the factory's own type. -/
def annotationsOf (c : Catalog) (name : String) : List Annotation :=
  match c.component? name with
  | none => []
  | some d =>
    if isFactoryName name then (d.declaration.type?.map (·.annotations)).getD []
    else d.declaration.effectiveAnnotations

/-- Adds a definition. A definition with a known name takes the place of the old one, if that is
allowed. -/
def register (c : Catalog) (overriding : Bool) (d : Definition) : Except RegistryError Catalog :=
  if !isValidName d.name then .error (.invalidName d.name)
  else if !overriding && (c.position? d.name).isSome then .error (.duplicateName d.name)
  else .ok (c.put d)

def level (c : Catalog) : Level where
  isRegistered := c.isRegistered
  namesOfType := c.namesOfType
  namesAnnotated := c.namesAnnotated
  autowireCandidate := c.autowireCandidate
  defaultCandidate := c.defaultCandidate
  annotationsOf := c.annotationsOf

theorem register_ok_iff {c c' : Catalog} {overriding : Bool} {d : Definition} :
    c.register overriding d = .ok c' ↔
      isValidName d.name = true ∧ (overriding = true ∨ c.position? d.name = none) ∧
        c' = c.put d := by
  unfold register
  cases isValidName d.name <;> cases overriding <;> cases c.position? d.name <;>
    simp [eq_comm]

end Catalog

end Componentry
