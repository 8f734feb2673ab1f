import Componentry.ComponentType

/-!
# Componentry.Declaration

Declarations of components: a name, what is known of the type, annotations, a scope and two flags
that say whether a search by type may choose the component.

`Declaration.produced?` is the type of the instances that a component provides. For a factory that
is what it makes, not the factory.
-/

namespace Componentry

def singletonScope : String := "SINGLETON"

structure Declaration where
  name : String
  /-- The declared type; for a factory, the type of the factory. -/
  type? : Option ComponentType := none
  /-- What a factory makes, or what an untyped declaration provides. -/
  hint? : Option ComponentType := none
  /-- Annotations of the declaration itself, repetitions kept. -/
  annotations : List Annotation := []
  scope : String := singletonScope
  autowireCandidate : Bool := true
  defaultCandidate : Bool := true
deriving DecidableEq, Repr, Inhabited

namespace Declaration

def isFactory (d : Declaration) : Bool := d.type?.any (·.isFactory)

def isSingleton (d : Declaration) : Bool := d.scope == singletonScope

/-- The type of the instances that the component provides, as far as it is known. The hint of a
factory has precedence over the product of its type; a type that is no factory has precedence over
the hint. -/
def produced? (d : Declaration) : Option ComponentType :=
  match d.type? with
  | none => d.hint?
  | some t => if t.isFactory then d.hint?.or t.product? else some t

/-- The annotations of the declaration, then those of the produced type, each one once. -/
def effectiveAnnotations (d : Declaration) : List Annotation :=
  (d.annotations ++ (d.produced?.map (·.annotations)).getD []).eraseDups

/-- Whether instances of the component can stand where `target` is expected. -/
def provides (d : Declaration) (target : ComponentType) : Bool :=
  d.produced?.any (·.conformsTo target)

/-- Whether the component is a factory that itself can stand where `target` is expected. -/
def isFactoryOfType (d : Declaration) (target : ComponentType) : Bool :=
  d.type?.any fun t => t.isFactory && t.conformsTo target

end Declaration

end Componentry
