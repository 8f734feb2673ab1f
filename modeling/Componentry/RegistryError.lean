/-!
# Componentry.RegistryError

Why a component cannot be registered. Errors are ordered by cause, then by name.
-/

namespace Componentry

inductive RegistryError where
  /-- The name is taken, and definitions must not be overridden. -/
  | duplicateName (name : String)
  /-- The name is empty or refers to a factory. -/
  | invalidName (name : String)
deriving DecidableEq, Ord, Repr

namespace RegistryError

def message : RegistryError → String
  | duplicateName name => "Attempted to register a duplicated component with name: " ++ name
  | invalidName name =>
    "Invalid component name: '" ++ name ++
      "' - names cannot be empty or start with the factory prefix."

end RegistryError

end Componentry
