import Componentry.Json.Number

/-!
# Componentry.Json.Value

Documents in JSON as data.
-/

namespace Componentry
namespace Json

inductive Value where
  | null
  | bool (b : Bool)
  | number (n : Number)
  | string (s : String)
  | list (items : List Value)
  /-- The fields as they are written, repeated keys included. -/
  | object (fields : List (String × Value))
deriving Repr, Inhabited

/-- The fields of an object. A value that is no object has none. -/
def Value.fields : Value → List (String × Value)
  | object fields => fields
  | _ => []

end Json
end Componentry
