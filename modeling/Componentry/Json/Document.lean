import Componentry.Json.Token

/-!
# Componentry.Json.Document

The value of a JSON text. Tokens are taken in one by one; what is open is kept on a stack, so that
no step looks back and the depth of nesting is the height of the stack. A text has a value if its
tokens are those of exactly one value in which at most `maxNesting` lists and objects are open at a
time.
-/

namespace Componentry
namespace Json

/-- How many lists and objects may be open at a time. -/
def maxNesting : Nat := 127

/-- A list or an object that waits for the value of its next item. What it holds so far stands in
reverse. -/
inductive Open where
  | list (items : List Value)
  | object (fields : List (String × Value)) (key : String)
deriving Repr

/-- What may come next; `outer` is what is open around it, the innermost first. -/
inductive Expecting where
  | value (outer : List Open)
  /-- The first item of a list, or its end. -/
  | firstItem (outer : List Open)
  /-- The first key of an object, or its end. -/
  | firstKey (outer : List Open)
  | key (fields : List (String × Value)) (outer : List Open)
  | colon (fields : List (String × Value)) (key : String) (outer : List Open)
  /-- What goes on after a value that has ended. -/
  | rest (v : Value) (outer : List Open)
deriving Repr

namespace Expecting

def begin (outer : List Open) : Token → Option Expecting
  | .null => some (.rest .null outer)
  | .bool b => some (.rest (.bool b) outer)
  | .number n => some (.rest (.number n) outer)
  | .string s => some (.rest (.string s) outer)
  | .openList => if outer.length < maxNesting then some (.firstItem outer) else none
  | .openObject => if outer.length < maxNesting then some (.firstKey outer) else none
  | _ => none

def step : Expecting → Token → Option Expecting
  | value outer, t => begin outer t
  | firstItem outer, .closeList => some (.rest (.list []) outer)
  | firstItem outer, t => begin (.list [] :: outer) t
  | firstKey outer, .closeObject => some (.rest (.object []) outer)
  | firstKey outer, .string k => some (.colon [] k outer)
  | key fields outer, .string k => some (.colon fields k outer)
  | colon fields k outer, .colon => some (.value (.object fields k :: outer))
  | rest v (.list items :: outer), .comma => some (.value (.list (v :: items) :: outer))
  | rest v (.list items :: outer), .closeList => some (.rest (.list (v :: items).reverse) outer)
  | rest v (.object fields k :: outer), .comma => some (.key ((k, v) :: fields) outer)
  | rest v (.object fields k :: outer), .closeObject =>
    some (.rest (.object ((k, v) :: fields).reverse) outer)
  | _, _ => none

/-- The value that has ended with nothing open around it. -/
def result? : Expecting → Option Value
  | rest v [] => some v
  | _ => none

end Expecting

def Value.ofTokens? (tokens : List Token) : Option Value :=
  (tokens.foldlM Expecting.step (.value [])).bind (·.result?)

def parse? (text : String) : Option Value :=
  (Token.readAll? text.toList).bind Value.ofTokens?

end Json
end Componentry
