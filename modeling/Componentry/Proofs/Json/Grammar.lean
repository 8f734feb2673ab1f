import Componentry.Json.Document

/-!
# Componentry.Proofs.Json.Grammar

The grammar of JSON. `Value.tokens` writes a value as tokens; `Token.Spelt` says which texts are
those of a token, and `Token.Spells` which are those of a row of tokens, with blanks before, between
and behind them. A text is JSON for a value if it spells the tokens of that value (`Value.Written`).

The grammar knows no limits. How deep a value goes (`Value.nesting`) and whether its numbers are
finite in double precision (`Value.IsFinite`) are said of values.
-/

namespace Componentry
namespace Json

/-! ## Tokens of a value -/

mutual
def Value.tokens : Value → List Token
  | .null => [.null]
  | .bool b => [.bool b]
  | .number n => [.number n]
  | .string s => [.string s]
  | .list items => .openList :: (itemTokens items ++ [.closeList])
  | .object fields => .openObject :: (fieldTokens fields ++ [.closeObject])
/-- Items with commas between them. -/
def itemTokens : List Value → List Token
  | [] => []
  | [v] => v.tokens
  | v :: items => v.tokens ++ .comma :: itemTokens items
/-- Fields with commas between them. -/
def fieldTokens : List (String × Value) → List Token
  | [] => []
  | [(k, v)] => .string k :: .colon :: v.tokens
  | (k, v) :: fields => .string k :: .colon :: (v.tokens ++ .comma :: fieldTokens fields)
end

mutual
/-- How many lists and objects are open at the deepest place of a value. -/
def Value.nesting : Value → Nat
  | .list items => itemNesting items + 1
  | .object fields => fieldNesting fields + 1
  | _ => 0
def itemNesting : List Value → Nat
  | [] => 0
  | v :: items => max v.nesting (itemNesting items)
def fieldNesting : List (String × Value) → Nat
  | [] => 0
  | (_, v) :: fields => max v.nesting (fieldNesting fields)
end

/-- Whether a token is anything but a number that is too big for double precision. -/
def Token.isFinite : Token → Bool
  | number n => !n.isTooBig
  | _ => true

/-- No number in a value is too big. -/
def Value.IsFinite (v : Value) : Prop := ∀ t ∈ v.tokens, t.isFinite = true

instance : DecidablePred Value.IsFinite := fun _ => inferInstanceAs (Decidable (∀ _ ∈ _, _))

theorem mem_fieldTokens {f : String × Value} {t : Token} (ht : t ∈ f.2.tokens) :
    {fields : List (String × Value)} → f ∈ fields → t ∈ fieldTokens fields
  | [(_, _)], hf => by
    cases List.mem_singleton.1 hf
    simp [fieldTokens, ht]
  | (_, _) :: g :: fields, hf => by
    rcases List.mem_cons.1 hf with rfl | hf
    · simp [fieldTokens, ht]
    · simp [fieldTokens, mem_fieldTokens ht hf]

theorem Value.IsFinite.field {v : Value} (h : v.IsFinite) {f : String × Value}
    (hf : f ∈ v.fields) : f.2.IsFinite := by
  cases v with
  | object fields =>
    intro t ht
    have hmem : t ∈ fieldTokens fields := mem_fieldTokens ht hf
    exact h t (by simp [tokens, hmem])
  | _ => cases hf

namespace Token

/-! ## Texts of a number -/

def Digits (s : List Char) : Prop := s ≠ [] ∧ ∀ c ∈ s, c.isDigit = true

/-- Digits before the point: a single zero, or digits that do not start with zero. -/
def WholeDigits (s : List Char) : Prop := Digits s ∧ (s.head? ≠ some '0' ∨ s = ['0'])

/-- The digits behind the point, and the text that they stand in. -/
inductive FractionSpelt : List Char → List Char → Prop where
  | absent : FractionSpelt [] []
  | point {digits : List Char} : Digits digits → FractionSpelt digits ('.' :: digits)

inductive ExponentSpelt : Int → List Char → Prop where
  | absent : ExponentSpelt 0 []
  | bare {mark : Char} {digits : List Char} : mark = 'e' ∨ mark = 'E' → Digits digits →
      ExponentSpelt (digitsValue digits) (mark :: digits)
  | plus {mark : Char} {digits : List Char} : mark = 'e' ∨ mark = 'E' → Digits digits →
      ExponentSpelt (digitsValue digits) (mark :: '+' :: digits)
  | minus {mark : Char} {digits : List Char} : mark = 'e' ∨ mark = 'E' → Digits digits →
      ExponentSpelt (-(digitsValue digits : Int)) (mark :: '-' :: digits)

inductive MagnitudeSpelt : Number → List Char → Prop where
  | intro {whole fraction f e : List Char} {exponent : Int} : WholeDigits whole →
      FractionSpelt fraction f → ExponentSpelt exponent e →
      MagnitudeSpelt (.ofDigits whole fraction exponent) (whole ++ f ++ e)

inductive NumberSpelt : Number → List Char → Prop where
  | positive {n : Number} {s : List Char} : MagnitudeSpelt n s → NumberSpelt n s
  | negative {n : Number} {s : List Char} : MagnitudeSpelt n s →
      NumberSpelt { n with negative := true } ('-' :: s)

/-! ## Texts of a string -/

/-- The characters of a string, and the text between its quotes. A character beyond the first plane
may be written as the pair of its surrogates; a surrogate by itself is no character. -/
inductive StringSpelt : List Char → List Char → Prop where
  | nil : StringSpelt [] []
  | char {c : Char} {cs s : List Char} : ' ' ≤ c → c ≠ '"' → c ≠ '\\' → StringSpelt cs s →
      StringSpelt (c :: cs) (c :: s)
  | escape {letter c : Char} {cs s : List Char} : escaped? letter = some c → StringSpelt cs s →
      StringSpelt (c :: cs) ('\\' :: letter :: s)
  | unit {h₁ h₂ h₃ h₄ : Char} {u : Nat} {cs s : List Char} : codeUnit? h₁ h₂ h₃ h₄ = some u →
      isHighSurrogate u = false → isLowSurrogate u = false → StringSpelt cs s →
      StringSpelt (Char.ofNat u :: cs) ('\\' :: 'u' :: h₁ :: h₂ :: h₃ :: h₄ :: s)
  | pair {h₁ h₂ h₃ h₄ l₁ l₂ l₃ l₄ : Char} {high low : Nat} {cs s : List Char} :
      codeUnit? h₁ h₂ h₃ h₄ = some high → isHighSurrogate high = true →
      codeUnit? l₁ l₂ l₃ l₄ = some low → isLowSurrogate low = true → StringSpelt cs s →
      StringSpelt (joinSurrogates high low :: cs)
        ('\\' :: 'u' :: h₁ :: h₂ :: h₃ :: h₄ :: '\\' :: 'u' :: l₁ :: l₂ :: l₃ :: l₄ :: s)

inductive Spelt : Token → List Char → Prop where
  | openList : Spelt .openList ['[']
  | closeList : Spelt .closeList [']']
  | openObject : Spelt .openObject ['\x7b']
  | closeObject : Spelt .closeObject ['\x7d']
  | comma : Spelt .comma [',']
  | colon : Spelt .colon [':']
  | nullWord : Spelt .null ['n', 'u', 'l', 'l']
  | trueWord : Spelt (.bool true) ['t', 'r', 'u', 'e']
  | falseWord : Spelt (.bool false) ['f', 'a', 'l', 's', 'e']
  | number {n : Number} {s : List Char} : NumberSpelt n s → Spelt (.number n) s
  | string {cs s : List Char} : StringSpelt cs s →
      Spelt (.string (String.ofList cs)) ('"' :: (s ++ ['"']))

def Blank (s : List Char) : Prop := ∀ c ∈ s, isBlank c = true

/-- A text spells tokens, with blanks before, between and behind them. -/
inductive Spells : List Char → List Token → Prop where
  | nil {blanks : List Char} : Blank blanks → Spells blanks []
  | cons {blanks s rest : List Char} {t : Token} {ts : List Token} : Blank blanks → Spelt t s →
      Spells rest ts → Spells (blanks ++ (s ++ rest)) (t :: ts)

theorem blank_nil : Blank [] := List.forall_mem_nil _

/-- Without blanks in front. -/
theorem Spells.append {s rest : List Char} {t : Token} {ts : List Token} (h : Spelt t s)
    (hrest : Spells rest ts) : Spells (s ++ rest) (t :: ts) :=
  .cons blank_nil h hrest

end Token

/-- A text is JSON for a value. -/
def Value.Written (v : Value) (text : String) : Prop := Token.Spells text.toList v.tokens

end Json
end Componentry
