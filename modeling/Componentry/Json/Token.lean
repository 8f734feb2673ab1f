import Componentry.Json.Value

/-!
# Componentry.Json.Token

The tokens of a JSON text. `Token.read?` reads the token at the front of a text and
`Token.readAll?` all of them, with blanks between tokens left out. Reading is strict: numbers have
no leading zeros and are not too big for double precision, control characters in a string are
escaped, and escaped surrogates come in pairs.

Each reader gives back what follows, which is never longer than what it was given
(`length_readPieces?`, `length_readNumber?`, `length_read?`), so reading all tokens ends.
-/

namespace Componentry
namespace Json

inductive Token where
  | openList
  | closeList
  | openObject
  | closeObject
  | comma
  | colon
  | null
  | bool (b : Bool)
  | number (n : Number)
  | string (s : String)
deriving DecidableEq, Repr

namespace Token

def isBlank (c : Char) : Bool := c == ' ' || c == '\t' || c == '\n' || c == '\r'

/-! ## Strings -/

/-- A character of a string as it is written: itself, or a code unit behind an escape. -/
inductive Piece where
  | char (c : Char)
  | unit (u : Nat)
deriving DecidableEq, Repr

def hexDigit? (c : Char) : Option Nat :=
  if c.isDigit then some (c.toNat - '0'.toNat)
  else if 'a' ≤ c ∧ c ≤ 'f' then some (c.toNat - 'a'.toNat + 10)
  else if 'A' ≤ c ∧ c ≤ 'F' then some (c.toNat - 'A'.toNat + 10)
  else none

def codeUnit? (a b c d : Char) : Option Nat := do
  return (((← hexDigit? a) * 16 + (← hexDigit? b)) * 16 + (← hexDigit? c)) * 16 + (← hexDigit? d)

def escaped? : Char → Option Char
  | '"' => some '"'
  | '\\' => some '\\'
  | '/' => some '/'
  | 'b' => some '\x08'
  | 'f' => some '\x0c'
  | 'n' => some '\n'
  | 'r' => some '\r'
  | 't' => some '\t'
  | _ => none

/-- Reads a string up to its closing quote; the opening one has been read. -/
def readPieces? : List Char → Option (List Piece × List Char)
  | [] => none
  | '"' :: rest => some ([], rest)
  | '\\' :: 'u' :: a :: b :: c :: d :: rest => do
    let unit ← codeUnit? a b c d
    let (pieces, rest) ← readPieces? rest
    return (.unit unit :: pieces, rest)
  | '\\' :: letter :: rest => do
    let c ← escaped? letter
    let (pieces, rest) ← readPieces? rest
    return (.char c :: pieces, rest)
  | c :: rest =>
    if c < ' ' then none
    else do
      let (pieces, rest) ← readPieces? rest
      return (.char c :: pieces, rest)

def isHighSurrogate (u : Nat) : Bool := 0xD800 ≤ u && u < 0xDC00

def isLowSurrogate (u : Nat) : Bool := 0xDC00 ≤ u && u < 0xE000

/-- The character beyond the first plane that a pair of surrogates stands for. -/
def joinSurrogates (high low : Nat) : Char :=
  Char.ofNat (0x10000 + (high - 0xD800) * 0x400 + (low - 0xDC00))

/-- The characters of a string. A surrogate that is not part of a pair stands for none. -/
def characters? : List Piece → Option (List Char)
  | [] => some []
  | .char c :: pieces => (c :: ·) <$> characters? pieces
  | .unit high :: .unit low :: pieces =>
    if isHighSurrogate high then
      if isLowSurrogate low then (joinSurrogates high low :: ·) <$> characters? pieces else none
    else if isLowSurrogate high then none
    else (Char.ofNat high :: ·) <$> characters? (.unit low :: pieces)
  | .unit u :: pieces =>
    if isHighSurrogate u || isLowSurrogate u then none
    else (Char.ofNat u :: ·) <$> characters? pieces

/-! ## Numbers -/

def readDigits? (s : List Char) : Option (List Char × List Char) :=
  match s.takeWhile Char.isDigit with
  | [] => none
  | digits => some (digits, s.dropWhile Char.isDigit)

/-- Reads the digits before the point: a single zero, or digits that do not start with zero. -/
def readWhole? (s : List Char) : Option (List Char × List Char) :=
  (readDigits? s).filter fun (digits, _) => digits.head? ≠ some '0' ∨ digits = ['0']

/-- Reads a point and the digits behind it, if there is a point. -/
def readFraction? : List Char → Option (List Char × List Char)
  | '.' :: rest => readDigits? rest
  | rest => some ([], rest)

def readSign : List Char → Bool × List Char
  | '-' :: rest => (true, rest)
  | '+' :: rest => (false, rest)
  | rest => (false, rest)

def readExponent? : List Char → Option (Int × List Char)
  | [] => some (0, [])
  | c :: rest =>
    if c = 'e' ∨ c = 'E' then do
      let (negative, rest) := readSign rest
      let (digits, rest) ← readDigits? rest
      let size : Int := digitsValue digits
      return (if negative then -size else size, rest)
    else some (0, c :: rest)

def readMagnitude? (s : List Char) : Option (Number × List Char) := do
  let (whole, s) ← readWhole? s
  let (fraction, s) ← readFraction? s
  let (exponent, s) ← readExponent? s
  return (.ofDigits whole fraction exponent, s)

def readSigned? : List Char → Option (Number × List Char)
  | '-' :: s => do
    let (n, rest) ← readMagnitude? s
    return ({ n with negative := true }, rest)
  | s => readMagnitude? s

def readNumber? (s : List Char) : Option (Number × List Char) :=
  (readSigned? s).filter fun (n, _) => !n.isTooBig

/-! ## Tokens -/

def read? : List Char → Option (Token × List Char)
  | '[' :: rest => some (.openList, rest)
  | ']' :: rest => some (.closeList, rest)
  | '\x7b' :: rest => some (.openObject, rest)
  | '\x7d' :: rest => some (.closeObject, rest)
  | ',' :: rest => some (.comma, rest)
  | ':' :: rest => some (.colon, rest)
  | 'n' :: 'u' :: 'l' :: 'l' :: rest => some (.null, rest)
  | 't' :: 'r' :: 'u' :: 'e' :: rest => some (.bool true, rest)
  | 'f' :: 'a' :: 'l' :: 's' :: 'e' :: rest => some (.bool false, rest)
  | '"' :: rest => do
    let (pieces, rest) ← readPieces? rest
    return (.string (String.ofList (← characters? pieces)), rest)
  | s => do
    let (n, rest) ← readNumber? s
    return (.number n, rest)

theorem length_readPieces? {s : List Char} {pieces : List Piece} {rest : List Char}
    (h : readPieces? s = some (pieces, rest)) : rest.length < s.length := by
  fun_induction readPieces? s generalizing pieces rest with
  | case1 => cases h
  | case2 => cases h; simp
  | case3 a b c d s ih =>
    simp only [Option.bind_eq_bind, Option.bind_eq_some_iff] at h
    obtain ⟨_, _, _, hr, h⟩ := h
    cases h
    have := ih hr
    simp only [List.length_cons]
    omega
  | case4 letter s _ ih =>
    simp only [Option.bind_eq_bind, Option.bind_eq_some_iff] at h
    obtain ⟨_, _, _, hr, h⟩ := h
    cases h
    have := ih hr
    simp only [List.length_cons]
    omega
  | case5 => cases h
  | case6 c s _ _ _ _ ih =>
    simp only [Option.bind_eq_bind, Option.bind_eq_some_iff] at h
    obtain ⟨_, hr, h⟩ := h
    cases h
    have := ih hr
    simp only [List.length_cons]
    omega

theorem length_readDigits? {s digits rest : List Char} (h : readDigits? s = some (digits, rest)) :
    rest.length < s.length := by
  have hs : s.takeWhile Char.isDigit ++ s.dropWhile Char.isDigit = s :=
    List.takeWhile_append_dropWhile
  unfold readDigits? at h
  split at h
  · cases h
  · next hd =>
    cases h
    have hl := congrArg List.length hs
    rw [List.length_append] at hl
    have := List.length_pos_iff.2 hd
    omega

theorem length_readWhole? {s digits rest : List Char} (h : readWhole? s = some (digits, rest)) :
    rest.length < s.length :=
  length_readDigits? (Option.filter_eq_some_iff.1 h).1

theorem length_readFraction? {s digits rest : List Char}
    (h : readFraction? s = some (digits, rest)) : rest.length ≤ s.length := by
  unfold readFraction? at h
  split at h
  · exact Nat.le_succ_of_le (Nat.le_of_lt (length_readDigits? h))
  · cases h; exact Nat.le_refl _

theorem length_readSign (s : List Char) : (readSign s).2.length ≤ s.length := by
  unfold readSign
  split <;> simp

theorem length_readExponent? {s rest : List Char} {e : Int}
    (h : readExponent? s = some (e, rest)) : rest.length ≤ s.length := by
  unfold readExponent? at h
  split at h
  · cases h; exact Nat.le_refl _
  · next c s =>
    split at h
    · simp only [Option.bind_eq_bind, Option.bind_eq_some_iff] at h
      obtain ⟨_, hd, h⟩ := h
      cases h
      have := length_readDigits? hd
      have := length_readSign s
      simp only [List.length_cons]
      omega
    · cases h; exact Nat.le_refl _

theorem length_readMagnitude? {s : List Char} {n : Number} {rest : List Char}
    (h : readMagnitude? s = some (n, rest)) : rest.length < s.length := by
  simp only [readMagnitude?, Option.bind_eq_bind, Option.bind_eq_some_iff] at h
  obtain ⟨_, hw, _, hf, _, he, h⟩ := h
  cases h
  have := length_readWhole? hw
  have := length_readFraction? hf
  have := length_readExponent? he
  omega

theorem length_readNumber? {s : List Char} {n : Number} {rest : List Char}
    (h : readNumber? s = some (n, rest)) : rest.length < s.length := by
  have h := (Option.filter_eq_some_iff.1 h).1
  unfold readSigned? at h
  split at h
  · simp only [Option.bind_eq_bind, Option.bind_eq_some_iff] at h
    obtain ⟨_, hm, h⟩ := h
    cases h
    exact Nat.lt_succ_of_lt (length_readMagnitude? hm)
  · exact length_readMagnitude? h

theorem length_read? {s : List Char} {t : Token} {rest : List Char}
    (h : read? s = some (t, rest)) : rest.length < s.length := by
  unfold read? at h
  split at h
  case h_10 s =>
    simp only [Option.bind_eq_bind, Option.bind_eq_some_iff] at h
    obtain ⟨_, hr, _, _, h⟩ := h
    cases h
    exact Nat.lt_succ_of_lt (length_readPieces? hr)
  case h_11 =>
    simp only [Option.bind_eq_bind, Option.bind_eq_some_iff] at h
    obtain ⟨_, hn, h⟩ := h
    cases h
    exact length_readNumber? hn
  all_goals
    cases h
    simp only [List.length_cons]
    omega

theorem length_dropBlanks (s : List Char) : (s.dropWhile isBlank).length ≤ s.length :=
  (List.dropWhile_sublist isBlank).length_le

def readAll? (s : List Char) : Option (List Token) :=
  if (s.dropWhile isBlank).isEmpty then some []
  else
    match hr : read? (s.dropWhile isBlank) with
    | none => none
    | some (t, rest) =>
      have : rest.length < s.length := Nat.lt_of_lt_of_le (length_read? hr) (length_dropBlanks s)
      (t :: ·) <$> readAll? rest
termination_by s.length

end Token
end Json
end Componentry
