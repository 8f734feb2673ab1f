import Componentry.Json.Token

/-!
# Componentry.SettingPath

The keys under which values are assigned to settings. A key names a setting, or by steps behind the
name a place inside it: `server.ports[0]` is the item `0` of the child `ports` of `server`. A key
that is not of this form is the name of a setting as it stands (`SettingPath.ofKey`).
-/

namespace Componentry

inductive Step where
  | child (name : String)
  | item (index : Int)
deriving DecidableEq, Repr

/-- A value that has `v` where the step leads. Items in front of that of an index are left out. -/
def Step.enclose (step : Step) (v : Json.Value) : Json.Value :=
  match step with
  | child name => .object [(name, v)]
  | item _ => .list [v]

/-- A place inside a setting, or the setting itself if there are no steps. -/
structure SettingPath where
  setting : String
  steps : List Step := []
deriving DecidableEq, Repr

namespace SettingPath

/-- Names in a path consist of ASCII letters, digits, spaces, underscores and hyphens. -/
def isNameChar (c : Char) : Bool := c.isAlphanum || c == ' ' || c == '_' || c == '-'

def readName? (s : List Char) : Option (String × List Char) :=
  match s.takeWhile isNameChar with
  | [] => none
  | name => some (String.ofList name, s.dropWhile isNameChar)

def readInteger? : List Char → Option (Int × List Char)
  | '-' :: s => do
    let (digits, rest) ← Json.Token.readDigits? s
    return (-(Json.digitsValue digits : Int), rest)
  | s => do
    let (digits, rest) ← Json.Token.readDigits? s
    return (Json.digitsValue digits, rest)

/-- Indices are signed integers of 64 binary digits. -/
def isIndex (i : Int) : Bool := -Int.pow 2 63 ≤ i && i < Int.pow 2 63

/-- What may stand between an index and its brackets. Ends of lines may not. -/
def isSpacing (c : Char) : Bool := c == ' ' || c == '\t'

/-- Reads an index up to its closing bracket; the opening one has been read. Spacing around the
index is skipped. -/
def readIndex? (s : List Char) : Option (Int × List Char) := do
  let (index, s) ← (readInteger? (s.dropWhile isSpacing)).filter fun (i, _) => isIndex i
  match s.dropWhile isSpacing with
  | ']' :: rest => return (index, rest)
  | _ => none

def readStep? : List Char → Option (Step × List Char)
  | '.' :: rest => do
    let (name, rest) ← readName? rest
    return (.child name, rest)
  | '[' :: rest => do
    let (index, rest) ← readIndex? rest
    return (.item index, rest)
  | _ => none

theorem length_readName? {s rest : List Char} {name : String}
    (h : readName? s = some (name, rest)) : rest.length ≤ s.length := by
  unfold readName? at h
  split at h
  · cases h
  · cases h
    exact (List.dropWhile_sublist isNameChar).length_le

theorem length_readInteger? {s rest : List Char} {i : Int}
    (h : readInteger? s = some (i, rest)) : rest.length ≤ s.length := by
  unfold readInteger? at h
  split at h
  · simp only [Option.bind_eq_bind, Option.bind_eq_some_iff] at h
    obtain ⟨_, hd, h⟩ := h
    cases h
    exact Nat.le_succ_of_le (Nat.le_of_lt (Json.Token.length_readDigits? hd))
  · simp only [Option.bind_eq_bind, Option.bind_eq_some_iff] at h
    obtain ⟨_, hd, h⟩ := h
    cases h
    exact Nat.le_of_lt (Json.Token.length_readDigits? hd)

theorem length_readIndex? {s rest : List Char} {index : Int}
    (h : readIndex? s = some (index, rest)) : rest.length ≤ s.length := by
  simp only [readIndex?, Option.bind_eq_bind, Option.bind_eq_some_iff] at h
  obtain ⟨⟨_, t⟩, hi, h⟩ := h
  have hi := length_readInteger? (Option.filter_eq_some_iff.1 hi).1
  have hs := (List.dropWhile_sublist isSpacing (l := s)).length_le
  have ht := (List.dropWhile_sublist isSpacing (l := t)).length_le
  split at h
  · next hr =>
    cases h
    rw [hr, List.length_cons] at ht
    omega
  · cases h

theorem length_readStep? {s rest : List Char} {step : Step}
    (h : readStep? s = some (step, rest)) : rest.length < s.length := by
  unfold readStep? at h
  split at h
  · simp only [Option.bind_eq_bind, Option.bind_eq_some_iff] at h
    obtain ⟨_, hn, h⟩ := h
    cases h
    exact Nat.lt_succ_of_le (length_readName? hn)
  · simp only [Option.bind_eq_bind, Option.bind_eq_some_iff] at h
    obtain ⟨_, hi, h⟩ := h
    cases h
    exact Nat.lt_succ_of_le (length_readIndex? hi)
  · cases h

def readSteps? (s : List Char) : Option (List Step) :=
  if s.isEmpty then some []
  else
    match hr : readStep? s with
    | none => none
    | some (step, rest) =>
      have : rest.length < s.length := length_readStep? hr
      (step :: ·) <$> readSteps? rest
termination_by s.length

def parse? (key : String) : Option SettingPath := do
  let (setting, rest) ← readName? key.toList
  return { setting, steps := ← readSteps? rest }

def ofKey (key : String) : SettingPath :=
  (parse? key).getD { setting := key }

end SettingPath

end Componentry
