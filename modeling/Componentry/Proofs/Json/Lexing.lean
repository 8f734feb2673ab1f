import Mathlib.Data.List.Chain
import Componentry.Proofs.Json.Grammar

/-!
# Componentry.Proofs.Json.Lexing

Reading tokens against the grammar. What a reader takes from the front of a text is spelt as the
grammar says, and a reader takes all that is spelt if the text goes on with something else:
`Stops` and `EndsNumber` say what that is for digits and numbers. All other tokens end by
themselves.

`readAll?_sound` and `Spells.readAll?`: the tokens that are read from a text are those that it
spells, as long as no number is too big and none follows another number.
-/

namespace Componentry
namespace Json
namespace Token

/-- A text that does not go on with characters of a kind. -/
def Stops (p : Char → Bool) (s : List Char) : Prop := ∀ c ∈ s.head?, p c = false

/-- A text that no number goes on into. -/
def EndsNumber (s : List Char) : Prop :=
  ∀ c ∈ s.head?, c.isDigit = false ∧ c ≠ '.' ∧ c ≠ 'e' ∧ c ≠ 'E'

theorem EndsNumber.stops {s : List Char} (h : EndsNumber s) : Stops Char.isDigit s :=
  fun c hc => (h c hc).1

theorem takeWhile_append {p : Char → Bool} {xs rest : List Char} (hxs : ∀ c ∈ xs, p c = true)
    (hrest : Stops p rest) : (xs ++ rest).takeWhile p = xs := by
  rw [List.takeWhile_append_of_pos hxs]
  cases rest with
  | nil => simp
  | cons c rest =>
    have hc := hrest c rfl
    simp [hc]

theorem dropWhile_append {p : Char → Bool} {xs rest : List Char} (hxs : ∀ c ∈ xs, p c = true)
    (hrest : Stops p rest) : (xs ++ rest).dropWhile p = rest := by
  rw [List.dropWhile_append_of_pos hxs]
  cases rest with
  | nil => simp
  | cons c rest =>
    have hc := hrest c rfl
    simp [hc]

/-! ## Numbers -/

theorem readDigits?_append {digits rest : List Char} (hd : Digits digits)
    (hr : Stops Char.isDigit rest) : readDigits? (digits ++ rest) = some (digits, rest) := by
  rw [readDigits?, takeWhile_append hd.2 hr, dropWhile_append hd.2 hr]
  split
  · exact absurd rfl hd.1
  · rfl

theorem readWhole?_append {digits rest : List Char} (hd : WholeDigits digits)
    (hr : Stops Char.isDigit rest) : readWhole? (digits ++ rest) = some (digits, rest) := by
  rw [readWhole?, readDigits?_append hd.1 hr, Option.filter_some, if_pos (by simpa using hd.2)]

theorem readFraction?_append {digits f rest : List Char} (hf : FractionSpelt digits f)
    (hr : Stops Char.isDigit rest) (hpoint : rest.head? ≠ some '.') :
    readFraction? (f ++ rest) = some (digits, rest) := by
  cases hf with
  | absent =>
    rw [List.nil_append]
    unfold readFraction?
    split
    · exact absurd rfl hpoint
    · rfl
  | point hd => exact readDigits?_append hd hr

theorem readSign_cases (s : List Char) :
    (∃ t, s = '-' :: t) ∨ (∃ t, s = '+' :: t) ∨ readSign s = (false, s) := by
  unfold readSign
  split
  · exact Or.inl ⟨_, rfl⟩
  · exact Or.inr (Or.inl ⟨_, rfl⟩)
  · exact Or.inr (Or.inr rfl)

theorem Digits.exists_cons {s : List Char} (h : Digits s) :
    ∃ c t, s = c :: t ∧ c.isDigit = true := by
  cases s with
  | nil => exact absurd rfl h.1
  | cons c t => exact ⟨c, t, rfl, h.2 c List.mem_cons_self⟩

theorem readSign_of_digits {s rest : List Char} (h : Digits s) :
    readSign (s ++ rest) = (false, s ++ rest) := by
  obtain ⟨c, t, rfl, hc⟩ := h.exists_cons
  rcases readSign_cases (c :: t ++ rest) with ⟨_, hs⟩ | ⟨_, hs⟩ | hs
  · cases hs
    exact absurd hc (by decide)
  · cases hs
    exact absurd hc (by decide)
  · exact hs

theorem readExponent?_append {t rest : List Char} {e : Int} (he : ExponentSpelt e t)
    (hr : EndsNumber rest) : readExponent? (t ++ rest) = some (e, rest) := by
  cases he with
  | absent =>
    cases rest with
    | nil => rfl
    | cons c rest =>
      obtain ⟨_, _, hlower, hupper⟩ := hr c rfl
      simp [readExponent?, hlower, hupper]
  | bare hmark hd =>
    simp [readExponent?, hmark, readSign_of_digits hd, readDigits?_append hd hr.stops]
  | plus hmark hd =>
    simp [readExponent?, hmark, readSign, readDigits?_append hd hr.stops]
  | minus hmark hd =>
    simp [readExponent?, hmark, readSign, readDigits?_append hd hr.stops]

/-- An exponent begins with its mark, so it goes on with neither digits nor a point. -/
theorem ExponentSpelt.head_append {t rest : List Char} {e : Int} (he : ExponentSpelt e t)
    (hr : EndsNumber rest) : ∀ c ∈ (t ++ rest).head?, c.isDigit = false ∧ c ≠ '.' := by
  have hmark {mark : Char} (h : mark = 'e' ∨ mark = 'E') : mark.isDigit = false ∧ mark ≠ '.' := by
    rcases h with rfl | rfl <;> decide
  cases he with
  | absent => exact fun c hc => ⟨(hr c hc).1, (hr c hc).2.1⟩
  | bare h _ | plus h _ | minus h _ =>
    intro c hc
    cases hc
    exact hmark h

theorem FractionSpelt.stops_append {digits f rest : List Char} (hf : FractionSpelt digits f)
    (hr : Stops Char.isDigit rest) : Stops Char.isDigit (f ++ rest) := by
  cases hf with
  | absent => exact hr
  | point _ =>
    intro c hc
    cases hc
    decide

theorem readMagnitude?_append {t rest : List Char} {n : Number} (hn : MagnitudeSpelt n t)
    (hr : EndsNumber rest) : readMagnitude? (t ++ rest) = some (n, rest) := by
  obtain ⟨hw, hf, he⟩ := hn
  rename_i whole fraction f e exponent
  have hstops : Stops Char.isDigit (e ++ rest) := fun c hc => (he.head_append hr c hc).1
  have hpoint : (e ++ rest).head? ≠ some '.' := fun h => (he.head_append hr '.' h).2 rfl
  rw [List.append_assoc, List.append_assoc]
  simp [readMagnitude?, readWhole?_append hw (hf.stops_append hstops),
    readFraction?_append hf hstops hpoint, readExponent?_append he hr]

theorem MagnitudeSpelt.exists_cons {t : List Char} {n : Number} (h : MagnitudeSpelt n t) :
    ∃ c t', t = c :: t' ∧ c.isDigit = true := by
  obtain ⟨hw, _, _⟩ := h
  obtain ⟨c, t', rfl, hc⟩ := hw.1.exists_cons
  exact ⟨c, _, rfl, hc⟩

theorem readSigned?_append {t rest : List Char} {n : Number} (hn : NumberSpelt n t)
    (hr : EndsNumber rest) : readSigned? (t ++ rest) = some (n, rest) := by
  cases hn with
  | positive h =>
    have hm := readMagnitude?_append h hr
    obtain ⟨c, t', rfl, hc⟩ := h.exists_cons
    unfold readSigned?
    split
    · next hs =>
      cases hs
      exact absurd hc (by decide)
    · exact hm
  | negative h => simp [readSigned?, readMagnitude?_append h hr]

theorem readNumber?_append {t rest : List Char} {n : Number} (hn : NumberSpelt n t)
    (hr : EndsNumber rest) :
    readNumber? (t ++ rest) = if !n.isTooBig then some (n, rest) else none := by
  rw [readNumber?, readSigned?_append hn hr, Option.filter_some]

/-! ## Strings -/

/-- How the characters and code units of a string are spelt between its quotes. -/
inductive PiecesSpelt : List Piece → List Char → Prop where
  | nil : PiecesSpelt [] []
  | char {c : Char} {pieces : List Piece} {s : List Char} : ' ' ≤ c → c ≠ '"' → c ≠ '\\' →
      PiecesSpelt pieces s → PiecesSpelt (.char c :: pieces) (c :: s)
  | escape {letter c : Char} {pieces : List Piece} {s : List Char} : escaped? letter = some c →
      PiecesSpelt pieces s → PiecesSpelt (.char c :: pieces) ('\\' :: letter :: s)
  | unit {h₁ h₂ h₃ h₄ : Char} {u : Nat} {pieces : List Piece} {s : List Char} :
      codeUnit? h₁ h₂ h₃ h₄ = some u → PiecesSpelt pieces s →
      PiecesSpelt (.unit u :: pieces) ('\\' :: 'u' :: h₁ :: h₂ :: h₃ :: h₄ :: s)

theorem readPieces?_append {t : List Char} {pieces : List Piece} (h : PiecesSpelt pieces t)
    (rest : List Char) : readPieces? (t ++ '"' :: rest) = some (pieces, rest) := by
  induction h with
  | nil => simp [readPieces?]
  | char hprintable hquote hbackslash _ ih =>
    simp [readPieces?, hbackslash, Char.not_lt.2 hprintable, ih]
  | @escape letter c pieces s hletter _ ih =>
    have hu : letter ≠ 'u' := by
      rintro rfl
      cases hletter
    simp [readPieces?, hu, hletter, ih]
  | unit hunit _ ih =>
    simp [readPieces?, hunit, ih]

/-- A code unit that is no surrogate is a character by itself, whatever follows. -/
theorem characters?_unit {u : Nat} (hhigh : isHighSurrogate u = false)
    (hlow : isLowSurrogate u = false) (pieces : List Piece) :
    characters? (.unit u :: pieces) = (Char.ofNat u :: ·) <$> characters? pieces := by
  rw [characters?.eq_def]
  split
  · next h => cases h
  · next h => cases h
  · next h =>
    cases h
    simp [hhigh, hlow]
  · next h =>
    cases h
    simp [hhigh, hlow]

theorem characters?_pair {high low : Nat} (hhigh : isHighSurrogate high = true)
    (hlow : isLowSurrogate low = true) (pieces : List Piece) :
    characters? (.unit high :: .unit low :: pieces) =
      (joinSurrogates high low :: ·) <$> characters? pieces := by
  simp [characters?, hhigh, hlow]

theorem StringSpelt.exists_pieces {cs s : List Char} (h : StringSpelt cs s) :
    ∃ pieces, PiecesSpelt pieces s ∧ characters? pieces = some cs := by
  induction h with
  | nil => exact ⟨[], .nil, rfl⟩
  | char hprintable hquote hbackslash _ ih =>
    obtain ⟨pieces, hp, hc⟩ := ih
    exact ⟨_, .char hprintable hquote hbackslash hp, by simp [characters?, hc]⟩
  | escape hletter _ ih =>
    obtain ⟨pieces, hp, hc⟩ := ih
    exact ⟨_, .escape hletter hp, by simp [characters?, hc]⟩
  | unit hu hhigh hlow _ ih =>
    obtain ⟨pieces, hp, hc⟩ := ih
    exact ⟨_, .unit hu hp, by simp [characters?_unit hhigh hlow, hc]⟩
  | pair hh hhigh hl hlow _ ih =>
    obtain ⟨pieces, hp, hc⟩ := ih
    exact ⟨_, .unit hh (.unit hl hp), by simp [characters?_pair hhigh hlow, hc]⟩

theorem NumberSpelt.exists_cons {w : List Char} {n : Number} (h : NumberSpelt n w) :
    ∃ c w', w = c :: w' ∧ (c = '-' ∨ c.isDigit = true) := by
  cases h with
  | positive h =>
    obtain ⟨c, w', rfl, hc⟩ := h.exists_cons
    exact ⟨c, w', rfl, Or.inr hc⟩
  | negative _ => exact ⟨'-', _, rfl, Or.inl rfl⟩

/-- No other token begins as a number does. -/
theorem read?_number {w rest : List Char} {n : Number} (hn : NumberSpelt n w) :
    read? (w ++ rest) = (readNumber? (w ++ rest)).map fun (n, rest) => (.number n, rest) := by
  obtain ⟨c, w', rfl, hc⟩ := hn.exists_cons
  unfold read?
  split
  case h_11 =>
    cases readNumber? (c :: w' ++ rest) <;> rfl
  all_goals
    next hs =>
      obtain rfl := (List.cons.inj hs).1
      exact absurd hc (by decide)

def isNumber : Token → Bool
  | number _ => true
  | _ => false

/-- Only numbers need something that ends them. -/
theorem read?_append {t : Token} {w rest : List Char} (hw : Spelt t w)
    (hends : t.isNumber = true → EndsNumber rest) :
    read? (w ++ rest) = if t.isFinite then some (t, rest) else none := by
  cases hw with
  | number hn =>
    rw [read?_number hn, readNumber?_append hn (hends rfl), isFinite]
    split <;> rfl
  | string hs =>
    obtain ⟨pieces, hp, hc⟩ := hs.exists_pieces
    simp [read?, readPieces?_append hp, hc, isFinite]
  | _ => simp [read?, isFinite]

/-! ## Rows of tokens -/

theorem readAll?_eq (s : List Char) :
    readAll? s =
      if s.dropWhile isBlank = [] then some []
      else (read? (s.dropWhile isBlank)).bind fun (t, rest) => (t :: ·) <$> readAll? rest := by
  rw [readAll?]
  simp only [List.isEmpty_iff]
  split
  · rfl
  · split
    · next hr => rw [hr]; rfl
    · next hr => rw [hr]; rfl

/-- No number follows another one directly: the digits of the two would run together. -/
def Parted (ts : List Token) : Prop :=
  ts.IsChain fun t u => t.isNumber = true → u.isNumber = false

theorem isBlank_iff {c : Char} :
    isBlank c = true ↔ c = ' ' ∨ c = '\t' ∨ c = '\n' ∨ c = '\r' := by
  simp only [isBlank, Bool.or_eq_true, beq_iff_eq, or_assoc]

theorem not_isBlank_of_number {c : Char} (h : c = '-' ∨ c.isDigit = true) : isBlank c = false := by
  rw [Bool.eq_false_iff]
  intro hblank
  rcases isBlank_iff.1 hblank with rfl | rfl | rfl | rfl <;> exact absurd h (by decide)

theorem endsNumber_of_isBlank {c : Char} (h : isBlank c = true) (s : List Char) :
    EndsNumber (c :: s) := by
  rintro _ ⟨⟩
  rcases isBlank_iff.1 h with rfl | rfl | rfl | rfl <;> decide

/-- A token does not begin with a blank. One that is no number begins with something that no number
goes on into. -/
theorem Spelt.exists_cons {t : Token} {w : List Char} (h : Spelt t w) :
    ∃ c w', w = c :: w' ∧ isBlank c = false ∧
      (t.isNumber = false → ∀ s, EndsNumber (c :: s)) := by
  cases h with
  | number hn =>
    obtain ⟨c, w', rfl, hc⟩ := hn.exists_cons
    exact ⟨c, w', rfl, not_isBlank_of_number hc, nofun⟩
  | _ =>
    refine ⟨_, _, rfl, rfl, fun _ _ => ?_⟩
    rintro _ ⟨⟩
    decide

theorem Spells.endsNumber {s : List Char} {ts : List Token} (h : Spells s ts)
    (hts : ∀ t ∈ ts.head?, t.isNumber = false) : EndsNumber s := by
  cases h with
  | nil hblank =>
    cases s with
    | nil => exact nofun
    | cons c s => exact endsNumber_of_isBlank (hblank c List.mem_cons_self) s
  | @cons blanks w rest t ts hblank hw _ =>
    cases blanks with
    | nil =>
      obtain ⟨c, w', rfl, -, hends⟩ := hw.exists_cons
      exact hends (hts t rfl) _
    | cons c blanks => exact endsNumber_of_isBlank (hblank c List.mem_cons_self) _

/-- The tokens that a text spells are read from it, unless one of them is a number that is too
big. -/
theorem Spells.readAll? {s : List Char} {ts : List Token} (hs : Spells s ts)
    (hparted : Parted ts) : readAll? s = if ts.all isFinite then some ts else none := by
  induction hs with
  | @nil blanks hblank =>
    have hdrop : (blanks ++ []).dropWhile isBlank = [] := dropWhile_append hblank nofun
    rw [List.append_nil] at hdrop
    rw [readAll?_eq, if_pos hdrop]
    rfl
  | @cons blanks w rest t ts hblank hw hrest ih =>
    obtain ⟨c, w', rfl, hc, -⟩ := hw.exists_cons
    have hdrop : (blanks ++ (c :: w' ++ rest)).dropWhile isBlank = c :: w' ++ rest :=
      dropWhile_append hblank (by rintro _ ⟨⟩; exact hc)
    have hread : read? (c :: w' ++ rest) = if t.isFinite then some (t, rest) else none :=
      read?_append hw fun ht => hrest.endsNumber fun u hu => hparted.rel_head? hu ht
    rw [readAll?_eq, hdrop, hread, List.all_cons]
    cases t.isFinite with
    | false => rfl
    | true =>
      simp only [List.cons_append, reduceCtorEq, if_false, if_true, Option.bind_some, Bool.true_and]
      rw [ih hparted.tail]
      split <;> rfl

theorem Parted.cons {t : Token} {ts : List Token} (ht : t.isNumber = false) (hts : Parted ts) :
    Parted (t :: ts) :=
  List.IsChain.cons hts fun _ _ h => absurd (ht ▸ h) (by decide)

theorem Parted.append_cons {ts us : List Token} {t : Token} (hts : Parted ts)
    (ht : t.isNumber = false) (hus : Parted us) : Parted (ts ++ t :: us) := by
  refine List.IsChain.append hts (hus.cons ht) fun _ _ u hu _ => ?_
  cases hu
  exact ht

end Token

mutual
theorem Value.parted_tokens : (v : Value) → Token.Parted v.tokens
  | .null | .bool _ | .number _ | .string _ => List.isChain_singleton _
  | .list items => .cons rfl (.append_cons (parted_itemTokens items) rfl .nil)
  | .object fields => .cons rfl (.append_cons (parted_fieldTokens fields) rfl .nil)
theorem parted_itemTokens : (items : List Value) → Token.Parted (itemTokens items)
  | [] => .nil
  | [v] => v.parted_tokens
  | v :: w :: items => .append_cons v.parted_tokens rfl (parted_itemTokens (w :: items))
theorem parted_fieldTokens : (fields : List (String × Value)) →
    Token.Parted (fieldTokens fields)
  | [] => .nil
  | [(_, v)] => .cons rfl (.cons rfl v.parted_tokens)
  | (_, v) :: f :: fields =>
    .cons rfl (.cons rfl (.append_cons v.parted_tokens rfl (parted_fieldTokens (f :: fields))))
end

end Json
end Componentry
