import Mathlib.Data.List.Chain
import PursuitForest.Proofs.Json.Numerals
/-!
Tokens are read back.

A token is read back from its characters (`Token.take_chars`), whatever follows it, except that a
number must not be followed by what could belong to it. No token but a number begins so, therefore
tokens are read back one after the other if no number stands directly before another one
(`Token.scan_chars`).
-/

namespace PursuitForest
namespace Token

/-! ### Texts -/

/-- A hexadecimal digit is no quote, no backslash and no control. -/
theorem takeQuoted_digitChar {d : Nat} (h : d < 16) (cs : List Char) :
    takeQuoted (Nat.digitChar d :: cs) =
      (takeQuoted cs).map fun (body, rest) => (Nat.digitChar d :: body, rest) := by
  interval_cases d <;> rfl

theorem hexValue?_digitChar {d : Nat} (h : d < 16) : hexValue? (Nat.digitChar d) = some d := by
  interval_cases d <;> rfl

theorem takeQuoted_plain {c : Char} (hquote : c ≠ '"') (hback : c ≠ '\\') (hc : ¬ c < ' ')
    (cs : List Char) :
    takeQuoted (c :: cs) = (takeQuoted cs).map fun (body, rest) => (c :: body, rest) := by
  rw [takeQuoted.eq_def]
  split
  · next h => cases h
  · next h =>
    cases h
    exact absurd rfl hquote
  · next h =>
    cases h
    exact absurd rfl hback
  · next h =>
    cases h
    rw [if_neg hc]

theorem toNat_lt_of_lt_space {c : Char} (h : c < ' ') : c.toNat < 32 := h

/-- An escaped character does not end the text that it stands in. -/
theorem takeQuoted_escape (c : Char) (cs : List Char) :
    takeQuoted (escape c ++ cs) =
      (takeQuoted cs).map fun (body, rest) => (escape c ++ body, rest) := by
  unfold escape
  split
  case h_8 hquote hback _ _ _ _ _ =>
    split
    · next hlt =>
      have hlt := toNat_lt_of_lt_space hlt
      have hzero : ∀ cs, takeQuoted ('0' :: cs) =
          (takeQuoted cs).map fun (body, rest) => ('0' :: body, rest) := fun _ => rfl
      simp only [List.cons_append, List.nil_append, takeQuoted]
      rw [hzero, hzero, takeQuoted_digitChar (by omega), takeQuoted_digitChar (by omega)]
      cases takeQuoted cs <;> rfl
    · next hlt => exact takeQuoted_plain hquote hback hlt cs
  all_goals rfl

/-- The raw characters of a text end with its closing quote. -/
theorem takeQuoted_escaped (cs : List Char) : ∀ s : List Char,
    takeQuoted (s.flatMap escape ++ '"' :: cs) = some (s.flatMap escape, cs)
  | [] => rfl
  | c :: s => by
      rw [List.flatMap_cons, List.append_assoc, takeQuoted_escape, takeQuoted_escaped cs s]
      rfl

theorem pieces_plain {c : Char} (hback : c ≠ '\\') {cs : List Char} {ps : List Piece}
    (hps : pieces cs = some ps) : pieces (c :: cs) = some (.char c :: ps) := by
  rw [pieces.eq_def]
  split
  · next h => cases h
  · next h =>
    cases h
    exact absurd rfl hback
  · next h =>
    cases h
    exact absurd rfl hback
  · next h =>
    cases h
    exact absurd rfl hback
  · next h =>
    cases h
    rw [hps]
    rfl

/-- An escaped character is one piece more. -/
theorem pieces_escape (c : Char) {cs s : List Char} {ps : List Piece} (hps : pieces cs = some ps)
    (hs : joinPieces ps = some s) :
    ∃ qs, pieces (escape c ++ cs) = some qs ∧ joinPieces qs = some (c :: s) := by
  have hchar : joinPieces (.char c :: ps) = some (c :: s) := by
    rw [joinPieces, hs]
    rfl
  unfold escape
  split
  case h_8 hquote hback _ _ _ _ _ =>
    split
    · next hlt =>
      have hlt := toNat_lt_of_lt_space hlt
      have hzero : hexValue? '0' = some 0 := rfl
      have hvalue : 4096 * 0 + 256 * 0 + 16 * (c.toNat / 16) + c.toNat % 16 = c.toNat := by omega
      refine ⟨.unit c.toNat :: ps, ?_, ?_⟩
      · simp only [List.cons_append, List.nil_append, pieces, hzero, hps,
          hexValue?_digitChar (show c.toNat / 16 < 16 by omega),
          hexValue?_digitChar (show c.toNat % 16 < 16 by omega), bind, Option.bind, pure, hvalue]
      · rw [joinPieces.eq_def]
        dsimp only
        rw [if_pos (.inl (by omega)), hs, Char.ofNat_toNat]
        rfl
    · next hlt => exact ⟨_, pieces_plain hback hps, hchar⟩
  all_goals exact ⟨_, by simp [pieces, hps, unescape?], hchar⟩

/-- The pieces of an escaped text give the text. -/
theorem pieces_escaped : ∀ s : List Char,
    ∃ ps, pieces (s.flatMap escape) = some ps ∧ joinPieces ps = some s
  | [] => ⟨[], rfl, rfl⟩
  | c :: s => by
      obtain ⟨ps, hps, hs⟩ := pieces_escaped s
      exact pieces_escape c hps hs

theorem take_quote (s : String) (cs : List Char) :
    take '"' (s.toList.flatMap escape ++ '"' :: cs) = some (.text s, cs) := by
  obtain ⟨ps, hps, hs⟩ := pieces_escaped s.toList
  rw [take]
  simp only [takeQuoted_escaped, hps, hs, bind, Option.bind, pure, String.ofList_toList]

/-! ### All tokens -/

/-- Numbers are well formed. -/
def WellFormed : Token → Prop
  | .number n => n.WellFormed
  | _ => True

/-- Whether a token is a number. -/
def isNumber : Token → Bool
  | .number _ => true
  | _ => false

/-- A sign or a digit begins a number. -/
theorem take_numeral {c : Char} (hc : c = '-' ∨ ∃ d < 10, c = digitChar d) (cs : List Char) :
    isBlank c = false ∧
      take c cs = (takeNumeral (c :: cs)).map fun (n, rest) => (.number n, rest) := by
  rcases hc with rfl | ⟨d, hd, rfl⟩
  · exact ⟨rfl, by rw [take] <;> simp⟩
  · interval_cases d <;> exact ⟨rfl, by rw [take] <;> simp [digitChar]⟩

theorem exists_chars {n : Numeral} (h : n.WellFormed) :
    ∃ c rest, n.chars = c :: rest ∧ (c = '-' ∨ ∃ d < 10, c = digitChar d) := by
  obtain ⟨negative, whole, fraction, exponent⟩ := n
  obtain ⟨w, ws, rfl⟩ : ∃ w ws, whole = w :: ws := List.exists_cons_of_ne_nil h.whole_ne_nil
  cases negative with
  | true => exact ⟨_, _, rfl, .inl rfl⟩
  | false => exact ⟨_, _, rfl, .inr ⟨w, h.whole_lt w List.mem_cons_self, rfl⟩⟩

/-- A token is read back from its characters, of which the first is no blank. -/
theorem take_chars {t : Token} (ht : t.WellFormed) {cs : List Char}
    (hcs : t.isNumber = true → NumeralEnds cs) :
    ∃ c rest, t.chars = c :: rest ∧ isBlank c = false ∧ take c (rest ++ cs) = some (t, cs) := by
  cases t with
  | number n =>
    obtain ⟨c, rest, hchars, hc⟩ := exists_chars ht
    obtain ⟨hblank, htake⟩ := take_numeral hc (rest ++ cs)
    refine ⟨c, rest, hchars, hblank, ?_⟩
    rw [htake, ← List.cons_append, ← hchars, takeNumeral_chars ht (hcs rfl)]
    rfl
  | text s =>
    refine ⟨'"', s.toList.flatMap escape ++ ['"'], rfl, rfl, ?_⟩
    rw [List.append_assoc]
    exact take_quote s cs
  | bool b => cases b <;> exact ⟨_, _, rfl, rfl, by simp [take]⟩
  | broken => exact ⟨_, _, rfl, rfl, by simp [take, takeQuoted, pieces, hexValue?, joinPieces]⟩
  | openArray | closeArray | openObject | closeObject | comma | colon | null =>
    exact ⟨_, _, rfl, rfl, by simp [take]⟩

/-! ### Sequences of tokens -/

/-- No number directly before another one. -/
def Apart (ts : List Token) : Prop := ts.IsChain fun a b => ¬ (a.isNumber = true ∧ b.isNumber = true)

/-- What does not begin with a number ends a number. -/
theorem numeralEnds_chars {t : Token} (ht : t.isNumber = false) (cs : List Char) :
    NumeralEnds (t.chars ++ cs) := by
  cases t with
  | number n => cases ht
  | bool b => cases b <;> (rintro c ⟨⟩; decide)
  | _ => rintro c ⟨⟩; decide

/-- Tokens are read back one after the other. -/
theorem scan_chars : ∀ {ts : List Token} {k : Nat}, (∀ t ∈ ts, t.WellFormed) → Apart ts →
    (ts.flatMap chars).length ≤ k → scan k (ts.flatMap chars) = some ts
  | [], k, _, _, _ => by cases k <;> rfl
  | t :: ts, k, hts, hapart, hk => by
      obtain ⟨ht, hts⟩ := List.forall_mem_cons.1 hts
      obtain ⟨hnext, hapart⟩ := List.isChain_cons.1 hapart
      -- after a number comes the end or a token of another kind
      have hends : t.isNumber = true → NumeralEnds (ts.flatMap chars) := by
        intro hnumber
        cases ts with
        | nil => rintro c ⟨⟩
        | cons u us =>
          rw [List.flatMap_cons]
          exact numeralEnds_chars (Bool.eq_false_iff.2 fun hu => hnext u rfl ⟨hnumber, hu⟩) _
      obtain ⟨c, rest, hchars, hblank, htake⟩ := take_chars ht hends
      rw [List.flatMap_cons, hchars, List.cons_append] at hk ⊢
      cases k with
      | zero => simp at hk
      | succ k =>
        -- the first character of the token pays for the step
        have hlength : (ts.flatMap chars).length ≤ k := by
          rw [List.length_cons, List.length_append] at hk
          omega
        rw [scan, hblank, if_neg Bool.false_ne_true, htake]
        show (scan k (ts.flatMap chars)).bind _ = _
        rw [scan_chars hts hapart hlength]
        rfl

/-- The tokens of a text are those that it was written with. -/
theorem ofText_ofList {ts : List Token} (hts : ∀ t ∈ ts, t.WellFormed) (hapart : Apart ts) :
    ofText (String.ofList (ts.flatMap chars)) = some ts := by
  rw [ofText, String.toList_ofList]
  exact scan_chars hts hapart (by simp)

end Token
end PursuitForest
