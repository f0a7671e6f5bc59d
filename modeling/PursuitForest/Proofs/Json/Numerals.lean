import Mathlib.Tactic.IntervalCases
import PursuitForest.Json.Reader
/-!
Written numbers are read back.

A numeral that is written as numbers may be written (`Numeral.WellFormed`) is read back from its
characters, if what follows them could not go on with it (`Token.takeNumeral_chars`).
-/

namespace PursuitForest

/-! ### Digits -/

theorem toNat_digitChar {d : Nat} (h : d < 10) : (digitChar d).toNat - '0'.toNat = d := by
  interval_cases d <;> rfl

theorem isDigit_digitChar {d : Nat} (h : d < 10) : (digitChar d).isDigit = true := by
  interval_cases d <;> rfl

theorem lt_ten_of_mem_decimalDigits {n d : Nat} (h : d ∈ decimalDigits n) : d < 10 := by
  obtain ⟨c, hc, rfl⟩ := List.mem_map.1 h
  have hdigit := Char.isDigit_iff_toNat.1 (Nat.isDigit_of_mem_toDigits (by decide) (Nat.le_refl 10) hc)
  have hnine : '9'.toNat = '0'.toNat + 9 := rfl
  omega

theorem ofDigits_decimalDigits (n : Nat) : Numeral.ofDigits (decimalDigits n) = n := by
  rw [Numeral.ofDigits, decimalDigits, List.foldl_map]
  exact Nat.ofDigitChars_toDigits (by decide) (Nat.le_refl 10)

theorem decimalDigits_ne_nil (n : Nat) : decimalDigits n ≠ [] := by
  rw [decimalDigits, Ne, List.map_eq_nil_iff]
  exact Nat.toDigits_ne_nil

/-- A numeral that has digits before the point, of which the first is no idle zero. -/
structure Numeral.WellFormed (n : Numeral) : Prop where
  whole_lt : ∀ d ∈ n.whole, d < 10
  fraction_lt : ∀ d ∈ n.fraction, d < 10
  whole_ne_nil : n.whole ≠ []
  leading : ∀ ds, n.whole = 0 :: ds → ds = []

namespace Token

/-- Nothing that digits could go on with. -/
def DigitsEnd (cs : List Char) : Prop := ∀ c ∈ cs.head?, c.isDigit = false

/-- Nothing that a numeral could go on with. -/
def NumeralEnds (cs : List Char) : Prop :=
  ∀ c ∈ cs.head?, c.isDigit = false ∧ c ≠ '.' ∧ c ≠ 'e' ∧ c ≠ 'E'

theorem takeDigits_append {ds : List Nat} {cs : List Char} (hds : ∀ d ∈ ds, d < 10)
    (hcs : DigitsEnd cs) : takeDigits (ds.map digitChar ++ cs) = (ds, cs) := by
  have hall : ∀ c ∈ ds.map digitChar, c.isDigit = true := by
    intro c hc
    obtain ⟨d, hd, rfl⟩ := List.mem_map.1 hc
    exact isDigit_digitChar (hds d hd)
  have hrest : cs.takeWhile Char.isDigit = [] ∧ cs.dropWhile Char.isDigit = cs := by
    cases cs with
    | nil => exact ⟨rfl, rfl⟩
    | cons c cs => simp [hcs c rfl]
  rw [takeDigits, List.takeWhile_append_of_pos hall, List.dropWhile_append_of_pos hall, hrest.1,
    hrest.2, List.append_nil, List.map_map]
  refine Prod.ext ((List.map_congr_left fun d hd => ?_).trans (List.map_id ds)) rfl
  exact toNat_digitChar (hds d hd)

/-- The characters of some digits after the point. -/
def fractionChars (ds : List Nat) : List Char := if ds.isEmpty then [] else '.' :: ds.map digitChar

/-- The characters of a power of ten. -/
def exponentChars : Option Int → List Char
  | none => []
  | some e => 'e' :: (if e < 0 then '-' else '+') :: (decimalDigits e.natAbs).map digitChar

theorem takeFraction_append {ds : List Nat} {cs : List Char} (hds : ∀ d ∈ ds, d < 10)
    (hcs : DigitsEnd cs) (hpoint : '.' ∉ cs.head?) :
    takeFraction (fractionChars ds ++ cs) = some (ds, cs) := by
  cases ds with
  | nil =>
    show takeFraction cs = some ([], cs)
    unfold takeFraction
    split
    · simp at hpoint
    · rfl
  | cons d ds =>
    show takeFraction ('.' :: ((d :: ds).map digitChar ++ cs)) = some (d :: ds, cs)
    rw [takeFraction, takeDigits_append hds hcs]

theorem takeExponent_append {cs : List Char} (hcs : NumeralEnds cs) :
    ∀ e : Option Int, takeExponent (exponentChars e ++ cs) = some (e, cs)
  | none => by
      cases cs with
      | nil => rfl
      | cons c cs =>
        obtain ⟨-, -, hlower, hupper⟩ := hcs c rfl
        simp [exponentChars, takeExponent, hlower, hupper]
  | some e => by
      obtain ⟨d, ds, hds⟩ := List.exists_cons_of_ne_nil (decimalDigits_ne_nil e.natAbs)
      have hvalue : (Numeral.ofDigits (d :: ds) : Int) = e.natAbs := by
        rw [← hds, ofDigits_decimalDigits]
      have hdigits : takeDigits ((d :: ds).map digitChar ++ cs) = (d :: ds, cs) :=
        takeDigits_append (fun _ hd => lt_ten_of_mem_decimalDigits (hds ▸ hd)) fun c hc => (hcs c hc).1
      rw [exponentChars, hds, List.cons_append, List.cons_append]
      by_cases he : e < 0
      · rw [if_pos he]
        simp only [takeExponent, true_or, if_true, hdigits, hvalue]
        rw [Int.ofNat_natAbs_of_nonpos he.le]
        simp
      · rw [if_neg he]
        simp only [takeExponent, true_or, if_true, hdigits, hvalue]
        rw [Int.natAbs_of_nonneg (not_lt.1 he), one_mul]

theorem numeralEnds_head_exponentChars {cs : List Char} (hcs : NumeralEnds cs) (e : Option Int) :
    ∀ c ∈ (exponentChars e ++ cs).head?, c.isDigit = false ∧ c ≠ '.' := by
  cases e with
  | none => exact fun c hc => ⟨(hcs c hc).1, (hcs c hc).2.1⟩
  | some e =>
    rintro c ⟨⟩
    exact ⟨rfl, by decide⟩

theorem digitsEnd_fractionChars {cs : List Char} (hcs : DigitsEnd cs) (ds : List Nat) :
    DigitsEnd (fractionChars ds ++ cs) := by
  cases ds with
  | nil => exact hcs
  | cons d ds =>
    rintro c ⟨⟩
    rfl

/-- A number at the front, after its sign. -/
def takeMagnitude (negative : Bool) (cs : List Char) : Option (Numeral × List Char) := do
  let (whole, cs) := takeDigits cs
  match whole with
  | [] => none
  | 0 :: _ :: _ => none
  | _ => do
    let (fraction, cs) ← takeFraction cs
    let (exponent, cs) ← takeExponent cs
    return (⟨negative, whole, fraction, exponent⟩, cs)

theorem takeNumeral_eq {negative : Bool} {cs : List Char} (hcs : '-' ∉ cs.head?) :
    takeNumeral ((if negative then ['-'] else []) ++ cs) = takeMagnitude negative cs := by
  cases negative with
  | true => rfl
  | false =>
    rw [if_neg Bool.false_ne_true, List.nil_append, takeNumeral]
    · rfl
    · rintro cs rfl
      exact hcs rfl

/-- Digits, a fraction and a power of ten are read one after the other. -/
theorem takeMagnitude_eq {negative : Bool} {cs afterWhole afterFraction rest : List Char}
    {whole fraction : List Nat} {exponent : Option Int}
    (hwhole : takeDigits cs = (whole, afterWhole)) (hnil : whole ≠ [])
    (hleading : ∀ ds, whole = 0 :: ds → ds = [])
    (hfraction : takeFraction afterWhole = some (fraction, afterFraction))
    (hexponent : takeExponent afterFraction = some (exponent, rest)) :
    takeMagnitude negative cs = some (⟨negative, whole, fraction, exponent⟩, rest) := by
  rw [takeMagnitude, hwhole]
  dsimp only
  split
  · exact absurd rfl hnil
  · cases hleading _ rfl
  · simp only [hfraction, hexponent, bind, Option.bind, pure]

/-- A well-formed numeral is read back from its characters. -/
theorem takeNumeral_chars {n : Numeral} (h : n.WellFormed) {cs : List Char} (hcs : NumeralEnds cs) :
    takeNumeral (n.chars ++ cs) = some (n, cs) := by
  obtain ⟨negative, whole, fraction, exponent⟩ := n
  have hchars : (Numeral.mk negative whole fraction exponent).chars ++ cs =
      (if negative then ['-'] else []) ++ (whole.map digitChar ++ (fractionChars fraction ++
        (exponentChars exponent ++ cs))) := by
    simp only [Numeral.chars, List.append_assoc]
    cases exponent <;> rfl
  have hends := numeralEnds_head_exponentChars hcs exponent
  have hdigits : DigitsEnd (exponentChars exponent ++ cs) := fun c hc => (hends c hc).1
  -- the first character is a digit
  obtain ⟨w, ws, rfl⟩ : ∃ w ws, whole = w :: ws := List.exists_cons_of_ne_nil h.whole_ne_nil
  have hminus : digitChar w ≠ '-' := fun hminus => by
    have hdigit := isDigit_digitChar (h.whole_lt w List.mem_cons_self)
    rw [hminus] at hdigit
    cases hdigit
  rw [hchars, takeNumeral_eq (by simpa using hminus)]
  exact takeMagnitude_eq (takeDigits_append h.whole_lt (digitsEnd_fractionChars hdigits fraction))
    h.whole_ne_nil h.leading (takeFraction_append h.fraction_lt hdigits fun hc => (hends _ hc).2 rfl)
    (takeExponent_append hcs exponent)

end Token
end PursuitForest
