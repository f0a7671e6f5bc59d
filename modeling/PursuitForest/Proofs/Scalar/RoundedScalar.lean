import PursuitForest.Proofs.Scalar.Packing
import PursuitForest.Scalar
/-!
Scalars that are rounded.

A rounded scalar is a number of a binary format, an infinity, or no number, and what is computed with
it is what the format computes. Doubles and singles are such scalars. As long as scalars are finite
they stand for rational numbers: they are compared like these (`lt_iff_val`, `le_iff_val`), sums are
rounded once (`roundsTo_add_val`), and a difference that is not above a scalar is not above it when it
is rounded (`abs_sub_le`).
-/

namespace PursuitForest

open Rounding
open Float.Model (Format UnpackedFloat)
open Float.Model.UnpackedFloat

/-- Scalars of a binary format. A unit of its smallest numbers is far below what is lost of a one. -/
class RoundedScalar (F : Type) [Scalar F] where
  format : Format
  exponentBias_pos : 0 < format.exponentBias
  minExponent_le : format.minExponent ≤ 1 - 2 * format.mantissaBits
  unpacked : F → UnpackedFloat
  exists_bits (x : F) : ∃ bits, unpacked x = unpack format bits
  unpacked_add (x y : F) : unpacked (x + y) = repacked format (add format (unpacked x) (unpacked y))
  unpacked_sub (x y : F) : unpacked (x - y) = repacked format (sub format (unpacked x) (unpacked y))
  unpacked_mul (x y : F) : unpacked (x * y) = repacked format (mul format (unpacked x) (unpacked y))
  unpacked_div (x y : F) : unpacked (x / y) = repacked format (div format (unpacked x) (unpacked y))
  unpacked_abs (x : F) : unpacked (Scalar.abs x) = repacked format (unpacked x).abs
  lt_iff (x y : F) : x < y ↔ (unpacked x).lt (unpacked y) = true
  le_iff (x y : F) : x ≤ y ↔ (unpacked x).le (unpacked y) = true
  beq_eq (x y : F) : (x == y) = (unpacked x).beq (unpacked y)
  value_one : IsNumber format (unpacked 1) ∧ value (unpacked 1) = 1
  value_two : IsNumber format (unpacked Scalar.two) ∧ value (unpacked Scalar.two) = 2
  value_epsilon : IsNumber format (unpacked Scalar.epsilon) ∧
    value (unpacked Scalar.epsilon) = 2 ^ (-format.mantissaBitsWithoutImplicit : ℤ)

/-! ### Doubles and singles -/

theorem isNumber_of_eq {format : Format} {z : UnpackedFloat} {m : ℕ} {e : ℤ} {hm : 0 < m} {r : ℚ}
    (h : z = .finite .positive m e hm) (hn : IsNumber format (.finite .positive m e hm))
    (hr : (m : ℚ) * 2 ^ e = r) : IsNumber format z ∧ value z = r := by
  subst h
  exact ⟨hn, hr⟩

instance : RoundedScalar Float where
  format := .binary64
  exponentBias_pos := by decide
  minExponent_le := by decide
  unpacked x := x.toModel.unpack
  exists_bits x := ⟨_, rfl⟩
  unpacked_add _ _ := rfl
  unpacked_sub _ _ := rfl
  unpacked_mul _ _ := rfl
  unpacked_div _ _ := rfl
  unpacked_abs _ := rfl
  lt_iff _ _ := decide_eq_true_iff
  le_iff _ _ := decide_eq_true_iff
  beq_eq _ _ := rfl
  value_one := isNumber_of_eq (m := 2 ^ 52) (e := -52) rfl ⟨by decide, by decide, .inl le_rfl⟩
    (by norm_num)
  value_two := isNumber_of_eq (m := 2 ^ 52) (e := -51) rfl ⟨by decide, by decide, .inl le_rfl⟩
    (by norm_num)
  value_epsilon := isNumber_of_eq (m := 2 ^ 52) (e := -104) rfl ⟨by decide, by decide, .inl le_rfl⟩
    (by norm_num)

instance : RoundedScalar Float32 where
  format := .binary32
  exponentBias_pos := by decide
  minExponent_le := by decide
  unpacked x := x.toModel.unpack
  exists_bits x := ⟨_, rfl⟩
  unpacked_add _ _ := rfl
  unpacked_sub _ _ := rfl
  unpacked_mul _ _ := rfl
  unpacked_div _ _ := rfl
  unpacked_abs _ := rfl
  lt_iff _ _ := decide_eq_true_iff
  le_iff _ _ := decide_eq_true_iff
  beq_eq _ _ := rfl
  value_one := isNumber_of_eq (m := 2 ^ 23) (e := -23) rfl ⟨by decide, by decide, .inl le_rfl⟩
    (by norm_num)
  value_two := isNumber_of_eq (m := 2 ^ 23) (e := -22) rfl ⟨by decide, by decide, .inl le_rfl⟩
    (by norm_num)
  value_epsilon := isNumber_of_eq (m := 2 ^ 23) (e := -46) rfl ⟨by decide, by decide, .inl le_rfl⟩
    (by norm_num)

/-! ### Finite scalars -/

namespace RoundedScalar

variable {F : Type} [Scalar F] [RoundedScalar F] {x y : F}

/-- A scalar is neither an infinity nor no number. -/
def IsFinite (x : F) : Prop := (unpacked x).isFinite = true

/-- The rational number that a scalar stands for. -/
def val (x : F) : ℚ := value (unpacked x)

theorem isNumber (hx : IsFinite x) : IsNumber (format F) (unpacked x) := by
  obtain ⟨bits, hbits⟩ := exists_bits x
  rw [IsFinite, hbits] at hx
  rw [hbits]
  exact isNumber_unpack hx

theorem isBounded (x : F) : IsBounded (format F) (unpacked x) := by
  obtain ⟨bits, hbits⟩ := exists_bits x
  rw [hbits]
  exact isBounded_unpack exponentBias_pos bits

theorem isFinite_of_isNumber (h : IsNumber (format F) (unpacked x)) : IsFinite x := by
  unfold IsFinite
  match unpacked x, h with
  | .zero _, _ | .finite _ _ _ _, _ => rfl

theorem one_val : IsFinite (1 : F) ∧ val (1 : F) = 1 :=
  ⟨isFinite_of_isNumber value_one.1, value_one.2⟩

theorem lt_iff_val (hx : IsFinite x) (hy : IsFinite y) : x < y ↔ val x < val y :=
  (lt_iff x y).trans (Rounding.lt_iff (isNumber hx) (isNumber hy))

theorem le_iff_val (hx : IsFinite x) (hy : IsFinite y) : x ≤ y ↔ val x ≤ val y :=
  (le_iff x y).trans (Rounding.le_iff (isNumber hx) (isNumber hy))

theorem beq_self (hx : IsFinite x) : (x == x) = true := by
  rw [beq_eq, UnpackedFloat.beq, compare_eq (isNumber hx) (isNumber hx), compare_eq_iff_eq.2 rfl]
  rfl

theorem larger_val (hx : IsFinite x) (hy : IsFinite y) :
    IsFinite (Scalar.larger x y) ∧ val (Scalar.larger x y) = max (val x) (val y) := by
  unfold Scalar.larger
  split
  · next h => exact ⟨hy, (max_eq_right ((lt_iff_val hx hy).1 h).le).symm⟩
  · next h =>
    rw [if_pos (beq_self hx)]
    exact ⟨hx, (max_eq_left (not_lt.1 ((lt_iff_val hx hy).not.1 h))).symm⟩

/-! ### Operations -/

/-- A result that is at most as large as a finite scalar is kept. -/
theorem unpacked_of_le {r : ℚ} {z : UnpackedFloat} (hround : RoundsTo (format F) r z)
    (hy : IsFinite y) (hr : |r| ≤ |val y|) (hx : unpacked x = repacked (format F) z) :
    IsFinite x ∧ unpacked x = z := by
  have hvalue := hround.abs_value_le (isNumber hy).fits.abs hr
  have hkept : unpacked x = z :=
    hx.trans (unpack_pack hround.isNumber
      ((isBounded y).of_abs_le (isNumber hy) hround.isNumber hvalue))
  exact ⟨isFinite_of_isNumber (hkept ▸ hround.isNumber), hkept⟩

theorem abs_val (hx : IsFinite x) : IsFinite (Scalar.abs x) ∧ val (Scalar.abs x) = |val x| := by
  have hvalue := value_abs (unpacked x)
  obtain ⟨hfinite, hkept⟩ := unpacked_of_le (isNumber hx).abs.roundsTo hx
    (by rw [hvalue, abs_abs]; rfl) (unpacked_abs x)
  refine ⟨hfinite, ?_⟩
  rw [val, hkept, hvalue]
  rfl

theorem roundsTo_add_val (hx : IsFinite x) (hy : IsFinite y) (h : IsFinite (x + y)) :
    RoundsTo (format F) (val x + val y) (unpacked (x + y)) := by
  have hround := roundsTo_add (isNumber hx) (isNumber hy)
  rw [IsFinite, unpacked_add] at h
  rw [unpacked_add, repacked_of_finite hround.isNumber h]
  exact hround

/-- A difference that is not above a scalar is not above it when it is rounded. -/
theorem abs_sub_le {w : F} (hx : IsFinite x) (hy : IsFinite y) (hw : IsFinite w)
    (h : |val x - val y| ≤ val w) : Scalar.abs (x - y) ≤ w := by
  have hround := roundsTo_sub (isNumber hx) (isNumber hy)
  obtain ⟨hfinite, hkept⟩ := unpacked_of_le hround hw (h.trans (le_abs_self _)) (unpacked_sub x y)
  obtain ⟨habs, hval⟩ := abs_val hfinite
  rw [le_iff_val habs hw, hval, val, hkept]
  exact hround.abs_value_le (isNumber hw).fits h

/-- A scalar of at least one is scaled by the size of a rounding error exactly. -/
theorem epsilon_mul_val (hx : IsFinite x) (h : 1 ≤ val x) : IsFinite (Scalar.epsilon * x) ∧
    val (Scalar.epsilon * x) = 2 ^ (-(format F).mantissaBitsWithoutImplicit : ℤ) * val x := by
  obtain ⟨hnumber, hvalue⟩ := value_epsilon (F := F)
  have hround := roundsTo_mul hnumber (isNumber hx)
  rw [hvalue] at hround
  have hsmall : (2 : ℚ) ^ (-(format F).mantissaBitsWithoutImplicit : ℤ) ≤ 1 :=
    zpow_le_one_of_nonpos₀ one_le_two (by omega)
  have hle : |2 ^ (-(format F).mantissaBitsWithoutImplicit : ℤ) * val x| ≤ |val x| := by
    rw [abs_mul, abs_of_pos (by positivity)]
    exact mul_le_of_le_one_left (abs_nonneg _) hsmall
  obtain ⟨hfinite, hkept⟩ := unpacked_of_le hround hx hle (unpacked_mul _ x)
  refine ⟨hfinite, ?_⟩
  rw [val, hkept]
  exact hround.eq ((isNumber hx).fits.scale (h.trans (le_abs_self _)) minExponent_le)

/-- Halving is exact, unless half of the smallest unit is lost. -/
theorem half_val (hx : IsFinite x) : IsFinite (x / Scalar.two) ∧
    (val (x / Scalar.two) = val x / 2 ∨
      |val (x / Scalar.two) - val x / 2| ≤ 2 ^ (format F).minExponent / 2) := by
  obtain ⟨hnumber, hvalue⟩ := value_two (F := F)
  have hround := roundsTo_div (isNumber hx) hnumber (by rw [hvalue]; exact two_ne_zero)
  rw [hvalue] at hround
  have hle : |val x / 2| ≤ |val x| := by
    rw [abs_div, abs_two]
    exact half_le_self (abs_nonneg _)
  obtain ⟨hfinite, hkept⟩ := unpacked_of_le hround hx hle (unpacked_div x _)
  refine ⟨hfinite, ?_⟩
  rw [val, hkept]
  exact (isNumber hx).fits.half.imp hround.eq hround.error_of_lt

/-! ### Infinities -/

theorem not_isFinite_iff :
    ¬ IsFinite x ↔ (∃ s, unpacked x = .infinity s) ∨ unpacked x = .notANumber := by
  unfold IsFinite
  cases unpacked x <;> simp [UnpackedFloat.isFinite]

theorem isFinite_terms (h : IsFinite (x + y)) : IsFinite x ∧ IsFinite y := by
  rw [IsFinite, unpacked_add] at h
  exact isFinite_of_add (isFinite_of_repacked h)

/-- An infinity is not changed by halving. -/
theorem unpacked_half_infinity {s : Sign} (h : unpacked x = .infinity s) :
    unpacked (x / Scalar.two) = .infinity s := by
  obtain ⟨hnumber, hvalue⟩ := value_two (F := F)
  obtain ⟨m, e, hm, htwo⟩ := exists_positive hnumber (hvalue ▸ two_pos)
  rw [unpacked_div, h, htwo]
  cases s <;> exact repacked_infinity _

theorem unpacked_half_notANumber (h : unpacked x = .notANumber) :
    unpacked (x / Scalar.two) = .notANumber := by
  rw [unpacked_div, h]
  exact repacked_notANumber

/-- An infinity stays one when it is scaled by the size of a rounding error. -/
theorem unpacked_epsilon_mul (h : unpacked x = .infinity .positive) :
    unpacked (Scalar.epsilon * x) = .infinity .positive := by
  obtain ⟨hnumber, hvalue⟩ := value_epsilon (F := F)
  obtain ⟨m, e, hm, hepsilon⟩ := exists_positive hnumber (hvalue ▸ by positivity)
  rw [unpacked_mul, h, hepsilon]
  exact repacked_infinity _

theorem unpacked_abs_infinity {s : Sign} (h : unpacked x = .infinity s) :
    unpacked (Scalar.abs x) = .infinity .positive := by
  rw [unpacked_abs, h]
  exact repacked_infinity _

/-- The distance to an infinity is infinite. -/
theorem unpacked_abs_sub (h : (∃ s, unpacked x = .infinity s) ∧ IsFinite y ∨
    IsFinite x ∧ ∃ s, unpacked y = .infinity s) :
    unpacked (Scalar.abs (x - y)) = .infinity .positive := by
  rcases h with ⟨⟨s, hx⟩, hy⟩ | ⟨hx, s, hy⟩
  · have hsub : sub (format F) (.infinity s) (unpacked y) = .infinity s := by
      unfold IsFinite at hy
      match unpacked y, hy with
      | .zero _, _ | .finite _ _ _ _, _ => rfl
    exact unpacked_abs_infinity (by rw [unpacked_sub, hx, hsub, repacked_infinity])
  · have hsub : sub (format F) (unpacked x) (.infinity s) = .infinity (-s) := by
      unfold IsFinite at hx
      match unpacked x, hx with
      | .zero _, _ | .finite _ _ _ _, _ => rfl
    exact unpacked_abs_infinity (by rw [unpacked_sub, hy, hsub, repacked_infinity])

theorem infinity_le (hx : unpacked x = .infinity .positive) :
    x ≤ y ↔ unpacked y = .infinity .positive := by
  rw [le_iff, hx]
  match unpacked y with
  | .infinity .positive => exact ⟨fun _ => rfl, fun _ => rfl⟩
  | .infinity .negative | .notANumber | .zero _ | .finite _ _ _ _ => exact ⟨nofun, nofun⟩

theorem lt_infinity (hy : unpacked y = .infinity .positive) :
    x < y ↔ IsFinite x ∨ unpacked x = .infinity .negative := by
  rw [lt_iff, hy, IsFinite]
  match unpacked x with
  | .zero _ | .finite .positive _ _ _ | .finite .negative _ _ _ =>
    exact ⟨fun _ => .inl rfl, fun _ => rfl⟩
  | .infinity .negative => exact ⟨fun _ => .inr rfl, fun _ => rfl⟩
  | .infinity .positive | .notANumber => exact ⟨nofun, fun h => h.elim nofun nofun⟩

theorem not_lt_negative_infinity (hy : unpacked y = .infinity .negative) : ¬ x < y := by
  rw [lt_iff, hy]
  match unpacked x with
  | .infinity .positive | .infinity .negative | .notANumber | .zero _ | .finite _ _ _ _ => exact nofun

theorem not_infinity_lt (hx : unpacked x = .infinity .positive) : ¬ x < y := by
  rw [lt_iff, hx]
  match unpacked y with
  | .infinity .positive | .infinity .negative | .notANumber | .zero _ | .finite _ _ _ _ => exact nofun

theorem not_lt_notANumber (hy : unpacked y = .notANumber) : ¬ x < y := by
  rw [lt_iff, hy]
  cases unpacked x <;> exact nofun

/-- Of a finite scalar and an infinity the infinity is larger. -/
theorem larger_infinity (h : unpacked x = .infinity .positive ∧ IsFinite y ∨
    IsFinite x ∧ unpacked y = .infinity .positive) :
    unpacked (Scalar.larger x y) = .infinity .positive := by
  unfold Scalar.larger
  rcases h with ⟨hx, hy⟩ | ⟨hx, hy⟩
  · have hself : (x == x) = true := by
      rw [beq_eq, hx]
      rfl
    rwa [if_neg (not_infinity_lt hx), hself, if_pos rfl]
  · rwa [if_pos ((lt_infinity hy).2 (.inl hx))]

end RoundedScalar

end PursuitForest
