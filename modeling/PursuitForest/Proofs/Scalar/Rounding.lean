import Mathlib
/-!
Rounding to a binary format.

A magnitude is handed over as a whole number of units and a note on what is left of a unit. Bits that
are shifted out go into the note (`Describes.shiftRight`), so the whole number that is taken in the
end is at most half a unit away (`Describes.abs_roundedMantissa_sub_le`). The unit is the one that the
precision of the format allows for, or the smallest there is (`roundsTo_roundWithAccuracy`).

A number that is rounded stays on its side of every number of the format (`RoundsTo.le`,
`RoundsTo.ge`), and it moves by a share of its size, or by at most half of the smallest unit
(`RoundsTo.error`).
-/

namespace PursuitForest.Rounding

open Float.Model (Format totalExponent UnpackedFloat)
open Float.Model.UnpackedFloat

/-! ### Bits that are shifted out -/

/-- A note tells where a rest lies between nothing and a unit. -/
def Measures : Accuracy → ℚ → Prop
  | .exact, t => t = 0
  | .inexact .lt, t => 0 < t ∧ t < 1 / 2
  | .inexact .eq, t => t = 1 / 2
  | .inexact .gt, t => 1 / 2 < t ∧ t < 1

theorem Measures.mem_unit {a : Accuracy} {t : ℚ} (h : Measures a t) : 0 ≤ t ∧ t < 1 := by
  match a, h with
  | .exact, h => rw [Measures] at h; constructor <;> linarith
  | .inexact .lt, h => rw [Measures] at h; constructor <;> linarith
  | .inexact .eq, h => rw [Measures] at h; constructor <;> linarith
  | .inexact .gt, h => rw [Measures] at h; constructor <;> linarith

/-- The nearest whole number is at most half a unit away. -/
theorem Measures.abs_roundToNearestEven_sub_le {a : Accuracy} {t : ℚ} (h : Measures a t) (m : ℕ) :
    |(a.roundToNearestEven m : ℚ) - (m + t)| ≤ 1 / 2 := by
  rw [abs_le]
  match a, h with
  | .exact, h => rw [Measures] at h; constructor <;> simp only [Accuracy.roundToNearestEven] <;> linarith
  | .inexact .lt, h =>
    rw [Measures] at h; constructor <;> simp only [Accuracy.roundToNearestEven] <;> linarith
  | .inexact .eq, h =>
    rw [Measures] at h
    rcases Nat.mod_two_eq_zero_or_one m with hm | hm <;>
      simp only [Accuracy.roundToNearestEven, hm] <;> push_cast <;> constructor <;> linarith
  | .inexact .gt, h =>
    rw [Measures] at h
    constructor <;> simp only [Accuracy.roundToNearestEven] <;> push_cast <;> linarith

theorem roundToNearestEven_le (a : Accuracy) (m : ℕ) :
    m ≤ a.roundToNearestEven m ∧ a.roundToNearestEven m ≤ m + 1 := by
  match a with
  | .exact | .inexact .lt | .inexact .gt => simp only [Accuracy.roundToNearestEven]; omega
  | .inexact .eq => simp only [Accuracy.roundToNearestEven]; omega

/-- Units and the note on the rest stand for a magnitude. -/
def Describes (em : ExtendedMantissa) (r : ℚ) : Prop := Measures em.accuracy (r - em.mantissa)

theorem describes_ofMantissaAndAccuracy {a : Accuracy} {t : ℚ} (h : Measures a t) (m : ℕ) :
    Describes (.ofMantissaAndAccuracy m a) (m + t) := by
  have hrest : (m : ℚ) + t - m = t := by ring
  match a, h with
  | .exact, h => exact hrest.trans h
  | .inexact .lt, h | .inexact .eq, h | .inexact .gt, h =>
    simpa only [Describes, ExtendedMantissa.ofMantissaAndAccuracy, ExtendedMantissa.accuracy, hrest]
      using h

namespace Describes

variable {em : ExtendedMantissa} {r : ℚ}

/-- A magnitude is above its whole units by less than one. -/
theorem mantissa_le_lt (h : Describes em r) : (em.mantissa : ℚ) ≤ r ∧ r < em.mantissa + 1 := by
  have := Measures.mem_unit h
  constructor <;> linarith

/-- A unit twice as large. -/
theorem shiftRightOne (h : Describes em r) : Describes em.shiftRightOne (r / 2) := by
  obtain ⟨m, round, sticky⟩ := em
  have hm : (m : ℚ) = 2 * (m / 2 : ℕ) + (m % 2 : ℕ) := by
    exact_mod_cast (Nat.div_add_mod m 2).symm
  unfold Describes ExtendedMantissa.shiftRightOne
  dsimp only
  -- the last bit of the units leads the new rest
  rcases Nat.mod_two_eq_zero_or_one m with hlast | hlast <;> rw [hlast] at hm ⊢ <;> push_cast at hm
  all_goals
    cases round <;> cases sticky <;>
      simp only [Describes, Measures, ExtendedMantissa.accuracy, Nat.reduceBNe, Bool.or_self,
        Bool.or_true, Bool.or_false] at h ⊢ <;>
      first | linarith | constructor <;> linarith

/-- A unit many times as large. -/
theorem shiftRight (h : Describes em r) : ∀ k : ℕ, Describes (em >>> k) (r / 2 ^ k)
  | 0 => by rwa [pow_zero, div_one]
  | k + 1 => by
    rw [pow_succ, ← div_div]
    exact (h.shiftRight k).shiftRightOne

theorem abs_roundedMantissa_sub_le (h : Describes em r) : |(em.roundedMantissa : ℚ) - r| ≤ 1 / 2 := by
  have := Measures.abs_roundToNearestEven_sub_le h em.mantissa
  rwa [add_sub_cancel] at this

/-- Between two whole numbers a magnitude is rounded to one between them. -/
theorem roundedMantissa_le {bound : ℕ} (h : Describes em r) (hr : r < bound) :
    em.roundedMantissa ≤ bound := by
  have hmantissa : em.mantissa < bound := by exact_mod_cast h.mantissa_le_lt.1.trans_lt hr
  have := (roundToNearestEven_le em.accuracy em.mantissa).2
  exact this.trans hmantissa

theorem le_roundedMantissa {bound : ℕ} (h : Describes em r) (hr : bound ≤ r) :
    bound ≤ em.roundedMantissa := by
  have hmantissa : bound < em.mantissa + 1 := by exact_mod_cast hr.trans_lt h.mantissa_le_lt.2
  have := (roundToNearestEven_le em.accuracy em.mantissa).1
  exact (Nat.lt_succ_iff.1 hmantissa).trans this

end Describes

/-! ### Numbers of a format -/

/-- A magnitude with a sign. -/
def signed : Sign → ℚ → ℚ
  | .positive, r => r
  | .negative, r => -r

theorem abs_signed (s : Sign) (r : ℚ) : |signed s r| = |r| := by
  cases s
  · exact abs_neg r
  · rfl

theorem signed_sub (s : Sign) (a b : ℚ) : signed s a - signed s b = signed s (a - b) := by
  cases s
  · show -a - -b = -(a - b)
    ring
  · rfl

/-- The rational number that an unpacked one stands for. -/
def value : UnpackedFloat → ℚ
  | .finite s m e _ => signed s (m * 2 ^ e)
  | _ => 0

@[simp] theorem value_zero (s : Sign) : value (.zero s) = 0 := rfl

/-- A number whose units are as small as the format allows for, however large it is. -/
def IsNumber (format : Format) : UnpackedFloat → Prop
  | .zero _ => True
  | .finite _ m e _ => m < 2 ^ format.mantissaBits ∧ format.minExponent ≤ e ∧
      (2 ^ format.mantissaBitsWithoutImplicit ≤ m ∨ e = format.minExponent)
  | _ => False

/-- A number of the format is nearest to a rational one, up to half of the unit that the rational number
has in the format. -/
structure RoundsTo (format : Format) (r : ℚ) (z : UnpackedFloat) : Prop where
  isNumber : IsNumber format z
  nearest : ∃ k n : ℤ, format.minExponent ≤ k ∧ value z = n * 2 ^ k ∧ |value z - r| ≤ 2 ^ k / 2 ∧
    (k = format.minExponent ∨ 2 ^ (format.mantissaBitsWithoutImplicit + k) ≤ |r|)

variable {format : Format}

theorem mantissaBits_eq (format : Format) :
    format.mantissaBits = format.mantissaBitsWithoutImplicit + 1 :=
  Nat.add_comm _ _

/-- Units that are too small for the format are made larger, and bits are shifted out. -/
theorem describes_shiftToTargetExponent {m : ℕ} {e k : ℤ} {a : Accuracy} {t : ℚ} (ht : Measures a t)
    (hk : format.targetExponent (totalExponent m e) = k) (he : e ≤ k) :
    (shiftToTargetExponent format m e a).2 = k ∧
      Describes (shiftToTargetExponent format m e a).1 ((m + t) * 2 ^ (e - k)) := by
  have hshift : ((k - e).toNat : ℤ) = k - e := Int.toNat_of_nonneg (by omega)
  unfold shiftToTargetExponent shiftToExponent
  rw [hk]
  refine ⟨by dsimp only; omega, ?_⟩
  have hscale : ((m : ℚ) + t) * 2 ^ (e - k) = (m + t) / 2 ^ (k - e).toNat := by
    rw [← zpow_natCast, hshift, div_eq_mul_inv, ← zpow_neg, neg_sub]
  rw [hscale]
  exact (describes_ofMantissaAndAccuracy ht m).shiftRight _

/-- Units of the format are kept. -/
theorem shiftToTargetExponent_of_le {m : ℕ} {e : ℤ}
    (h : format.targetExponent (totalExponent m e) ≤ e) :
    shiftToTargetExponent format m e .exact = (⟨m, false, false⟩, e) := by
  have hshift : (format.targetExponent (totalExponent m e) - e).toNat = 0 := by omega
  unfold shiftToTargetExponent shiftToExponent
  dsimp only
  rw [hshift, Nat.cast_zero, add_zero]
  rfl

theorem targetExponent_le {m : ℕ} {e : ℤ} (hm : m < 2 ^ format.mantissaBits)
    (he : format.minExponent ≤ e) : format.targetExponent (totalExponent m e) ≤ e := by
  have hlog : m.log2 < format.mantissaBits := by
    rcases Nat.eq_zero_or_pos m with rfl | hpos
    · rw [Nat.log2_zero, mantissaBits_eq]
      exact Nat.succ_pos _
    · exact (Nat.log2_lt hpos.ne').2 hm
  unfold Format.targetExponent totalExponent
  omega

/-- A magnitude one above the largest is carried over into the next unit. -/
theorem shiftToTargetExponent_two_pow {e : ℤ} (he : format.minExponent ≤ e) :
    shiftToTargetExponent format (2 ^ format.mantissaBits) e .exact =
      (⟨2 ^ format.mantissaBitsWithoutImplicit, false, false⟩, e + 1) := by
  have htarget : format.targetExponent (totalExponent (2 ^ format.mantissaBits) e) = e + 1 := by
    unfold Format.targetExponent totalExponent
    rw [Nat.log2_two_pow]
    omega
  have hone : (e + 1 - e).toNat = 1 := by omega
  have hhalf : 2 ^ format.mantissaBits / 2 = 2 ^ format.mantissaBitsWithoutImplicit := by
    rw [mantissaBits_eq, pow_succ, Nat.mul_div_cancel _ two_pos]
  have heven : 2 ^ format.mantissaBits % 2 = 0 := by
    rw [mantissaBits_eq, pow_succ, Nat.mul_mod_left]
  unfold shiftToTargetExponent shiftToExponent
  dsimp only
  rw [htarget, hone]
  show ((⟨2 ^ format.mantissaBits / 2, 2 ^ format.mantissaBits % 2 != 0, _⟩ : ExtendedMantissa), _) = _
  rw [hhalf, heven]
  rfl

/-- What is taken as a rounded number. -/
def taken (s : Sign) (m : ℕ) (e : ℤ) : UnpackedFloat :=
  if h : m = 0 then .zero s else .finite s m e (Nat.pos_of_ne_zero h)

theorem taken_of_pos {s : Sign} {m : ℕ} {e : ℤ} (hm : 0 < m) : taken s m e = .finite s m e hm :=
  dif_neg hm.ne'

theorem value_taken (s : Sign) (m : ℕ) (e : ℤ) : value (taken s m e) = signed s (m * 2 ^ e) := by
  unfold taken
  split
  · next h => rw [h, Nat.cast_zero, zero_mul]; cases s <;> simp [value, signed]
  · rfl

theorem isNumber_taken {s : Sign} {m : ℕ} {e : ℤ} (hm : m < 2 ^ format.mantissaBits)
    (he : format.minExponent ≤ e)
    (hunit : 2 ^ format.mantissaBitsWithoutImplicit ≤ m ∨ e = format.minExponent) :
    IsNumber format (taken s m e) := by
  unfold taken
  split
  · trivial
  · exact ⟨hm, he, hunit⟩

/-- Rounding takes the nearest number of units, carried over if it is too large. -/
theorem roundWithAccuracy_eq {s : Sign} {m n : ℕ} {e k : ℤ} {a : Accuracy}
    (hk : (shiftToTargetExponent format m e a).2 = k)
    (hn : (shiftToTargetExponent format m e a).1.roundedMantissa = n)
    (hmin : format.minExponent ≤ k) (hle : n ≤ 2 ^ format.mantissaBits) :
    roundWithAccuracy format s m e a =
      if n = 2 ^ format.mantissaBits then taken s (2 ^ format.mantissaBitsWithoutImplicit) (k + 1)
      else taken s n k := by
  have htaken : roundWithAccuracy format s m e a =
      taken s (shiftToTargetExponent format n k .exact).1.mantissa
        (shiftToTargetExponent format n k .exact).2 := by
    unfold roundWithAccuracy
    dsimp only
    rw [hk, hn]
    rfl
  rw [htaken]
  split
  · next hlast => rw [hlast, shiftToTargetExponent_two_pow hmin]
  · next hlast =>
    rw [shiftToTargetExponent_of_le (targetExponent_le (lt_of_le_of_ne hle hlast) hmin)]

/-- A magnitude has as many units of the format as its precision allows for. -/
theorem units_bounds {m : ℕ} {e k : ℤ} {t : ℚ} (ht : 0 ≤ t ∧ t < 1)
    (hk : format.targetExponent (totalExponent m e) = k) (he : e ≤ k) :
    (m + t) * 2 ^ (e - k) < (2 : ℚ) ^ format.mantissaBits ∧
      (k = format.minExponent ∨
        (2 : ℚ) ^ format.mantissaBitsWithoutImplicit ≤ (m + t) * 2 ^ (e - k)) := by
  have htwo : (1 : ℚ) ≤ 2 := by norm_num
  have hbits := format.hm
  have htarget : k = max ((m.log2 : ℤ) + e - format.mantissaBitsWithoutImplicit) format.minExponent := by
    rw [← hk, Format.targetExponent, totalExponent, mantissaBits_eq]
    push_cast
    congr 1
    ring
  have hscale : (0 : ℚ) < 2 ^ (e - k) := by positivity
  constructor
  · have hm : (m : ℚ) + t < 2 ^ ((m.log2 : ℤ) + 1) := by
      have hlog : (m : ℚ) + 1 ≤ 2 ^ (m.log2 + 1) := by exact_mod_cast Nat.lt_log2_self
      have hcast : ((m.log2 : ℤ) + 1) = ((m.log2 + 1 : ℕ) : ℤ) := by push_cast; rfl
      rw [hcast, zpow_natCast]
      linarith
    calc (m + t) * 2 ^ (e - k) < 2 ^ ((m.log2 : ℤ) + 1) * (2 : ℚ) ^ (e - k) :=
          mul_lt_mul_of_pos_right hm hscale
      _ = 2 ^ ((m.log2 : ℤ) + 1 + (e - k)) := (zpow_add₀ two_ne_zero _ _).symm
      _ ≤ 2 ^ (format.mantissaBits : ℤ) := zpow_le_zpow_right₀ htwo (by
          rw [mantissaBits_eq]
          push_cast
          omega)
      _ = 2 ^ format.mantissaBits := zpow_natCast _ _
  · refine (eq_or_ne k format.minExponent).imp_right fun hmin => ?_
    have hexact : (m.log2 : ℤ) + (e - k) = format.mantissaBitsWithoutImplicit := by omega
    have hpos : m ≠ 0 := by
      rintro rfl
      rw [Nat.log2_zero] at hexact
      omega
    have hm : (2 : ℚ) ^ (m.log2 : ℤ) ≤ m + t := by
      have hlog : (2 : ℚ) ^ m.log2 ≤ m := by exact_mod_cast Nat.log2_self_le hpos
      rw [zpow_natCast]
      linarith
    calc (2 : ℚ) ^ format.mantissaBitsWithoutImplicit
        = 2 ^ ((m.log2 : ℤ) + (e - k)) := by rw [hexact, zpow_natCast]
      _ = 2 ^ (m.log2 : ℤ) * 2 ^ (e - k) := zpow_add₀ two_ne_zero _ _
      _ ≤ (m + t) * 2 ^ (e - k) := mul_le_mul_of_nonneg_right hm hscale.le

/-- Rounding comes to a number of the format, a nearest one. -/
theorem roundsTo_roundWithAccuracy {s : Sign} {m : ℕ} {e : ℤ} {a : Accuracy} {t : ℚ}
    (ht : Measures a t) (he : e ≤ format.targetExponent (totalExponent m e)) :
    RoundsTo format (signed s ((m + t) * 2 ^ e)) (roundWithAccuracy format s m e a) := by
  generalize hk : format.targetExponent (totalExponent m e) = k at he
  obtain ⟨hshift, hdescribes⟩ := describes_shiftToTargetExponent ht hk he
  obtain ⟨hlt, hunit⟩ := units_bounds ht.mem_unit hk he
  have hmin : format.minExponent ≤ k := hk ▸ le_max_right _ _
  generalize hn : (shiftToTargetExponent format m e a).1.roundedMantissa = n
  have hle : n ≤ 2 ^ format.mantissaBits :=
    hn ▸ hdescribes.roundedMantissa_le (by push_cast; exact hlt)
  have hunits : k = format.minExponent ∨ 2 ^ format.mantissaBitsWithoutImplicit ≤ n :=
    hunit.imp_right fun h => hn ▸ hdescribes.le_roundedMantissa (by push_cast; exact h)
  have hvalue : value (roundWithAccuracy format s m e a) = signed s (n * 2 ^ k) := by
    rw [roundWithAccuracy_eq hshift hn hmin hle]
    split
    · next hlast =>
      rw [value_taken, hlast, mantissaBits_eq, zpow_add_one₀ two_ne_zero]
      push_cast
      rw [pow_succ]
      ring_nf
    · rw [value_taken]
  have hexact : ((m : ℚ) + t) * 2 ^ e = (m + t) * 2 ^ (e - k) * 2 ^ k := by
    rw [mul_assoc, ← zpow_add₀ two_ne_zero, sub_add_cancel]
  have hscale : (0 : ℚ) < 2 ^ k := by positivity
  refine ⟨?_, k, (signed s n).num, hmin, ?_, ?_, ?_⟩
  · rw [roundWithAccuracy_eq hshift hn hmin hle]
    split
    · exact isNumber_taken (Nat.pow_lt_pow_right one_lt_two (by rw [mantissaBits_eq]; omega))
        (by omega) (.inl le_rfl)
    · next hlast => exact isNumber_taken (lt_of_le_of_ne hle hlast) hmin hunits.symm
  · rw [hvalue]
    cases s <;> simp [signed]
  · rw [hvalue, signed_sub, abs_signed, hexact, ← sub_mul, abs_mul, abs_of_pos hscale]
    have hround := hdescribes.abs_roundedMantissa_sub_le
    rw [hn] at hround
    calc |(n : ℚ) - (m + t) * 2 ^ (e - k)| * 2 ^ k ≤ 1 / 2 * 2 ^ k :=
          mul_le_mul_of_nonneg_right hround hscale.le
      _ = 2 ^ k / 2 := by ring
  · refine hunit.imp_right fun h => ?_
    have hnonneg : 0 ≤ ((m : ℚ) + t) * 2 ^ e := by
      have := ht.mem_unit.1
      positivity
    rw [abs_signed, abs_of_nonneg hnonneg, hexact, zpow_add₀ two_ne_zero, zpow_natCast]
    exact mul_le_mul_of_nonneg_right h hscale.le

/-! ### Where a rounded number lies -/

/-- A rational number is one of the format, if there were no largest. -/
def Fits (format : Format) (w : ℚ) : Prop :=
  ∃ m e : ℤ, format.minExponent ≤ e ∧ |m| < 2 ^ format.mantissaBits ∧ w = m * 2 ^ e

theorem Fits.neg {w : ℚ} (h : Fits format w) : Fits format (-w) := by
  obtain ⟨m, e, he, hm, rfl⟩ := h
  exact ⟨-m, e, he, by rwa [abs_neg], by push_cast; ring⟩

theorem Fits.abs {w : ℚ} (h : Fits format w) : Fits format |w| := by
  rcases abs_choice w with hw | hw
  · rwa [hw]
  · rw [hw]
    exact h.neg

/-- Numbers with a smaller unit are smaller than those with all bits of a larger one. -/
theorem abs_lt_of_exponent_lt {m e k : ℤ} (hm : |m| < 2 ^ format.mantissaBits) (hek : e < k) :
    |(m : ℚ) * 2 ^ e| < 2 ^ (format.mantissaBitsWithoutImplicit + k) := by
  have hm : |(m : ℚ)| < 2 ^ (format.mantissaBits : ℤ) := by
    rw [zpow_natCast]
    exact_mod_cast hm
  have hscale : (0 : ℚ) < 2 ^ e := by positivity
  calc |(m : ℚ) * 2 ^ e| = |(m : ℚ)| * 2 ^ e := by rw [abs_mul, abs_of_pos hscale]
    _ < 2 ^ (format.mantissaBits : ℤ) * (2 : ℚ) ^ e := mul_lt_mul_of_pos_right hm hscale
    _ = 2 ^ (format.mantissaBits + e) := (zpow_add₀ two_ne_zero _ _).symm
    _ ≤ 2 ^ (format.mantissaBitsWithoutImplicit + k) := zpow_le_zpow_right₀ one_le_two (by
        rw [mantissaBits_eq]
        push_cast
        omega)

/-- Half of a number of the format is one, unless it is below all numbers with all bits. -/
theorem Fits.half {w : ℚ} (h : Fits format w) : Fits format (w / 2) ∨
    |w / 2| < 2 ^ (format.mantissaBitsWithoutImplicit + format.minExponent) := by
  obtain ⟨m, e, he, hm, rfl⟩ := h
  rcases he.eq_or_lt with rfl | hlt
  · have hbelow := abs_lt_of_exponent_lt hm (lt_add_one format.minExponent)
    rw [← add_assoc, zpow_add_one₀ two_ne_zero] at hbelow
    rw [abs_div, abs_two]
    exact .inr ((div_lt_iff₀ two_pos).2 hbelow)
  · refine .inl ⟨m, e - 1, by omega, hm, ?_⟩
    rw [zpow_sub_one₀ two_ne_zero, div_eq_mul_inv, mul_assoc]

/-- A number of at least one has bits to spare if there are small units. -/
theorem Fits.scale {w : ℚ} (h : Fits format w) (hw : 1 ≤ |w|)
    (hmin : format.minExponent ≤ 1 - 2 * format.mantissaBits) :
    Fits format (2 ^ (-format.mantissaBitsWithoutImplicit : ℤ) * w) := by
  obtain ⟨m, e, he, hm, rfl⟩ := h
  refine ⟨m, e - format.mantissaBitsWithoutImplicit, ?_, hm, ?_⟩
  · have hlarge : 0 < format.mantissaBitsWithoutImplicit + (e + 1) := by
      have hlt := abs_lt_of_exponent_lt hm (lt_add_one e)
      exact (one_lt_zpow_iff_right₀ one_lt_two).1 (hw.trans_lt hlt)
    rw [mantissaBits_eq] at hmin
    push_cast at hmin
    omega
  · rw [sub_eq_add_neg, zpow_add₀ two_ne_zero]
    ring

theorem value_neg (z : UnpackedFloat) : value z.neg = -value z := by
  match z with
  | .finite .positive _ _ _ => rfl
  | .finite .negative _ _ _ => exact (neg_neg _).symm
  | .notANumber | .infinity _ | .zero _ => exact neg_zero.symm

theorem IsNumber.neg {z : UnpackedFloat} (h : IsNumber format z) : IsNumber format z.neg := by
  match z, h with
  | .finite _ _ _ _, h => exact h
  | .zero _, _ => trivial

theorem value_abs (z : UnpackedFloat) : value z.abs = |value z| := by
  match z with
  | .finite s m e _ =>
    rw [value, abs_signed, abs_of_nonneg (by positivity)]
    rfl
  | .notANumber | .infinity _ | .zero _ => exact abs_zero.symm

theorem IsNumber.abs {z : UnpackedFloat} (h : IsNumber format z) : IsNumber format z.abs := by
  match z, h with
  | .finite _ _ _ _, h => exact h
  | .zero _, _ => trivial

theorem IsNumber.fits {z : UnpackedFloat} (h : IsNumber format z) : Fits format (value z) := by
  match z, h with
  | .zero _, _ =>
    exact ⟨0, format.minExponent, le_rfl, by rw [abs_zero]; positivity, by simp [value]⟩
  | .finite s m e _, ⟨hm, he, _⟩ =>
    refine ⟨(signed s m).num, e, he, ?_, ?_⟩
    · cases s <;> simp [signed] <;> exact_mod_cast hm
    · cases s <;> simp [signed, value]

/-- A number of the format is rounded to itself. -/
theorem IsNumber.roundsTo {z : UnpackedFloat} (h : IsNumber format z) :
    RoundsTo format (value z) z := by
  refine ⟨h, ?_⟩
  match z, h with
  | .zero _, _ => exact ⟨format.minExponent, 0, le_rfl, by simp [value], by simp; positivity, .inl rfl⟩
  | .finite s m e _, ⟨_, he, hunit⟩ =>
    refine ⟨e, (signed s m).num, he, by cases s <;> simp [signed, value], by simp; positivity,
      hunit.symm.imp_right fun hm => ?_⟩
    have hm : (2 : ℚ) ^ format.mantissaBitsWithoutImplicit ≤ m := by exact_mod_cast hm
    rw [← value_abs, zpow_add₀ two_ne_zero, zpow_natCast]
    exact mul_le_mul_of_nonneg_right hm (by positivity)

namespace RoundsTo

variable {r w : ℚ} {z : UnpackedFloat}

theorem neg (h : RoundsTo format r z) : RoundsTo format (-r) z.neg := by
  obtain ⟨k, n, hk, hvalue, hnear, hunit⟩ := h.nearest
  refine ⟨h.isNumber.neg, k, -n, hk, ?_, ?_, by rwa [abs_neg]⟩
  · rw [value_neg, hvalue]
    push_cast
    ring
  · rwa [value_neg, neg_sub_neg, abs_sub_comm]

/-- No number of the format lies between a number and what it is rounded to. -/
theorem le (h : RoundsTo format r z) (hw : Fits format w) (hr : r ≤ w) : value z ≤ w := by
  obtain ⟨k, n, hk, hvalue, hnear, hunit⟩ := h.nearest
  obtain ⟨m, e, he, hm, rfl⟩ := hw
  by_contra hlt
  rw [not_le, hvalue] at hlt
  have hscale : (0 : ℚ) < 2 ^ k := by positivity
  -- there is a number of whole units between, so that the nearest one is not nearest
  obtain ⟨c, hrc, hcn⟩ : ∃ c : ℤ, r ≤ c * 2 ^ k ∧ (c : ℚ) * 2 ^ k < n * 2 ^ k := by
    rcases le_or_gt k e with hke | hek
    · have hw : ((m * 2 ^ (e - k).toNat : ℤ) : ℚ) * 2 ^ k = m * 2 ^ e := by
        push_cast
        rw [← zpow_natCast, Int.toNat_of_nonneg (by omega), mul_assoc, ← zpow_add₀ two_ne_zero,
          sub_add_cancel]
      exact ⟨_, hr.trans hw.ge, hw.trans_lt hlt⟩
    · have hunit := hunit.resolve_left (by omega)
      have hw := abs_lt_of_exponent_lt hm hek
      have hleast : ((-2 ^ format.mantissaBitsWithoutImplicit : ℤ) : ℚ) * 2 ^ k =
          -2 ^ (format.mantissaBitsWithoutImplicit + k) := by
        rw [zpow_add₀ two_ne_zero, zpow_natCast]
        push_cast
        ring
      refine ⟨-2 ^ format.mantissaBitsWithoutImplicit, ?_, ?_⟩
      · have hneg : r < 0 := by
          by_contra hnonneg
          rw [abs_of_nonneg (not_lt.1 hnonneg)] at hunit
          linarith [(abs_lt.1 hw).2]
        rw [abs_of_neg hneg] at hunit
        rw [hleast]
        linarith
      · rw [hleast]
        exact (abs_lt.1 hw).1.trans hlt
  have hcn : (c : ℚ) + 1 ≤ n := by
    exact_mod_cast Int.add_one_le_iff.2 (by exact_mod_cast lt_of_mul_lt_mul_right hcn hscale.le)
  have hgap : ((c : ℚ) + 1) * 2 ^ k ≤ n * 2 ^ k := mul_le_mul_of_nonneg_right hcn hscale.le
  rw [hvalue, abs_le] at hnear
  linarith [hnear.2]

theorem ge (h : RoundsTo format r z) (hw : Fits format w) (hr : w ≤ r) : w ≤ value z := by
  have := h.neg.le hw.neg (neg_le_neg hr)
  rwa [value_neg, neg_le_neg_iff] at this

/-- A number of the format is kept. -/
theorem eq (h : RoundsTo format w z) (hw : Fits format w) : value z = w :=
  le_antisymm (h.le hw le_rfl) (h.ge hw le_rfl)

theorem abs_value_le (h : RoundsTo format r z) (hw : Fits format w) (hr : |r| ≤ w) : |value z| ≤ w := by
  obtain ⟨hlow, hhigh⟩ := abs_le.1 hr
  exact abs_le.2 ⟨h.ge hw.neg hlow, h.le hw hhigh⟩

/-- Rounding moves a number by half of the smallest unit at most, or by a share of its size. -/
theorem error (h : RoundsTo format r z) : |value z - r| ≤ 2 ^ format.minExponent / 2 ∨
    |value z - r| ≤ |r| / 2 ^ format.mantissaBits := by
  obtain ⟨k, n, hk, hvalue, hnear, rfl | hunit⟩ := h.nearest
  · exact .inl hnear
  · refine .inr (hnear.trans ?_)
    rw [zpow_add₀ two_ne_zero, zpow_natCast] at hunit
    rw [mantissaBits_eq, pow_succ, ← div_div]
    refine div_le_div_of_nonneg_right ?_ two_pos.le
    rwa [le_div_iff₀ (by positivity), mul_comm]

/-- A number that is below all numbers with all bits moves by half of the smallest unit at most. -/
theorem error_of_lt (h : RoundsTo format r z)
    (hr : |r| < 2 ^ (format.mantissaBitsWithoutImplicit + format.minExponent)) :
    |value z - r| ≤ 2 ^ format.minExponent / 2 := by
  obtain ⟨k, n, hk, hvalue, hnear, rfl | hunit⟩ := h.nearest
  · exact hnear
  · have hlt := (zpow_lt_zpow_iff_right₀ one_lt_two).1 (hunit.trans_lt hr)
    omega

end RoundsTo

end PursuitForest.Rounding
