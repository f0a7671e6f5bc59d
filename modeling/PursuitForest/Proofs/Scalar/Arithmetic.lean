import PursuitForest.Proofs.Scalar.Rounding
/-!
Arithmetic of a binary format.

Sums, differences, products and quotients of numbers are rounded once (`roundsTo_add`, `roundsTo_sub`,
`roundsTo_mul`, `roundsTo_div`), and numbers are compared as the rational numbers that they stand for
(`compare_eq`).
-/

namespace PursuitForest.Rounding

open Float.Model (Format totalExponent UnpackedFloat)
open Float.Model.UnpackedFloat

variable {format : Format} {a b : UnpackedFloat}

/-! ### Comparison -/

/-- A magnitude with a smaller unit is smaller. -/
theorem magnitude_lt {m n : ℕ} {e k : ℤ} {hm : 0 < m} {hn : 0 < n}
    (ha : IsNumber format (.finite .positive m e hm))
    (hb : IsNumber format (.finite .positive n k hn)) (hlt : e < k) :
    (m : ℚ) * 2 ^ e < n * 2 ^ k := by
  have hlarge := hb.2.2.resolve_right (ha.2.1.trans_lt hlt).ne'
  have hsmall := abs_lt_of_exponent_lt (m := m) (e := e) (by exact_mod_cast ha.1) hlt
  calc (m : ℚ) * 2 ^ e ≤ |((m : ℤ) : ℚ) * 2 ^ e| := le_abs_self _
    _ < 2 ^ (format.mantissaBitsWithoutImplicit + k) := hsmall
    _ = 2 ^ format.mantissaBitsWithoutImplicit * 2 ^ k := by
        rw [zpow_add₀ two_ne_zero, zpow_natCast]
    _ ≤ n * 2 ^ k := by
        refine mul_le_mul_of_nonneg_right ?_ (by positivity)
        exact_mod_cast hlarge

/-- Magnitudes are compared by their units first. -/
theorem compare_magnitudes {m n : ℕ} {e k : ℤ} {hm : 0 < m} {hn : 0 < n}
    (ha : IsNumber format (.finite .positive m e hm))
    (hb : IsNumber format (.finite .positive n k hn)) :
    (compare e k).then (compare m n) = compare ((m : ℚ) * 2 ^ e) (n * 2 ^ k) := by
  rcases lt_trichotomy e k with hlt | rfl | hgt
  · rw [compare_lt_iff_lt.2 hlt, compare_lt_iff_lt.2 (magnitude_lt ha hb hlt)]
    rfl
  · have hscale : (0 : ℚ) < 2 ^ e := by positivity
    rw [compare_eq_iff_eq.2 rfl]
    show compare m n = _
    rcases lt_trichotomy m n with hlt | rfl | hgt
    · have hvalue := mul_lt_mul_of_pos_right (Nat.cast_lt (α := ℚ).2 hlt) hscale
      rw [compare_lt_iff_lt.2 hlt, compare_lt_iff_lt.2 hvalue]
    · rw [compare_eq_iff_eq.2 rfl, compare_eq_iff_eq.2 rfl]
    · have hvalue := mul_lt_mul_of_pos_right (Nat.cast_lt (α := ℚ).2 hgt) hscale
      rw [compare_gt_iff_gt.2 hgt, compare_gt_iff_gt.2 hvalue]
  · rw [compare_gt_iff_gt.2 hgt, compare_gt_iff_gt.2 (magnitude_lt hb ha hgt)]
    rfl

theorem compare_neg_neg (x y : ℚ) : compare (-x) (-y) = (compare x y).swap := by
  rcases lt_trichotomy x y with hlt | rfl | hgt
  · rw [compare_lt_iff_lt.2 hlt, compare_gt_iff_gt.2 (neg_lt_neg hlt)]
    rfl
  · rw [compare_eq_iff_eq.2 rfl, compare_eq_iff_eq.2 rfl]
    rfl
  · rw [compare_gt_iff_gt.2 hgt, compare_lt_iff_lt.2 (neg_lt_neg hgt)]
    rfl

theorem value_positive {m : ℕ} {e : ℤ} (hm : 0 < m) : 0 < value (.finite .positive m e hm) := by
  show (0 : ℚ) < m * 2 ^ e
  positivity

theorem value_negative {m : ℕ} {e : ℤ} (hm : 0 < m) : value (.finite .negative m e hm) < 0 :=
  neg_lt_zero.2 (value_positive hm)

theorem exists_positive (ha : IsNumber format a) (h : 0 < value a) :
    ∃ m e hm, a = .finite .positive m e hm := by
  match a, ha with
  | .zero _, _ => exact absurd h (lt_irrefl 0)
  | .finite .negative _ _ hm, _ => exact absurd h (value_negative hm).le.not_gt
  | .finite .positive m e hm, _ => exact ⟨m, e, hm, rfl⟩

/-- Numbers are compared as what they stand for. -/
theorem compare_eq (ha : IsNumber format a) (hb : IsNumber format b) :
    a.compare b = some (compare (value a) (value b)) := by
  match a, b, ha, hb with
  | .zero _, .zero _, _, _ => exact congrArg some (compare_eq_iff_eq.2 rfl).symm
  | .zero _, .finite .positive _ _ hm, _, _ =>
    exact congrArg some (compare_lt_iff_lt.2 (value_positive hm)).symm
  | .zero _, .finite .negative _ _ hm, _, _ =>
    exact congrArg some (compare_gt_iff_gt.2 (value_negative hm)).symm
  | .finite .positive _ _ hm, .zero _, _, _ =>
    exact congrArg some (compare_gt_iff_gt.2 (value_positive hm)).symm
  | .finite .negative _ _ hm, .zero _, _, _ =>
    exact congrArg some (compare_lt_iff_lt.2 (value_negative hm)).symm
  | .finite .positive _ _ hm, .finite .negative _ _ hn, _, _ =>
    exact congrArg some (compare_gt_iff_gt.2 ((value_negative hn).trans (value_positive hm))).symm
  | .finite .negative _ _ hm, .finite .positive _ _ hn, _, _ =>
    exact congrArg some (compare_lt_iff_lt.2 ((value_negative hm).trans (value_positive hn))).symm
  | .finite .positive _ _ _, .finite .positive _ _ _, ha, hb =>
    exact congrArg some (compare_magnitudes ha hb)
  | .finite .negative _ _ hm, .finite .negative _ _ hn, ha, hb =>
    have hswap := congrArg Ordering.swap (@compare_magnitudes format _ _ _ _ hm hn ha hb)
    rw [← compare_neg_neg] at hswap
    exact congrArg some hswap

/-- Numbers are in the order of what they stand for. -/
theorem lt_iff (ha : IsNumber format a) (hb : IsNumber format b) :
    a.lt b = true ↔ value a < value b := by
  rw [UnpackedFloat.lt, compare_eq ha hb, beq_iff_eq, Option.some.injEq, compare_lt_iff_lt]

theorem le_iff (ha : IsNumber format a) (hb : IsNumber format b) :
    a.le b = true ↔ value a ≤ value b := by
  rw [UnpackedFloat.le, compare_eq ha hb, Option.any_some, Ordering.isLE_iff_ne_gt]
  exact compare_le_iff_le

/-! ### Sums and differences -/

/-- More of smaller units. -/
theorem shiftLeft_mul_zpow (m : ℕ) {e k : ℤ} (h : k ≤ e) :
    ((m <<< (e - k).toNat : ℕ) : ℚ) * 2 ^ k = m * 2 ^ e := by
  rw [Nat.shiftLeft_eq]
  push_cast
  rw [← zpow_natCast, Int.toNat_of_nonneg (by omega), mul_assoc, ← zpow_add₀ two_ne_zero,
    sub_add_cancel]

theorem log2_shiftLeft {m : ℕ} (hm : m ≠ 0) : ∀ k : ℕ, (m <<< k).log2 = m.log2 + k
  | 0 => rfl
  | k + 1 => by
    have hk : m <<< k ≠ 0 := by
      rw [Nat.shiftLeft_eq]
      exact Nat.mul_ne_zero hm (Nat.two_pow_pos k).ne'
    rw [Nat.shiftLeft_succ, Nat.log2_two_mul hk, log2_shiftLeft hm k, Nat.add_assoc]

theorem totalExponent_shiftLeft {m : ℕ} (hm : m ≠ 0) (k : ℕ) (e : ℤ) :
    totalExponent (m <<< k) (e - k) = totalExponent m e := by
  unfold totalExponent
  rw [log2_shiftLeft hm]
  push_cast
  ring

/-- A magnitude of any number of units is rounded once. -/
theorem roundsTo_round {s : Sign} {m : ℕ} {e : ℤ} (hm : m ≠ 0) :
    RoundsTo format (signed s (m * 2 ^ e)) (round format s m e) := by
  generalize hk : format.targetExponent (totalExponent m e) = k
  have htarget : format.targetExponent (totalExponent (m <<< (e - k).toNat) (e - (e - k).toNat)) = k := by
    rw [totalExponent_shiftLeft hm, hk]
  have hround : RoundsTo format (signed s (((m <<< (e - k).toNat : ℕ) + 0) * 2 ^ (e - (e - k).toNat)))
      (roundWithAccuracy format s (m <<< (e - k).toNat) (e - (e - k).toNat) .exact) :=
    roundsTo_roundWithAccuracy rfl (by omega)
  have hvalue : ((m <<< (e - k).toNat : ℕ) : ℚ) * 2 ^ (e - (e - k).toNat) = m * 2 ^ e := by
    rcases le_or_gt k e with hke | hek
    · rw [Int.toNat_of_nonneg (by omega), sub_sub_cancel, shiftLeft_mul_zpow m hke]
    · have hzero : (e - k).toNat = 0 := by omega
      rw [hzero, Nat.shiftLeft_zero, Nat.cast_zero, sub_zero]
  rw [add_zero, hvalue] at hround
  unfold UnpackedFloat.round
  rw [hk]
  exact hround

theorem roundsTo_zero (s : Sign) : RoundsTo format 0 (.zero s) :=
  have hzero : IsNumber format (.zero s) := trivial
  hzero.roundsTo

theorem roundsTo_normalize (m e : ℤ) (s : Sign) :
    RoundsTo format (m * 2 ^ e) (normalize format m e s) := by
  unfold UnpackedFloat.normalize
  rcases lt_trichotomy m 0 with hlt | rfl | hgt
  · have hcast : ((-m).toNat : ℚ) = -m := by exact_mod_cast Int.toNat_of_nonneg (by omega)
    have hround : RoundsTo format (signed .negative ((-m).toNat * 2 ^ e))
        (UnpackedFloat.round format .negative (-m).toNat e) := roundsTo_round (by omega)
    rw [hcast, signed, neg_mul, neg_neg] at hround
    rw [compare_lt_iff_lt.2 hlt]
    exact hround
  · rw [compare_eq_iff_eq.2 rfl, Int.cast_zero, zero_mul]
    exact roundsTo_zero s
  · have hcast : (m.toNat : ℚ) = m := by exact_mod_cast Int.toNat_of_nonneg hgt.le
    have hround : RoundsTo format (signed .positive (m.toNat * 2 ^ e))
        (UnpackedFloat.round format .positive m.toNat e) := roundsTo_round (by omega)
    rw [hcast, signed] at hround
    rw [compare_gt_iff_gt.2 hgt]
    exact hround

/-- Units of a common size, with the sign. -/
theorem apply_shiftLeft (s : Sign) {m : ℕ} {e k : ℤ} (hm : 0 < m) (h : k ≤ e) :
    ((s.apply (m <<< (e - k).toNat : ℕ) : ℤ) : ℚ) * 2 ^ k = value (.finite s m e hm) := by
  have hshift := shiftLeft_mul_zpow m h
  cases s with
  | positive => exact_mod_cast hshift
  | negative =>
    show ((-((m <<< (e - k).toNat : ℕ) : ℤ) : ℤ) : ℚ) * 2 ^ k = -(m * 2 ^ e)
    rw [← hshift, Int.cast_neg, Int.cast_natCast, neg_mul]

/-- A sum is rounded once. -/
theorem roundsTo_add (ha : IsNumber format a) (hb : IsNumber format b) :
    RoundsTo format (value a + value b) (add format a b) := by
  match a, b, ha, hb with
  | .zero s, .zero t, _, _ =>
    rw [value_zero, value_zero, add_zero]
    show RoundsTo format 0 (if s == t then .zero s else .zero .positive)
    split
    · exact roundsTo_zero s
    · exact roundsTo_zero .positive
  | .zero s, .finite _ _ _ _, _, hb =>
    rw [value_zero, zero_add]
    exact hb.roundsTo
  | .finite _ _ _ _, .zero t, ha, _ =>
    rw [value_zero, add_zero]
    exact ha.roundsTo
  | .finite s m e hm, .finite t n k hn, _, _ =>
    rw [← apply_shiftLeft s hm (min_le_left e k), ← apply_shiftLeft t hn (min_le_right e k), ← add_mul,
      ← Int.cast_add]
    exact roundsTo_normalize _ _ _

theorem apply_neg (s : Sign) (m : ℤ) : (-s).apply m = -s.apply m := by
  cases s
  · exact (neg_neg m).symm
  · rfl

/-- The terms of a finite sum are finite. -/
theorem isFinite_of_add (h : (add format a b).isFinite = true) :
    a.isFinite = true ∧ b.isFinite = true := by
  match a, b with
  | .notANumber, b => cases b <;> cases h
  | .infinity s, .infinity t =>
    unfold add at h
    dsimp only at h
    split at h <;> cases h
  | .infinity _, .notANumber | .infinity _, .zero _ | .infinity _, .finite _ _ _ _ => cases h
  | .zero _, .notANumber | .zero _, .infinity _ => cases h
  | .finite _ _ _ _, .notANumber | .finite _ _ _ _, .infinity _ => cases h
  | .zero _, .zero _ | .zero _, .finite _ _ _ _ => exact ⟨rfl, rfl⟩
  | .finite _ _ _ _, .zero _ | .finite _ _ _ _, .finite _ _ _ _ => exact ⟨rfl, rfl⟩

/-- A difference is the sum with the negated number. -/
theorem sub_eq_add (a b : UnpackedFloat) : sub format a b = add format a b.neg := by
  match a, b with
  | .notANumber, b => cases b <;> rfl
  | .infinity _, b => cases b <;> rfl
  | .zero _, b => cases b <;> rfl
  | .finite _ _ _ _, .notANumber => rfl
  | .finite _ _ _ _, .infinity _ => rfl
  | .finite _ _ _ _, .zero _ => rfl
  | .finite s m e hm, .finite t n k hn =>
    simp only [sub, UnpackedFloat.neg, add, apply_neg, sub_eq_add_neg]

theorem roundsTo_sub (ha : IsNumber format a) (hb : IsNumber format b) :
    RoundsTo format (value a - value b) (sub format a b) := by
  rw [sub_eq_add, sub_eq_add_neg, ← value_neg]
  exact roundsTo_add ha hb.neg

/-! ### Products and quotients -/

/-- Units are not too large for a format if there are many, or if they are below the smallest. -/
theorem le_targetExponent {m : ℕ} {e : ℤ}
    (h : 2 ^ format.mantissaBitsWithoutImplicit ≤ m ∨ e ≤ format.minExponent) :
    e ≤ format.targetExponent (totalExponent m e) := by
  unfold Format.targetExponent totalExponent
  rcases h with hm | he
  · have hlog := (Nat.le_log2 (Nat.two_pow_pos _ |>.trans_le hm).ne').2 hm
    rw [mantissaBits_eq]
    push_cast
    omega
  · omega

theorem minExponent_nonpos (format : Format) : format.minExponent ≤ 0 := by
  have hbits := format.hm
  have hexponent : (1 : ℤ) ≤ 2 ^ (format.exponentBits - 1) := one_le_pow₀ one_le_two
  rw [Format.minExponent, mantissaBits_eq]
  push_cast
  omega

theorem signed_mul_signed (s t : Sign) (x y : ℚ) : signed s x * signed t y = signed (s * t) (x * y) := by
  match s, t with
  | .positive, .positive => rfl
  | .positive, .negative => exact mul_neg x y
  | .negative, .positive => exact neg_mul x y
  | .negative, .negative => exact neg_mul_neg x y

/-- A product is rounded once. -/
theorem roundsTo_mul (ha : IsNumber format a) (hb : IsNumber format b) :
    RoundsTo format (value a * value b) (mul format a b) := by
  match a, b, ha, hb with
  | .zero s, .zero t, _, _ => exact mul_zero (0 : ℚ) ▸ roundsTo_zero _
  | .zero s, .finite _ _ _ _, _, _ => exact (zero_mul (_ : ℚ)).symm ▸ roundsTo_zero _
  | .finite _ _ _ _, .zero t, _, _ => exact (mul_zero (_ : ℚ)).symm ▸ roundsTo_zero _
  | .finite s m e hm, .finite t n k hn, ha, hb =>
    have hunits : 2 ^ format.mantissaBitsWithoutImplicit ≤ m * n ∨ e + k ≤ format.minExponent := by
      rcases ha.2.2 with hlarge | rfl
      · exact .inl (hlarge.trans (Nat.le_mul_of_pos_right m hn))
      · rcases hb.2.2 with hlarge | rfl
        · exact .inl (hlarge.trans (Nat.le_mul_of_pos_left n hm))
        · exact .inr (add_le_of_nonpos_right (minExponent_nonpos format))
    have hround := roundsTo_roundWithAccuracy (s := s * t) (a := .exact) (t := 0) rfl
      (le_targetExponent hunits)
    have hvalue : value (.finite s m e hm) * value (.finite t n k hn) =
        signed (s * t) (((m * n : ℕ) + 0) * 2 ^ (e + k)) := by
      rw [value, value, signed_mul_signed, zpow_add₀ two_ne_zero]
      push_cast
      congr 1
      ring
    rw [hvalue]
    exact hround

/-- The rest of a division, as a share of the divisor. -/
theorem measures_accuracyOfFraction {num den : ℕ} (h : num < den) :
    Measures (accuracyOfFraction num den) (num / den) := by
  have hden : (0 : ℚ) < den := by exact_mod_cast Nat.zero_lt_of_lt h
  unfold accuracyOfFraction
  split
  · next hzero => rw [hzero, Nat.cast_zero, zero_div, Measures]
  · next hzero =>
    have hpos : (0 : ℚ) < num := by exact_mod_cast Nat.pos_of_ne_zero hzero
    rcases lt_trichotomy (2 * num) den with hlt | heq | hgt
    · have hcast : 2 * (num : ℚ) < den := by exact_mod_cast hlt
      rw [compare_lt_iff_lt.2 hlt]
      refine ⟨div_pos hpos hden, ?_⟩
      rw [div_lt_div_iff₀ hden two_pos]
      linarith
    · have hcast : 2 * (num : ℚ) = den := by exact_mod_cast heq
      rw [compare_eq_iff_eq.2 heq]
      show (num : ℚ) / den = 1 / 2
      rw [div_eq_div_iff hden.ne' two_ne_zero]
      linarith
    · have hcast : (den : ℚ) < 2 * num := by exact_mod_cast hgt
      rw [compare_gt_iff_gt.2 hgt]
      refine ⟨?_, (div_lt_one hden).2 (by exact_mod_cast h)⟩
      rw [div_lt_div_iff₀ two_pos hden]
      linarith

theorem signed_div_signed (s t : Sign) (x y : ℚ) : signed s x / signed t y = signed (s / t) (x / y) := by
  match s, t with
  | .positive, .positive => rfl
  | .positive, .negative => exact div_neg x
  | .negative, .positive => exact neg_div y x
  | .negative, .negative => exact neg_div_neg_eq x y

/-- A quotient has as many units as its rounding needs. -/
theorem units_divCore {m n : ℕ} {e k t : ℤ} (hm : 0 < m) (hn : 0 < n)
    (ht : t = min (e - k) (format.targetExponent (totalExponent m e - totalExponent n k))) :
    2 ^ format.mantissaBitsWithoutImplicit ≤ (m <<< (e - k - t).toNat) / n ∨
      t ≤ format.minExponent := by
  rw [or_iff_not_imp_right, not_le]
  intro hmin
  have hbits : format.mantissaBitsWithoutImplicit + (n.log2 + 1) ≤ m.log2 + (e - k - t).toNat := by
    unfold Format.targetExponent totalExponent at ht
    rw [mantissaBits_eq] at ht
    push_cast at ht
    omega
  rw [Nat.le_div_iff_mul_le hn, Nat.shiftLeft_eq]
  calc 2 ^ format.mantissaBitsWithoutImplicit * n
      ≤ 2 ^ format.mantissaBitsWithoutImplicit * 2 ^ (n.log2 + 1) :=
        Nat.mul_le_mul_left _ Nat.lt_log2_self.le
    _ = 2 ^ (format.mantissaBitsWithoutImplicit + (n.log2 + 1)) := (pow_add _ _ _).symm
    _ ≤ 2 ^ (m.log2 + (e - k - t).toNat) := Nat.pow_le_pow_right two_pos hbits
    _ = 2 ^ m.log2 * 2 ^ (e - k - t).toNat := pow_add _ _ _
    _ ≤ m * 2 ^ (e - k - t).toNat := Nat.mul_le_mul_right _ (Nat.log2_self_le hm.ne')

/-- A quotient by what is not zero is rounded once. -/
theorem roundsTo_div (ha : IsNumber format a) (hb : IsNumber format b) (hzero : value b ≠ 0) :
    RoundsTo format (value a / value b) (div format a b) := by
  match a, b, ha, hb with
  | _, .zero _, _, _ => exact absurd rfl hzero
  | .zero s, .finite _ _ _ _, _, _ => exact (zero_div (_ : ℚ)).symm ▸ roundsTo_zero _
  | .finite s m e hm, .finite t n k hn, ha, hb =>
    generalize hunit : min (e - k) (format.targetExponent (totalExponent m e - totalExponent n k)) = u
    have hle : u ≤ e - k := hunit ▸ min_le_left _ _
    have hround := roundsTo_roundWithAccuracy (s := s / t)
      (measures_accuracyOfFraction (Nat.mod_lt (m <<< (e - k - u).toNat) hn))
      (le_targetExponent (units_divCore hm hn hunit.symm))
    have hn' : (n : ℚ) ≠ 0 := by exact_mod_cast hn.ne'
    have hquotient : (((m <<< (e - k - u).toNat / n : ℕ) : ℚ) +
        ((m <<< (e - k - u).toNat % n : ℕ) : ℚ) / n) * 2 ^ u = m * 2 ^ e / (n * 2 ^ k) := by
      have hrest : ((m <<< (e - k - u).toNat : ℕ) : ℚ) =
          (m <<< (e - k - u).toNat / n : ℕ) * n + (m <<< (e - k - u).toNat % n : ℕ) := by
        exact_mod_cast (Nat.div_add_mod' _ _).symm
      calc _ = ((m <<< (e - k - u).toNat : ℕ) : ℚ) * 2 ^ u / n := by
            rw [hrest, add_mul, add_mul, add_div]
            field_simp
        _ = m * 2 ^ (e - k) / n := by rw [shiftLeft_mul_zpow m hle]
        _ = m * 2 ^ e / (n * 2 ^ k) := by
            rw [zpow_sub₀ two_ne_zero, mul_div_assoc', div_div, mul_comm (2 ^ k : ℚ)]
    rw [hquotient] at hround
    rw [value, value, signed_div_signed]
    subst hunit
    exact hround

end PursuitForest.Rounding
