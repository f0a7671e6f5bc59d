import PursuitForest.Proofs.Scalar.Arithmetic
/-!
Numbers in the bits of a format.

Unpacked bits are a number of the format that is not too large for it, an infinity, or no number
(`isNumber_unpack`, `isBounded_unpack`). A number comes back from being packed unless it is too large
(`unpack_pack`); then it comes back as an infinity (`unpack_pack_of_large`). No number whose magnitude
is at most that of another is too large if the other is not (`IsBounded.of_abs_le`).
-/

namespace PursuitForest.Rounding

open Float.Model (Format UnpackedFloat)
open Float.Model.UnpackedFloat

/-- The exponent of the largest numbers. -/
def maxExponent (format : Format) : ℤ := format.exponentBias - format.mantissaBitsWithoutImplicit

/-- A number is not too large for a format. -/
def IsBounded (format : Format) : UnpackedFloat → Prop
  | .finite _ _ e _ => e ≤ maxExponent format
  | _ => True

variable {format : Format} {a b : UnpackedFloat}

/-! ### The exponent field -/

theorem two_pow_exponentBits (format : Format) :
    2 ^ format.exponentBits = 2 * format.exponentBias + 2 := by
  have hpow : 2 ^ format.exponentBits = 2 * 2 ^ (format.exponentBits - 1) :=
    (mul_pow_sub_one format.he.ne' 2).symm
  have hpos := Nat.two_pow_pos (format.exponentBits - 1)
  unfold Format.exponentBias
  omega

theorem minExponent_eq (format : Format) :
    format.minExponent = 1 - format.exponentBias - format.mantissaBitsWithoutImplicit := by
  have hpos := Nat.one_le_two_pow (n := format.exponentBits - 1)
  rw [Format.minExponent, Format.exponentBias, mantissaBits_eq, Nat.cast_sub hpos]
  push_cast
  ring

/-- A full exponent field. -/
theorem eq_full_iff (field : BitVec format.exponentBits) :
    field = -BitVec.ofNat format.exponentBits 1 ↔ field.toNat = 2 * format.exponentBias + 1 := by
  rw [BitVec.toNat_eq, BitVec.neg_one_eq_allOnes, BitVec.toNat_allOnes, two_pow_exponentBits]
  omega

theorem eq_empty_iff {w : ℕ} (field : BitVec w) : field = BitVec.ofNat w 0 ↔ field.toNat = 0 := by
  rw [BitVec.toNat_eq, BitVec.toNat_ofNat, Nat.zero_mod]

/-- The implicit bit is in front of the others. -/
theorem toNat_implicit {w : ℕ} (m : BitVec w) : (1#1 ++ m).toNat = 2 ^ w + m.toNat := by
  rw [BitVec.toNat_append, ← Nat.shiftLeft_add_eq_or_of_lt m.isLt, Nat.shiftLeft_eq]
  simp

/-! ### Unpacked bits -/

theorem isNumber_unpack {bits : BitVec format.numBits} (h : (unpack format bits).isFinite = true) :
    IsNumber format (unpack format bits) := by
  have hfraction := (unpackMantissa bits).isLt
  unfold unpack at h ⊢
  dsimp only at h ⊢
  split at h
  · split at h <;> cases h
  · next hfull =>
    rw [if_neg hfull]
    split
    · next hempty =>
      split
      · trivial
      · have hfield := (eq_empty_iff _).1 hempty
        rw [IsNumber, mantissaBits_eq, pow_succ, minExponent_eq, hfield]
        refine ⟨by omega, ?_, .inr ?_⟩ <;> push_cast <;> omega
    · next hempty =>
      have hfield := (eq_empty_iff _).not.1 hempty
      rw [IsNumber, mantissaBits_eq, pow_succ, minExponent_eq, toNat_implicit]
      exact ⟨by omega, by omega, .inl (Nat.le_add_right _ _)⟩

theorem isBounded_unpack (hbias : 0 < format.exponentBias) (bits : BitVec format.numBits) :
    IsBounded format (unpack format bits) := by
  have hlt := (unpackExponent bits).isLt
  rw [two_pow_exponentBits] at hlt
  unfold unpack
  dsimp only
  split
  · split <;> trivial
  · next hfull =>
    have hfield := (eq_full_iff _).not.1 hfull
    split
    · split
      · trivial
      · next hempty _ =>
        have hfield := (eq_empty_iff _).1 hempty
        rw [IsBounded, maxExponent, hfield]
        push_cast
        omega
    · rw [IsBounded, maxExponent]
      omega

/-- A number is not too large if its magnitude is at most that of one that is not. -/
theorem IsBounded.of_abs_le (hbounded : IsBounded format b) (hb : IsNumber format b)
    (ha : IsNumber format a) (h : |value a| ≤ |value b|) : IsBounded format a := by
  match a, ha with
  | .zero _, _ => trivial
  | .finite s m e hm, ha =>
    rw [← value_abs, ← value_abs] at h
    match b, hb with
    | .zero _, _ => exact absurd (value_positive hm) h.not_gt
    | .finite t n k hn, hb =>
      refine le_trans (not_lt.1 fun hlt => h.not_gt ?_) hbounded
      exact @magnitude_lt format _ _ _ _ hn hm hb ha hlt

/-! ### Packed numbers -/

/-- The number with the given fields. -/
theorem unpack_packComponents (s : Sign) (field : BitVec format.exponentBits)
    (fraction : BitVec format.mantissaBitsWithoutImplicit) :
    unpack format (packComponents format s field fraction) =
      if field = -BitVec.ofNat format.exponentBits 1 then
        if fraction = BitVec.ofNat format.mantissaBitsWithoutImplicit 0 then .infinity s else .notANumber
      else if field = BitVec.ofNat format.exponentBits 0 then
        taken s fraction.toNat
          (field.toNat - (format.exponentBias + format.mantissaBitsWithoutImplicit) + 1)
      else
        taken s (1#1 ++ fraction).toNat
          (field.toNat - (format.exponentBias + format.mantissaBitsWithoutImplicit)) := by
  have himplicit : (1#1 ++ fraction).toNat ≠ 0 := by
    rw [toNat_implicit]
    have := Nat.two_pow_pos format.mantissaBitsWithoutImplicit
    omega
  simp only [unpack, unpackExponent_packComponents, unpackMantissa_packComponents,
    unpackSign_packComponents, Sign.ofBitVec_toBitVec, taken, himplicit, eq_empty_iff fraction]
  rfl

theorem unpack_packedInfinity (s : Sign) : unpack format (packedInfinity format s) = .infinity s := by
  rw [packedInfinity, unpack_packComponents, if_pos rfl]
  exact if_pos rfl

/-- Numbers that are too large come back as infinities. -/
theorem unpack_pack_of_large (ha : IsNumber format a) (hlarge : ¬ IsBounded format a) :
    ∃ s, unpack format (pack format a) = .infinity s := by
  match a, ha with
  | .zero _, _ => exact absurd trivial hlarge
  | .finite s m e hm, _ =>
    have hfield : 2 ^ format.exponentBits ≤
        (e + format.exponentBias + format.mantissaBitsWithoutImplicit).toNat + 1 := by
      rw [IsBounded, maxExponent] at hlarge
      rw [two_pow_exponentBits]
      omega
    refine ⟨s, ?_⟩
    unfold pack
    dsimp only
    rw [if_pos hfield, unpack_packedInfinity]

/-- Numbers that are not too large are kept. -/
theorem unpack_pack (ha : IsNumber format a)
    (hbounded : IsBounded format a) : unpack format (pack format a) = a := by
  match a, ha with
  | .zero s, _ => exact unpack_packedZero
  | .finite s m e hm, ⟨hlt, hmin, hunit⟩ =>
    generalize hfield : (e + format.exponentBias + format.mantissaBitsWithoutImplicit).toNat = field
    rw [IsBounded, maxExponent] at hbounded
    rw [minExponent_eq] at hmin hunit
    have hpow := two_pow_exponentBits format
    have hexponent : (field : ℤ) = e + format.exponentBias + format.mantissaBitsWithoutImplicit := by
      omega
    have hroom : ¬ 2 ^ format.exponentBits ≤ field + 1 := by omega
    unfold pack
    dsimp only
    rw [hfield, if_neg hroom]
    split
    · next hlog =>
      have hlarge : 2 ^ format.mantissaBitsWithoutImplicit ≤ m := by
        rw [mantissaBits_eq, Nat.succ_inj] at hlog
        exact hlog ▸ Nat.log2_self_le hm.ne'
      have htoNat : (BitVec.ofNat format.exponentBits field).toNat = field :=
        Nat.mod_eq_of_lt (by omega)
      have hfraction : (1#1 ++ BitVec.ofNat format.mantissaBitsWithoutImplicit m).toNat = m := by
        rw [mantissaBits_eq, pow_succ] at hlt
        rw [toNat_implicit, BitVec.toNat_ofNat, Nat.mod_eq_sub_mod hlarge, Nat.mod_eq_of_lt (by omega)]
        omega
      have hunbiased : (field : ℤ) - (format.exponentBias + format.mantissaBitsWithoutImplicit) = e := by
        omega
      rw [unpack_packComponents, if_neg ((eq_full_iff _).not.2 (by omega)),
        if_neg ((eq_empty_iff _).not.2 (by omega)), htoNat, hfraction, hunbiased, taken_of_pos]
    · next hlog =>
      have hsmall : m < 2 ^ format.mantissaBitsWithoutImplicit := by
        by_contra hlarge
        refine hlog (Nat.le_antisymm ?_ ?_)
        · exact (Nat.log2_lt hm.ne').2 hlt
        · rw [mantissaBits_eq, Nat.succ_le_succ_iff]
          exact (Nat.le_log2 hm.ne').2 (not_lt.1 hlarge)
      have hsmallest := hunit.resolve_left (Nat.not_le.2 hsmall)
      have hfraction : (BitVec.ofNat format.mantissaBitsWithoutImplicit m).toNat = m :=
        Nat.mod_eq_of_lt hsmall
      have hempty : (BitVec.ofNat format.exponentBits 0).toNat = 0 := (eq_empty_iff _).1 rfl
      have hunbiased : ((0 : ℕ) : ℤ) - (format.exponentBias + format.mantissaBitsWithoutImplicit) + 1 =
          e := by
        push_cast
        omega
      rw [unpack_packComponents, if_neg ((eq_full_iff _).not.2 (by omega)), if_pos rfl, hempty,
        hfraction, hunbiased, taken_of_pos]

/-! ### Results of operations -/

/-- What is left of a result when it has been packed. -/
def repacked (format : Format) (z : UnpackedFloat) : UnpackedFloat := unpack format (pack format z)

/-- A finite result is kept. -/
theorem repacked_of_finite (ha : IsNumber format a) (h : (repacked format a).isFinite = true) :
    repacked format a = a := by
  by_cases hbounded : IsBounded format a
  · exact unpack_pack ha hbounded
  · obtain ⟨s, hs⟩ := unpack_pack_of_large ha hbounded
    rw [repacked, hs] at h
    cases h

theorem repacked_infinity (s : Sign) : repacked format (.infinity s) = .infinity s :=
  unpack_packedInfinity s

theorem repacked_notANumber : repacked format .notANumber = .notANumber :=
  unpack_packedNaN

theorem isFinite_of_repacked (h : (repacked format a).isFinite = true) : a.isFinite = true := by
  match a with
  | .notANumber => rwa [repacked_notANumber] at h
  | .infinity s => rwa [repacked_infinity] at h
  | .zero _ | .finite _ _ _ _ => rfl

end PursuitForest.Rounding
