import Mathlib
import PursuitForest.Proofs.Archive.Nodes
import PursuitForest.Proofs.Numeral.Rounding
/-!
Doubles and singles that are written and read.

Scalars that are not finite are written as null (`toJson_double`, `toJson_single`). A numeral that is read
as a double is read as a finite one (`isFinite_of_ofNumeral`). A numeral that is read as a single need not
be: it is narrowed, and what is too large for a single comes out infinite.
-/

namespace PursuitForest

open Float.Model (Format)
open Float.Model.UnpackedFloat (unpack unpackExponent unpackExponent_def isNaNBits pack_unpack)

/-! ### Bits of finite numbers -/

section
variable {format : Format} (bits : BitVec format.numBits)

/-- The exponent field of bits has all its bits set. -/
theorem unpackExponent_eq_iff : unpackExponent bits = -BitVec.ofNat format.exponentBits 1 ↔
    bits.toNat / 2 ^ format.mantissaBitsWithoutImplicit % 2 ^ format.exponentBits =
      2 ^ format.exponentBits - 1 := by
  rw [unpackExponent_def, BitVec.toNat_eq, BitVec.extractLsb'_toNat, Nat.shiftRight_eq_div_pow,
    BitVec.neg_one_eq_allOnes, BitVec.toNat_allOnes]

/-- Bits are those of a finite number unless the exponent field is full. -/
theorem isFinite_unpack_iff :
    (unpack format bits).isFinite = true ↔ unpackExponent bits ≠ -BitVec.ofNat format.exponentBits 1 := by
  unfold unpack
  dsimp only
  split
  · next hfull =>
    split <;> simp [Float.Model.UnpackedFloat.isFinite, hfull]
  · next hfull =>
    split
    · split <;> simp [Float.Model.UnpackedFloat.isFinite, hfull]
    · simp [Float.Model.UnpackedFloat.isFinite, hfull]

end

theorem isFinite_double_iff (x : Float) :
    x.isFinite = true ↔ x.toBits.toNat / 2 ^ 52 % 2 ^ 11 ≠ 2047 :=
  (isFinite_unpack_iff _).trans (@unpackExponent_eq_iff .binary64 _).not

theorem isFinite_single_iff (x : Float32) :
    x.isFinite = true ↔ x.toBits.toNat / 2 ^ 23 % 2 ^ 8 ≠ 255 :=
  (isFinite_unpack_iff _).trans (@unpackExponent_eq_iff .binary32 _).not

/-- A double keeps its bits unless these are no number. -/
theorem toBits_ofBits {bits : UInt64} (h : bits.toNat / 2 ^ 52 % 2 ^ 11 ≠ 2047) :
    (Float.ofBits bits).toBits = bits := by
  have hfull : @unpackExponent .binary64 bits.toBitVec ≠ -BitVec.ofNat 11 1 :=
    (@unpackExponent_eq_iff .binary64 _).not.2 h
  have hnumber : @isNaNBits .binary64 bits.toBitVec = false := by
    unfold isNaNBits
    exact decide_eq_false fun hnan => hfull hnan.1
  have hpack := @pack_unpack .binary64 bits.toBitVec (by decide)
  rw [hnumber] at hpack
  exact UInt64.toBitVec_inj.1 hpack

/-! ### Written scalars -/

/-- Bits with a full exponent field are written as null. -/
theorem DecimalLayout.toJson_of_full (l : DecimalLayout) {f : BinaryFormat} {bits : Nat}
    (h : bits / f.leadingBit % (f.lastField + 1) = f.lastField) : l.toJson f bits = .null := by
  unfold DecimalLayout.toJson BinaryFormat.decode
  dsimp only
  rw [if_pos h]
  split_ifs <;> rfl

theorem toJson_double {x : Float} (h : ¬ x.isFinite = true) : ScalarCodec.toJson x = .null := by
  rw [isFinite_double_iff, not_not] at h
  exact doubleLayout.toJson_of_full (f := .double) h

theorem toJson_single {x : Float32} (h : ¬ x.isFinite = true) : ScalarCodec.toJson x = .null := by
  rw [isFinite_single_iff, not_not] at h
  exact singleLayout.toJson_of_full (f := .single) h

/-! ### Read scalars -/

/-- The bits of a double with a sign in front. -/
theorem signed_field (negative : Bool) {bits : Nat} (h : bits < 2047 * 2 ^ 52) :
    BinaryFormat.double.signed negative bits < 2 ^ 64 ∧
      BinaryFormat.double.signed negative bits / 2 ^ 52 % 2 ^ 11 ≠ 2047 := by
  have hsign : 1 <<< (BinaryFormat.double.precision - 1 + BinaryFormat.double.exponentBits) = 2 ^ 63 := by
    decide
  unfold BinaryFormat.signed
  rw [hsign]
  split <;> omega

/-- A numeral that is read as a double is read as a finite one. -/
theorem isFinite_of_ofNumeral {n : Numeral} {x : Float} (h : ScalarCodec.ofNumeral n = some x) :
    x.isFinite = true := by
  obtain ⟨bits, hbits, rfl⟩ := Option.map_eq_some_iff.1 h
  have hlt := Numeral.doubleBits?_lt hbits
  obtain ⟨hword, hfield⟩ := signed_field n.negative hlt
  have htoNat : (UInt64.ofNat (BinaryFormat.double.signed n.negative bits)).toNat =
      BinaryFormat.double.signed n.negative bits := UInt64.toNat_ofNat_of_lt' hword
  rw [isFinite_double_iff, toBits_ofBits (by rwa [htoNat]), htoNat]
  exact hfield

end PursuitForest
