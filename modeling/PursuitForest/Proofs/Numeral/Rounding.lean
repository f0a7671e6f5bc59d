import Mathlib.Algebra.Group.Nat.Defs
import PursuitForest.Numeral.Reading
/-!
How large doubles are that numerals are read as.

A fraction that is at most a power of two is rounded to a double at most one binade above it
(`round_le`), and dividing by a power of ten makes doubles no larger. The word of a numeral is far below
the largest double, so what is read is finite (`Numeral.doubleBits?_lt`).
-/

namespace PursuitForest

namespace BinaryFormat

/-! ### Rounding -/

theorem divideNearest_le {num den bound : Nat} (h : num < den * bound) :
    divideNearest num den ≤ bound := by
  have hdown : num / den < bound := Nat.div_lt_of_lt_mul h
  unfold divideNearest
  dsimp only
  split
  · omega
  · split <;> omega

/-- A fraction that is at most a power of two has at most its magnitude. -/
theorem magnitude_le {num den k : Nat} (hnum : num ≠ 0) (h : num ≤ den * 2 ^ k) :
    magnitude num den ≤ k := by
  have hlow : 2 ^ num.log2 ≤ num := Nat.log2_self_le hnum
  have hhigh : den < 2 ^ (den.log2 + 1) := Nat.lt_log2_self
  have hpow : 2 ^ num.log2 < 2 ^ (den.log2 + 1 + k) := by
    calc 2 ^ num.log2 ≤ den * 2 ^ k := Nat.le_trans hlow h
      _ < 2 ^ (den.log2 + 1) * 2 ^ k := Nat.mul_lt_mul_of_pos_right hhigh (Nat.two_pow_pos k)
      _ = 2 ^ (den.log2 + 1 + k) := (Nat.pow_add 2 _ k).symm
  have hlog : num.log2 < den.log2 + 1 + k := (Nat.pow_lt_pow_iff_right Nat.one_lt_two).1 hpow
  unfold magnitude
  dsimp only
  split <;> omega

/-- A fraction is below the power of two after its magnitude. -/
theorem shiftLeft_lt_of_magnitude (num : Nat) {den : Nat} {e : Int} (hden : den ≠ 0)
    (he : e = magnitude num den + 1) : num <<< (-e).toNat < den <<< e.toNat := by
  unfold magnitude at he
  dsimp only at he
  split at he
  · have hnum : num < 2 ^ (num.log2 + 1) := Nat.lt_log2_self
    have hlow : 2 ^ den.log2 ≤ den := Nat.log2_self_le hden
    have hexponents : num.log2 + 1 + (-e).toNat = den.log2 + e.toNat := by omega
    rw [Nat.shiftLeft_eq, Nat.shiftLeft_eq]
    calc num * 2 ^ (-e).toNat
        < 2 ^ (num.log2 + 1) * 2 ^ (-e).toNat :=
          Nat.mul_lt_mul_of_pos_right hnum (Nat.two_pow_pos _)
      _ = 2 ^ den.log2 * 2 ^ e.toNat := by rw [← Nat.pow_add, ← Nat.pow_add, hexponents]
      _ ≤ den * 2 ^ e.toNat := Nat.mul_le_mul_right _ hlow
  · next hnot =>
    obtain rfl : e = (num.log2 : Int) - den.log2 := by omega
    exact Nat.lt_of_not_le hnot

/-- The same fraction at another scale. -/
theorem shiftLeft_lt_of_le {num den p : Nat} {e q : Int} (h : num <<< (-e).toNat < den <<< e.toNat)
    (he : e ≤ q + p) : num <<< (-q).toNat < den <<< q.toNat * 2 ^ p := by
  simp only [Nat.shiftLeft_eq] at h ⊢
  have hexponents : e.toNat + (-q).toNat ≤ q.toNat + p + (-e).toNat := by omega
  refine Nat.lt_of_mul_lt_mul_right (a := 2 ^ (-e).toNat) ?_
  calc num * 2 ^ (-q).toNat * 2 ^ (-e).toNat
      = num * 2 ^ (-e).toNat * 2 ^ (-q).toNat := Nat.mul_right_comm _ _ _
    _ < den * 2 ^ e.toNat * 2 ^ (-q).toNat := Nat.mul_lt_mul_of_pos_right h (Nat.two_pow_pos _)
    _ = den * 2 ^ (e.toNat + (-q).toNat) := by rw [Nat.mul_assoc, Nat.pow_add]
    _ ≤ den * 2 ^ (q.toNat + p + (-e).toNat) :=
        Nat.mul_le_mul_left den (Nat.pow_le_pow_right Nat.two_pos hexponents)
    _ = den * 2 ^ q.toNat * 2 ^ p * 2 ^ (-e).toNat := by
        rw [Nat.pow_add, Nat.pow_add, ← Nat.mul_assoc, ← Nat.mul_assoc]

/-- A fraction that is at most a power of two is rounded to the next power at most. -/
theorem round_le {num den k : Nat} (hden : den ≠ 0) (h : num ≤ den * 2 ^ k) :
    double.round num den ≤ (k + 1024) * 2 ^ 52 := by
  unfold round
  split
  · exact Nat.zero_le _
  · next hnum =>
    have hmin : double.minExponent = -1074 := by decide
    have hprecision : double.precision = 53 := rfl
    have hlead : double.leadingBit = 2 ^ 52 := by decide
    have hmagnitude := magnitude_le hnum h
    have hlt := shiftLeft_lt_of_magnitude num hden rfl
    dsimp only
    rw [hmin, hprecision, hlead]
    generalize hq : max (magnitude num den - (53 : Nat) + 1) (-1074 : Int) = q
    have hm : divideNearest (num <<< (-q).toNat) (den <<< q.toNat) ≤ 2 ^ 53 :=
      divideNearest_le (shiftLeft_lt_of_le hlt (by omega))
    refine Nat.le_trans (Nat.min_le_left _ _) ?_
    omega

/-! ### Magnitudes -/

theorem ratio_snd_ne_zero (f : BinaryFormat) (bits : Nat) : (f.ratio bits).2 ≠ 0 := by
  unfold ratio
  split
  · simp [Nat.shiftLeft_eq]
  · exact Nat.one_ne_zero

/-- `m * 2 ^ q` as a fraction, against a power of two. -/
theorem shiftLeft_le_of_le {m e k : Nat} {q : Int} (hm : m ≤ 2 ^ e) (hq : e + q ≤ k) :
    m <<< q.toNat ≤ 1 <<< (-q).toNat * 2 ^ k := by
  rw [Nat.shiftLeft_eq, Nat.shiftLeft_eq, Nat.one_mul]
  calc m * 2 ^ q.toNat ≤ 2 ^ e * 2 ^ q.toNat := Nat.mul_le_mul_right _ hm
    _ = 2 ^ (e + q.toNat) := (Nat.pow_add 2 e _).symm
    _ ≤ 2 ^ ((-q).toNat + k) := Nat.pow_le_pow_right Nat.two_pos (by omega)
    _ = 2 ^ (-q).toNat * 2 ^ k := Nat.pow_add 2 _ k

/-- The number that bits below those of infinity stand for. -/
theorem decode_of_lt {bits : Nat} (h : bits < 2047 * 2 ^ 52) :
    double.decode bits = if bits / 2 ^ 52 = 0 then .finite (bits.testBit 63) (bits % 2 ^ 52) (-1074)
      else .finite (bits.testBit 63) (bits % 2 ^ 52 + 2 ^ 52) ((bits / 2 ^ 52 : Nat) - 1075) := by
  have hmin : double.minExponent = -1074 := by decide
  have hlead : double.leadingBit = 2 ^ 52 := by decide
  have hlast : double.lastField = 2047 := by decide
  have hfield : bits / 2 ^ 52 % (2047 + 1) = bits / 2 ^ 52 := by omega
  have hexponent : (-1074 : Int) + (bits / 2 ^ 52 : Nat) - 1 = (bits / 2 ^ 52 : Nat) - 1075 := by omega
  unfold decode
  dsimp only
  rw [hmin, hlead, hlast, hfield, if_neg (by omega), hexponent]
  rfl

/-- Doubles whose bits are those of a power of two at most are at most that power. -/
theorem ratio_le {bits k : Nat} (h : bits ≤ (k + 1024) * 2 ^ 52) (hk : k < 1023) :
    (double.ratio bits).1 ≤ (double.ratio bits).2 * 2 ^ (k + 1) := by
  have hlt : bits < 2047 * 2 ^ 52 := by omega
  have hdecode := decode_of_lt hlt
  split at hdecode
  · have hm : bits % 2 ^ 52 ≤ 2 ^ 52 := by omega
    rw [ratio, hdecode]
    exact shiftLeft_le_of_le hm (by omega)
  · rw [ratio, hdecode]
    -- of the last binade there is the power itself only
    rcases Nat.lt_or_ge (bits / 2 ^ 52) (k + 1024) with hbelow | htop
    · have hm : bits % 2 ^ 52 + 2 ^ 52 ≤ 2 ^ 53 := by omega
      exact shiftLeft_le_of_le hm (by omega)
    · have hm : bits % 2 ^ 52 + 2 ^ 52 ≤ 2 ^ 52 := by omega
      exact shiftLeft_le_of_le hm (by omega)

/-- A quotient by a number of at least one is hardly larger than the dividend. -/
theorem quotient_le {a b k : Nat} (ha : a ≤ (k + 1024) * 2 ^ 52) (hk : k < 1023)
    (hb : (double.ratio b).2 ≤ (double.ratio b).1) : double.quotient a b ≤ (k + 1 + 1024) * 2 ^ 52 := by
  have hdivisor : (double.ratio b).1 ≠ 0 := by
    have hpos := ratio_snd_ne_zero double b
    omega
  refine round_le (Nat.mul_ne_zero (ratio_snd_ne_zero double a) hdivisor) ?_
  calc (double.ratio a).1 * (double.ratio b).2
      ≤ (double.ratio a).2 * 2 ^ (k + 1) * (double.ratio b).1 := Nat.mul_le_mul (ratio_le ha hk) hb
    _ = (double.ratio a).2 * (double.ratio b).1 * 2 ^ (k + 1) := Nat.mul_right_comm _ _ _

/-- Powers of ten are at least one. -/
theorem ratio_powerOfTen : ∀ k ≤ 308,
    (double.ratio (double.powerOfTen k)).2 ≤ (double.ratio (double.powerOfTen k)).1 := by
  decide +kernel

end BinaryFormat

namespace Numeral

open BinaryFormat

/-! ### Numerals -/

theorem fill_lt : ∀ (digits : List Nat) {word : Nat}, word < UInt64.size →
    (fill word digits).1 < UInt64.size
  | [], _, h => h
  | d :: ds, word, h => by
      rw [fill]
      split
      · next hfits => exact fill_lt ds hfits
      · exact h

theorem leadingWord_lt (n : Numeral) : n.leadingWord.digits < UInt64.size :=
  fill_lt n.fraction (fill_lt n.whole (by decide))

/-- What a numeral is read as is finite. -/
theorem doubleBits?_lt {n : Numeral} {bits : Nat} (h : n.doubleBits? = some bits) :
    bits < double.infinityBits := by
  have hinfinity : double.infinityBits = 2047 * 2 ^ 52 := by decide
  have hword : double.round n.leadingWord.digits 1 ≤ (64 + 1024) * 2 ^ 52 := by
    refine round_le Nat.one_ne_zero ?_
    rw [Nat.one_mul]
    exact Nat.le_of_lt n.leadingWord_lt
  unfold doubleBits? at h
  dsimp only at h
  split at h
  · cases h
    decide
  · split at h
    · cases h
    · split at h
      · split at h
        · next hlt =>
          cases h
          exact hlt
        · cases h
      · split at h
        · cases h
          have hquotient := quotient_le hword (by omega)
            (ratio_powerOfTen (-n.leadingWord.exponent).toNat (by omega))
          omega
        · split at h
          · cases h
            have hfirst := quotient_le hword (by omega) (ratio_powerOfTen 308 (Nat.le_refl _))
            have hquotient := quotient_le hfirst (by omega)
              (ratio_powerOfTen (-308 - n.leadingWord.exponent).toNat (by omega))
            omega
          · cases h
            decide

end Numeral

end PursuitForest
