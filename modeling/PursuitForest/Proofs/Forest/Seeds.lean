import Mathlib.Logic.Function.Basic
import PursuitForest.Forest.Seed
/-!
Seeds that never meet.

Every step of `mix` can be taken back: adding a word, multiplying by a word that has an inverse, and
adding the upper bits of a word to its lower ones without carry (`foldDown`). So `mix` permutes the
words, and the seed of an attempt permutes them with each of the three numbers that it is derived from
while the other two stay (`deriveSeed_bijective`).
-/

namespace PursuitForest

/-! ### Steps that can be taken back -/

/-- A word with its upper bits, moved down, added to it without carry. -/
def foldDown (k z : UInt64) : UInt64 := z ^^^ (z >>> k)

/-- A word with its upper bits taken off its lower ones again. -/
def unfoldDown (k z : UInt64) : UInt64 := z ^^^ (z >>> k) ^^^ (z >>> k >>> k)

/-- Moving down by a third of a word three times leaves nothing. -/
theorem shiftRight_thrice {k : UInt64} (hk : 22 ≤ k.toNat % 64) (z : UInt64) :
    z >>> k >>> k >>> k = 0 := by
  refine UInt64.toNat_inj.1 ?_
  rw [UInt64.toNat_shiftRight, UInt64.toNat_shiftRight, UInt64.toNat_shiftRight,
    ← Nat.shiftRight_add, ← Nat.shiftRight_add, Nat.shiftRight_eq_div_pow]
  refine Nat.div_eq_of_lt (Nat.lt_of_lt_of_le z.toNat_lt ?_)
  exact Nat.pow_le_pow_right (by decide) (by omega)

theorem foldDown_bijective {k : UInt64} (hk : 22 ≤ k.toNat % 64) : (foldDown k).Bijective := by
  refine Function.bijective_iff_has_inverse.2 ⟨unfoldDown k, fun z => ?_, fun z => ?_⟩
  · unfold unfoldDown foldDown
    rw [UInt64.shiftRight_xor, UInt64.shiftRight_xor, shiftRight_thrice hk, UInt64.xor_zero]
    -- the word moved down once stands there twice, and so does the word moved down twice
    rw [UInt64.xor_assoc, UInt64.xor_assoc, UInt64.xor_assoc, UInt64.xor_self, UInt64.xor_zero,
      UInt64.xor_self, UInt64.xor_zero]
  · unfold unfoldDown foldDown
    rw [UInt64.shiftRight_xor, UInt64.shiftRight_xor, shiftRight_thrice hk, UInt64.xor_zero]
    rw [UInt64.xor_assoc z, UInt64.xor_assoc z, UInt64.xor_self, UInt64.xor_zero]

theorem add_bijective (c : UInt64) : (fun z : UInt64 => z + c).Bijective :=
  Function.bijective_iff_has_inverse.2
    ⟨(· - c), fun z => UInt64.add_sub_cancel z c, fun z => UInt64.sub_add_cancel z c⟩

/-- Words with an inverse can be divided by. -/
theorem mul_bijective {c c' : UInt64} (h : c * c' = 1) : (fun z : UInt64 => z * c).Bijective := by
  have hcancel : ∀ {a b : UInt64}, a * b = 1 → ∀ z : UInt64, z * a * b = z := fun hab z => by
    rw [UInt64.mul_assoc, hab, UInt64.mul_one]
  exact Function.bijective_iff_has_inverse.2
    ⟨(· * c'), hcancel h, hcancel ((UInt64.mul_comm c' c).trans h)⟩

theorem xor_bijective (c : UInt64) : (fun z : UInt64 => c ^^^ z).Bijective := by
  refine Function.Involutive.bijective fun z => ?_
  show c ^^^ (c ^^^ z) = z
  rw [← UInt64.xor_assoc, UInt64.xor_self, UInt64.zero_xor]

/-! ### Seeds -/

theorem mix_eq (z : UInt64) : mix z = foldDown 31 (foldDown 27 (foldDown 30
    (z + 0x9e3779b97f4a7c15) * 0xbf58476d1ce5e4b9) * 0x94d049bb133111eb) := rfl

/-- Scrambling permutes the words. -/
theorem mix_bijective : mix.Bijective := by
  have hfirst : (0xbf58476d1ce5e4b9 : UInt64) * 0x7e9396917d82e189 = 1 := by decide
  have hsecond : (0x94d049bb133111eb : UInt64) * 0x319642b2d24d8ec3 = 1 := by decide
  rw [funext mix_eq]
  exact (foldDown_bijective (by decide)).comp ((mul_bijective hsecond).comp
    ((foldDown_bijective (by decide)).comp ((mul_bijective hfirst).comp
      ((foldDown_bijective (by decide)).comp (add_bijective _)))))

/-- Any two attempts at a tree have different seeds, and so have any two trees at the same attempt, and a
tree at the same attempt in forests of different seeds; every word is the seed of one of them. -/
theorem deriveSeed_bijective : mix.Bijective ∧
    (∀ seed tree, (fun attempt => deriveSeed seed tree attempt).Bijective) ∧
    (∀ seed attempt, (fun tree => deriveSeed seed tree attempt).Bijective) ∧
    ∀ tree attempt, (fun seed => deriveSeed seed tree attempt).Bijective := by
  have hxor : ∀ c : UInt64, (fun z : UInt64 => z ^^^ c).Bijective := fun c => by
    simpa only [UInt64.xor_comm c] using xor_bijective c
  refine ⟨mix_bijective, fun seed tree => ?_, fun seed attempt => ?_, fun tree attempt => ?_⟩
  · exact mix_bijective.comp (xor_bijective _)
  · exact mix_bijective.comp ((hxor attempt).comp (mix_bijective.comp
      ((xor_bijective seed).comp mix_bijective)))
  · exact mix_bijective.comp ((hxor attempt).comp (mix_bijective.comp (hxor (mix tree))))

end PursuitForest
