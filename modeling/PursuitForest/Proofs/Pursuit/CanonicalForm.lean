import Mathlib.Algebra.BigOperators.Ring.List
import PursuitForest.Proofs.Pursuit.Optimum
/-!
The canonical form of a projector.

A vector is brought to length one, its negligible coefficients are truncated to zero, and it is turned so
that the first other coefficient is positive. The sign is settled last, and what is truncated does not
depend on signs, so a vector and its multiples come to one form, also where the first coefficients of both
are negligible (`canonicalize_mul`). Of a vector of length one no more is lost than the square of the
cutoff for each coefficient (`le_sum_squares_truncate`), so something is left.
-/

namespace PursuitForest

variable {K L : Type} [OrderedScalar K]

/-! ### The three steps -/

/-- The length of a vector. -/
def euclideanNorm (v : List K) : K := Scalar.sqrt (innerProduct v v)

/-- A coefficient, or zero where it is negligible. -/
def truncate (a : K) : K := if |a| < OrderedScalar.cutoff then 0 else a

/-- The vector or its opposite, whichever has a positive coefficient first. -/
def upright (v : List K) : List K :=
  match v.find? fun a => decide (a ≠ 0) with
  | some first => if first < 0 then v.map (- ·) else v
  | none => v

theorem canonicalize_eq (v : List K) :
    canonicalize v = upright (v.map fun a => truncate (a / euclideanNorm v)) := by
  have hnonzero : (fun a : K => !(a == 0)) = fun a => decide (a ≠ 0) := by
    funext a
    exact (decide_not (p := a = 0)).symm
  unfold canonicalize
  rw [hnonzero, OrderedScalar.dot_eq_innerProduct]
  rfl

/-! ### Truncation -/

theorem truncate_neg (a : K) : truncate (-a) = -truncate a := by
  unfold truncate
  rw [abs_neg]
  split <;> simp

theorem truncate_eq_zero_or_le (a : K) : truncate a = 0 ∨ OrderedScalar.cutoff ≤ |truncate a| := by
  unfold truncate
  split
  · exact .inl rfl
  · next h => exact .inr (not_lt.1 h)

/-- Truncation adds nothing to a square, and takes off the square of the cutoff at most. -/
theorem square_truncate_bounds (a : K) : truncate a * truncate a ≤ a * a ∧
    a * a ≤ truncate a * truncate a + OrderedScalar.cutoff * OrderedScalar.cutoff := by
  unfold truncate
  split
  · next h =>
    have hle : a * a ≤ OrderedScalar.cutoff * OrderedScalar.cutoff := by
      rw [← abs_mul_abs_self a]
      exact mul_self_le_mul_self (abs_nonneg a) h.le
    simpa using ⟨mul_self_nonneg a, hle⟩
  · exact ⟨le_rfl, le_add_of_nonneg_right (mul_self_nonneg _)⟩

theorem innerProduct_self (v : List K) : innerProduct v v = (v.map fun a => a * a).sum := by
  rw [innerProduct, List.zipWith_self]

theorem sum_squares_truncate_le (v : List K) :
    innerProduct (v.map truncate) (v.map truncate) ≤ innerProduct v v := by
  induction v with
  | nil => simp
  | cons a v ih =>
    simp only [innerProduct_self, List.map_cons, List.sum_cons] at ih ⊢
    exact add_le_add (square_truncate_bounds a).1 ih

theorem le_sum_squares_truncate (v : List K) : innerProduct v v ≤
    innerProduct (v.map truncate) (v.map truncate) +
      v.length * (OrderedScalar.cutoff * OrderedScalar.cutoff) := by
  induction v with
  | nil => simp [innerProduct]
  | cons a v ih =>
    simp only [innerProduct_self, List.map_cons, List.sum_cons, List.length_cons, Nat.cast_succ] at ih ⊢
    linarith [(square_truncate_bounds a).2]

/-! ### The sign -/

/-- A vector with a coefficient that is not zero has a first one. -/
theorem exists_find?_ne_zero {v : List K} (h : ∃ a ∈ v, a ≠ 0) :
    ∃ a, v.find? (fun a => decide (a ≠ 0)) = some a ∧ a ≠ 0 := by
  obtain ⟨a, ha, hne⟩ := h
  cases hfind : v.find? fun a => decide (a ≠ 0) with
  | none => exact absurd (decide_eq_true hne) (List.find?_eq_none.1 hfind a ha)
  | some first => exact ⟨first, rfl, by simpa using List.find?_some hfind⟩

theorem find?_map_neg (v : List K) : (v.map (- ·)).find? (fun a => decide (a ≠ 0)) =
    (v.find? fun a => decide (a ≠ 0)).map (- ·) := by
  rw [List.find?_map]
  refine congrArg (Option.map _) (congrArg (v.find? ·) (funext fun a => ?_))
  simp

theorem map_neg_neg (v : List K) : (v.map (- ·)).map (- ·) = v := by
  simp

/-- A vector and its opposite are turned to the same. -/
theorem upright_neg (v : List K) : upright (v.map (- ·)) = upright v := by
  unfold upright
  rw [find?_map_neg]
  cases hfind : v.find? fun a => decide (a ≠ 0) with
  | none =>
    have hzero : ∀ a ∈ v, -a = a := fun a ha => by
      have ha0 : a = 0 := by simpa using List.find?_eq_none.1 hfind a ha
      rw [ha0, neg_zero]
    simpa using List.map_congr_left hzero
  | some first =>
    have hne : first ≠ 0 := by simpa using List.find?_some hfind
    simp only [Option.map_some]
    rcases lt_or_gt_of_ne hne with hneg | hpos
    · rw [if_neg (neg_pos.2 hneg).not_gt, if_pos hneg]
    · rw [if_pos (neg_lt_zero.2 hpos), if_neg hpos.not_gt, map_neg_neg]

theorem upright_eq_or (v : List K) : upright v = v ∨ upright v = v.map (- ·) := by
  unfold upright
  split
  · split
    · exact .inr rfl
    · exact .inl rfl
  · exact .inl rfl

theorem innerProduct_upright (v : List K) :
    innerProduct (upright v) (upright v) = innerProduct v v := by
  rcases upright_eq_or v with h | h
  · rw [h]
  · rw [h, innerProduct_self, innerProduct_self, List.map_map]
    exact congrArg List.sum (List.map_congr_left fun a _ => neg_mul_neg a a)

/-- The first coefficient that is not zero is turned to a positive one. -/
theorem find?_upright {v : List K} (h : ∃ a ∈ v, a ≠ 0) :
    ∃ a, (upright v).find? (fun a => decide (a ≠ 0)) = some a ∧ 0 < a := by
  obtain ⟨first, hfind, hne⟩ := exists_find?_ne_zero h
  rcases lt_or_gt_of_ne hne with hneg | hpos
  · have hturned : upright v = v.map (- ·) := by simp only [upright, hfind, if_pos hneg]
    exact ⟨-first, by rw [hturned, find?_map_neg, hfind]; rfl, neg_pos.2 hneg⟩
  · have hkept : upright v = v := by simp only [upright, hfind, if_neg hpos.not_gt]
    exact ⟨first, by rw [hkept, hfind], hpos⟩

/-! ### Length one -/

theorem innerProduct_self_nonneg (v : List K) : 0 ≤ innerProduct v v := by
  rw [innerProduct_self]
  exact List.sum_nonneg (by simp [mul_self_nonneg])

theorem innerProduct_self_pos : ∀ {v : List K}, (∃ a ∈ v, a ≠ 0) → 0 < innerProduct v v
  | a :: v, h => by
      have hcons : innerProduct (a :: v) (a :: v) = a * a + innerProduct v v := by
        rw [innerProduct_self, innerProduct_self, List.map_cons, List.sum_cons]
      rw [hcons]
      by_cases ha : a = 0
      · have hv : ∃ b ∈ v, b ≠ 0 := by simpa [ha] using h
        simpa [ha] using innerProduct_self_pos hv
      · exact add_pos_of_pos_of_nonneg (mul_self_pos.2 ha) (innerProduct_self_nonneg v)

theorem innerProduct_map_mul (c : K) (v : List K) :
    innerProduct (v.map (c * ·)) (v.map (c * ·)) = (c * c) * innerProduct v v := by
  rw [innerProduct_self, innerProduct_self, List.map_map, ← List.sum_map_mul_left]
  exact congrArg List.sum (List.map_congr_left fun a _ => mul_mul_mul_comm c a c a)

section
variable (hsqrt : ∀ {a : K}, 0 ≤ a → Scalar.sqrt a * Scalar.sqrt a = a)
include hsqrt

theorem euclideanNorm_mul_self (v : List K) :
    euclideanNorm v * euclideanNorm v = innerProduct v v :=
  hsqrt (innerProduct_self_nonneg v)

/-- A multiple has the same multiple of the length, up to the sign. -/
theorem euclideanNorm_map_mul (c : K) (v : List K) :
    euclideanNorm (v.map (c * ·)) = c * euclideanNorm v ∨
      euclideanNorm (v.map (c * ·)) = -(c * euclideanNorm v) := by
  refine mul_self_eq_mul_self_iff.1 ?_
  rw [euclideanNorm_mul_self hsqrt, innerProduct_map_mul, mul_mul_mul_comm,
    euclideanNorm_mul_self hsqrt]

theorem innerProduct_div_euclideanNorm {v : List K} (hv : ∃ a ∈ v, a ≠ 0) :
    innerProduct (v.map (· / euclideanNorm v)) (v.map (· / euclideanNorm v)) = 1 := by
  have hdiv : v.map (· / euclideanNorm v) = v.map ((euclideanNorm v)⁻¹ * ·) :=
    List.map_congr_left fun a _ => div_eq_inv_mul a _
  rw [hdiv, innerProduct_map_mul, ← mul_inv, euclideanNorm_mul_self hsqrt,
    inv_mul_cancel₀ (innerProduct_self_pos hv).ne']

/-- A vector and its multiples have one canonical form. -/
theorem canonicalize_mul {c : K} (hc : c ≠ 0) (v : List K) :
    canonicalize (v.map (c * ·)) = canonicalize v := by
  rw [canonicalize_eq, canonicalize_eq, List.map_map]
  rcases euclideanNorm_map_mul hsqrt c v with h | h
  · have hsame : ∀ a ∈ v, truncate (c * a / euclideanNorm (v.map (c * ·))) =
        truncate (a / euclideanNorm v) := fun a _ => by
      rw [h, mul_div_mul_left _ _ hc]
    exact congrArg upright (List.map_congr_left hsame)
  · -- the root has the sign of neither, so every coefficient changes its sign
    have hopposite : ∀ a ∈ v, truncate (c * a / euclideanNorm (v.map (c * ·))) =
        -truncate (a / euclideanNorm v) := fun a _ => by
      rw [h, div_neg, mul_div_mul_left _ _ hc, truncate_neg]
    rw [← upright_neg (v.map fun a => truncate (a / euclideanNorm v)), List.map_map]
    exact congrArg upright (List.map_congr_left hopposite)

/-- The squares of a canonical form add up to one, but for what is truncated. -/
theorem sum_squares_canonicalize {v : List K} (hv : ∃ a ∈ v, a ≠ 0) :
    1 - v.length * (OrderedScalar.cutoff * OrderedScalar.cutoff) ≤
        innerProduct (canonicalize v) (canonicalize v) ∧
      innerProduct (canonicalize v) (canonicalize v) ≤ 1 := by
  have hunit := innerProduct_div_euclideanNorm hsqrt hv
  have hmap : (v.map fun a => truncate (a / euclideanNorm v)) =
      (v.map (· / euclideanNorm v)).map truncate := by
    rw [List.map_map]
    rfl
  rw [canonicalize_eq, innerProduct_upright, hmap]
  constructor
  · have hle := le_sum_squares_truncate (v.map (· / euclideanNorm v))
    rw [hunit, List.length_map] at hle
    exact sub_le_iff_le_add.2 hle
  · exact (sum_squares_truncate_le _).trans_eq hunit

end

/-! ### The form -/

theorem eq_zero_or_le_of_mem_canonicalize {v : List K} {a : K} (ha : a ∈ canonicalize v) :
    a = 0 ∨ OrderedScalar.cutoff ≤ |a| := by
  rw [canonicalize_eq] at ha
  rcases upright_eq_or (v.map fun a => truncate (a / euclideanNorm v)) with h | h
  · rw [h] at ha
    obtain ⟨b, -, rfl⟩ := List.mem_map.1 ha
    exact truncate_eq_zero_or_le _
  · rw [h] at ha
    obtain ⟨c, hc, rfl⟩ := List.mem_map.1 ha
    obtain ⟨b, -, rfl⟩ := List.mem_map.1 hc
    simpa using truncate_eq_zero_or_le (b / euclideanNorm v)

/-- Every multiple of a vector other than zero has the same canonical form, and so would every multiple of
the direction that a search finds. The first coefficient that is not zero is positive, and no other is
negligible. While the vector is not so long that all of it could be negligible, there is such a
coefficient; the squares add up to one, but for what is truncated. -/
theorem canonicalize_spec (hsqrt : ∀ {a : K}, 0 ≤ a → Scalar.sqrt a * Scalar.sqrt a = a)
    {v : List K} (hv : ∃ a ∈ v, a ≠ 0)
    (hlength : v.length * (OrderedScalar.cutoff * OrderedScalar.cutoff : K) < 1) :
    (∀ c : K, c ≠ 0 → canonicalize (v.map (c * ·)) = canonicalize v) ∧
    (∃ zeros a rest, canonicalize v = zeros ++ a :: rest ∧ (∀ b ∈ zeros, b = 0) ∧ 0 < a) ∧
    (∀ a ∈ canonicalize v, a = 0 ∨ OrderedScalar.cutoff ≤ |a|) ∧
    1 - v.length * (OrderedScalar.cutoff * OrderedScalar.cutoff) ≤
      innerProduct (canonicalize v) (canonicalize v) ∧
    innerProduct (canonicalize v) (canonicalize v) ≤ 1 ∧
    ∀ (L : Type) [Label L] [Eigensolver K] (p : Discriminant K) (d : GroupedDataset K L),
      p.direction d = .ok v → ∀ c : K, c ≠ 0 → p.optimize d = .ok (canonicalize (v.map (c * ·))) := by
  obtain ⟨hlower, hupper⟩ := sum_squares_canonicalize hsqrt hv
  refine ⟨fun c hc => canonicalize_mul hsqrt hc v, ?_, fun a => eq_zero_or_le_of_mem_canonicalize,
    hlower, hupper, fun L _ _ p d hd c hc => ?_⟩
  · -- the squares of what is left do not add up to nothing
    have hleft : ∃ a ∈ v.map fun a => truncate (a / euclideanNorm v), a ≠ 0 := by
      by_contra hall
      push Not at hall
      have hsquares : ∀ b ∈ (v.map fun a => truncate (a / euclideanNorm v)).map fun a => a * a,
          b = 0 := by
        intro b hb
        obtain ⟨a, ha, rfl⟩ := List.mem_map.1 hb
        rw [hall a ha, mul_zero]
      have hsum : innerProduct (canonicalize v) (canonicalize v) = 0 := by
        rw [canonicalize_eq, innerProduct_upright, innerProduct_self]
        exact List.sum_eq_zero hsquares
      linarith
    obtain ⟨a, hfind, hpos⟩ := find?_upright hleft
    obtain ⟨-, zeros, rest, hsplit, hzeros⟩ := List.find?_eq_some_iff_append.1 hfind
    exact ⟨zeros, a, rest, (canonicalize_eq v).trans hsplit, fun b hb => by simpa using hzeros b hb, hpos⟩
  · rw [Discriminant.optimize_eq, hd, canonicalize_mul hsqrt hc]
    rfl

/-- The first coefficient is negligible, and the next is negative. -/
theorem canonicalize_spec_fourCoefficients :
    canonicalize [2 / 10 ^ 17, 6, 0, -(8 : ℝ)] = canonicalize [-1 / 10 ^ 17, -3, 0, 4] ∧
    ∃ zeros a rest, canonicalize [-1 / 10 ^ 17, -3, 0, (4 : ℝ)] = zeros ++ a :: rest ∧
      (∀ b ∈ zeros, b = 0) ∧ 0 < a := by
  have hsqrt : ∀ {a : ℝ}, 0 ≤ a → Scalar.sqrt a * Scalar.sqrt a = a := fun h => Real.mul_self_sqrt h
  have hcutoff : (OrderedScalar.cutoff : ℝ) = 1 / 1000000000000000 := rfl
  obtain ⟨hmul, hfirst, -⟩ := canonicalize_spec hsqrt (v := [-1 / 10 ^ 17, -3, 0, 4])
    ⟨4, by simp, by norm_num⟩ (by rw [hcutoff]; norm_num)
  refine ⟨?_, hfirst⟩
  rw [← hmul (-2) (by norm_num)]
  refine congrArg canonicalize ?_
  norm_num

end PursuitForest
