import PursuitForest.Proofs.Linear.RealSpectra
import PursuitForest.Proofs.Pursuit.CanonicalForm
import PursuitForest.Tree.Similar
/-!
Directions of real projectors.

The test for collinear projectors divides their inner product by the root of a product and guards the case
where this is zero. Over the reals it says that the projectors are equally long lists and both zero, or that
neither is zero and the cosine between them is one up to the tolerance (`collinear_iff`). A factor changes
the cosine by its sign only (`cosine_map_mul`), so the direction is that of every positive multiple and of
no negative one.
-/

namespace PursuitForest

/-- The cosine between two vectors. -/
noncomputable def cosine (p q : List ℝ) : ℝ := innerProduct p q / (euclideanNorm p * euclideanNorm q)

/-- Equally many coefficients, and either both zero, or neither zero and the cosine one up to a
tolerance. -/
def SameDirection (tolerance : ℝ) (p q : List ℝ) : Prop :=
  p.length = q.length ∧ ((∀ a ∈ p, a = 0) ∧ (∀ a ∈ q, a = 0) ∨
    (∃ a ∈ p, a ≠ 0) ∧ (∃ a ∈ q, a ≠ 0) ∧ 1 - tolerance ≤ cosine p q)

/-! ### Lengths and cosines -/

section
variable {p : List ℝ} {c : ℝ}

theorem innerProduct_comm (p q : List ℝ) : innerProduct p q = innerProduct q p :=
  congrArg List.sum (List.zipWith_comm_of_comm fun a b => mul_comm a b)

theorem innerProduct_map_mul_left (c : ℝ) (p q : List ℝ) :
    innerProduct (p.map (c * ·)) q = c * innerProduct p q :=
  calc innerProduct (p.map (c * ·)) q
    _ = (List.zipWith (fun a b => c * (a * b)) p q).sum := by
        simp only [innerProduct, List.zipWith_map_left, mul_assoc]
    _ = ((List.zipWith (· * ·) p q).map (c * ·)).sum := by rw [List.map_zipWith]
    _ = c * innerProduct p q := by rw [List.sum_map_mul_left, List.map_id']; rfl

theorem innerProduct_self_eq_zero_iff : innerProduct p p = 0 ↔ ∀ a ∈ p, a = 0 := by
  refine ⟨fun h => ?_, fun h => ?_⟩
  · by_contra hne
    push Not at hne
    exact (innerProduct_self_pos hne).ne' h
  · rw [innerProduct_self]
    refine List.sum_eq_zero fun x hx => ?_
    obtain ⟨a, ha, rfl⟩ := List.mem_map.1 hx
    rw [h a ha, mul_zero]

theorem euclideanNorm_eq (p : List ℝ) : euclideanNorm p = √(innerProduct p p) := rfl

theorem euclideanNorm_eq_zero_iff : euclideanNorm p = 0 ↔ innerProduct p p = 0 :=
  Real.sqrt_eq_zero (innerProduct_self_nonneg p)

theorem euclideanNorm_ne_zero_iff : euclideanNorm p ≠ 0 ↔ ∃ a ∈ p, a ≠ 0 := by
  rw [Ne, euclideanNorm_eq_zero_iff, innerProduct_self_eq_zero_iff]
  push Not
  rfl

theorem euclideanNorm_map_mul_eq (c : ℝ) (p : List ℝ) :
    euclideanNorm (p.map (c * ·)) = |c| * euclideanNorm p := by
  rw [euclideanNorm_eq, innerProduct_map_mul, Real.sqrt_mul (mul_self_nonneg c),
    Real.sqrt_mul_self_eq_abs]
  rfl

theorem cosine_comm (p q : List ℝ) : cosine p q = cosine q p := by
  rw [cosine, cosine, innerProduct_comm, mul_comm (euclideanNorm p)]

theorem cosine_self (h : ∃ a ∈ p, a ≠ 0) : cosine p p = 1 := by
  rw [cosine, euclideanNorm_mul_self (fun h => Real.mul_self_sqrt h)]
  exact div_self (innerProduct_self_pos h).ne'

theorem cosine_map_mul (c : ℝ) (p q : List ℝ) :
    cosine (p.map (c * ·)) q = c / |c| * cosine p q := by
  rw [cosine, innerProduct_map_mul_left, euclideanNorm_map_mul_eq, mul_assoc, mul_div_mul_comm, cosine]

theorem forall_mem_map_mul_iff (hc : c ≠ 0) : (∀ a ∈ p.map (c * ·), a = 0) ↔ ∀ a ∈ p, a = 0 := by
  simp [hc]

theorem exists_mem_map_mul_iff (hc : c ≠ 0) : (∃ a ∈ p.map (c * ·), a ≠ 0) ↔ ∃ a ∈ p, a ≠ 0 := by
  simp [hc]

end

/-! ### The tests -/

section
variable {p q : List ℝ}

/-- What the test reads off, with the root taken of the factors. -/
theorem collinear_iff_if : collinear p q = true ↔ p.length = q.length ∧
    if euclideanNorm p * euclideanNorm q = 0 then innerProduct p p = innerProduct q q
    else 1 - 1 / 100000 ≤ cosine p q := by
  have hnorms : Scalar.sqrt (innerProduct p p * innerProduct q q) = euclideanNorm p * euclideanNorm q :=
    Real.sqrt_mul (innerProduct_self_nonneg p) _
  simp only [collinear, OrderedScalar.dot_eq_innerProduct, hnorms]
  by_cases hlength : p.length = q.length
  · rw [if_neg (not_not_intro hlength), and_iff_right hlength]
    by_cases hzero : euclideanNorm p * euclideanNorm q = 0
    · have hguard : (euclideanNorm p * euclideanNorm q == 0) = true := decide_eq_true hzero
      rw [if_pos hguard, if_pos hzero]
      exact decide_eq_true_iff
    · have hguard : ¬ (euclideanNorm p * euclideanNorm q == 0) = true := fun h =>
        hzero (of_decide_eq_true h)
      rw [if_neg hguard, if_neg hzero]
      exact decide_eq_true_iff
  · rw [if_pos hlength]
    exact iff_of_false Bool.false_ne_true fun h => hlength h.1

/-- The norms are guarded against exactly the zero vectors, and the guard leaves two of them collinear. -/
theorem collinear_iff : collinear p q = true ↔ SameDirection (1 / 100000) p q := by
  rw [collinear_iff_if, SameDirection]
  refine and_congr_right fun _ => ?_
  split_ifs with hnorms
  · have hnot : ¬ ((∃ a ∈ p, a ≠ 0) ∧ (∃ a ∈ q, a ≠ 0) ∧ 1 - 1 / 100000 ≤ cosine p q) := by
      rintro ⟨hp, hq, -⟩
      exact mul_ne_zero (euclideanNorm_ne_zero_iff.2 hp) (euclideanNorm_ne_zero_iff.2 hq) hnorms
    rw [or_iff_left hnot, ← innerProduct_self_eq_zero_iff, ← innerProduct_self_eq_zero_iff]
    rcases mul_eq_zero.1 hnorms with hp | hq
    · simp [euclideanNorm_eq_zero_iff.1 hp, eq_comm]
    · simp [euclideanNorm_eq_zero_iff.1 hq]
  · obtain ⟨hp, hq⟩ := mul_ne_zero_iff.1 hnorms
    rw [euclideanNorm_ne_zero_iff] at hp hq
    have hnot : ¬ ((∀ a ∈ p, a = 0) ∧ ∀ a ∈ q, a = 0) := fun hzero => by
      obtain ⟨a, ha, hne⟩ := hp
      exact hne (hzero.1 a ha)
    rw [or_iff_right hnot, and_iff_right hp, and_iff_right hq]

theorem closeThresholds_iff {s t : ℝ} : closeThresholds s t = true ↔ |s - t| ≤ 1 / 100000 := by
  rw [closeThresholds, Bool.not_eq_true', decide_eq_false_iff_not]
  exact not_lt

end

namespace SameDirection

variable {tolerance : ℝ} {p q : List ℝ} {c : ℝ}

theorem refl (htolerance : 0 ≤ tolerance) (p : List ℝ) : SameDirection tolerance p p := by
  refine ⟨rfl, ?_⟩
  by_cases h : ∃ a ∈ p, a ≠ 0
  · exact .inr ⟨h, h, by rw [cosine_self h]; exact sub_le_self 1 htolerance⟩
  · push Not at h
    exact .inl ⟨h, h⟩

theorem symm (h : SameDirection tolerance p q) : SameDirection tolerance q p := by
  obtain ⟨hlength, ⟨hp, hq⟩ | ⟨hp, hq, hcosine⟩⟩ := h
  · exact ⟨hlength.symm, .inl ⟨hq, hp⟩⟩
  · exact ⟨hlength.symm, .inr ⟨hq, hp, cosine_comm p q ▸ hcosine⟩⟩

/-- Vectors of one direction that are not zero have a cosine of about one. -/
theorem le_cosine (h : SameDirection tolerance p q) (hp : ∃ a ∈ p, a ≠ 0) : 1 - tolerance ≤ cosine p q := by
  obtain ⟨-, ⟨hzero, -⟩ | ⟨-, -, hcosine⟩⟩ := h
  · obtain ⟨a, ha, hne⟩ := hp
    exact absurd (hzero a ha) hne
  · exact hcosine

/-- A positive factor keeps the direction. -/
theorem map_mul_iff (hc : 0 < c) :
    SameDirection tolerance (p.map (c * ·)) q ↔ SameDirection tolerance p q := by
  rw [SameDirection, List.length_map, forall_mem_map_mul_iff hc.ne', exists_mem_map_mul_iff hc.ne',
    cosine_map_mul, abs_of_pos hc, div_self hc.ne', one_mul]
  rfl

/-- A negative factor turns the direction around. -/
theorem not_map_mul (htolerance : tolerance < 1) (h : SameDirection tolerance p q)
    (hp : ∃ a ∈ p, a ≠ 0) (hc : c < 0) : ¬ SameDirection tolerance (p.map (c * ·)) q := by
  intro hmap
  have hcosine := h.le_cosine hp
  have hturned := hmap.le_cosine ((exists_mem_map_mul_iff hc.ne).2 hp)
  rw [cosine_map_mul, abs_of_neg hc, div_neg_self hc.ne] at hturned
  linarith

end SameDirection

end PursuitForest
