import Mathlib.LinearAlgebra.Matrix.NonsingularInverse
import PursuitForest.Pursuit.Discriminant
import PursuitForest.Proofs.Linear.Matrices
/-!
The generalized eigenvalue problem in exact arithmetic.

Orthonormal eigenvectors turn a quadratic form into a weighted sum of squares, so no value of the form
exceeds its largest eigenvalue on vectors of length one (`Diagonalizes.dotProduct_mulVec_le`). With `r` the
inverse square root of `a`, every vector is `r p` for some `p`; the form of `a` is the squared length
of `p` there, and that of `b` is the form of `r b r` at `p`. So the leading eigenvector `u` of `r b r`
gives the vector `r u` with the largest ratio of the two forms (`solveGeneralized_spec`).
-/

open scoped Matrix

namespace PursuitForest

variable {K L : Type} [OrderedScalar K] {n : Nat}

/-! ### Eigenpairs -/

/-- The eigenvalues of a matrix, with eigenvectors that are orthonormal. -/
structure Eigenpairs.Diagonalizes (e : Eigenpairs K n) (a : Square K n) : Prop where
  orthonormal : ∀ i j,
    (e.vectors.column i).get ⬝ᵥ (e.vectors.column j).get = if i = j then 1 else 0
  eigen : ∀ i, (a.apply (e.vectors.column i)).get = e.values.get i • (e.vectors.column i).get

/-- Roots are exact, and the solver finds the eigenpairs of every symmetric matrix. -/
structure ExactSpectra (K : Type) [OrderedScalar K] [Eigensolver K] : Prop where
  sqrt_mul_sqrt : ∀ {a : K}, 0 ≤ a → Scalar.sqrt a * Scalar.sqrt a = a
  diagonalizes : ∀ {n : Nat} {a : Square K n}, a.transpose = a →
    (Eigensolver.eigenpairs a).Diagonalizes a

namespace Eigenpairs.Diagonalizes

variable {e : Eigenpairs K n} {a : Square K n}

theorem transpose_mul (h : e.Diagonalizes a) : e.vectors.matrixᵀ * e.vectors.matrix = 1 := by
  ext i j
  have hij := h.orthonormal i j
  rw [Square.get_column, Square.get_column] at hij
  rw [Matrix.one_apply, ← hij]
  rfl

theorem mul_transpose (h : e.Diagonalizes a) : e.vectors.matrix * e.vectors.matrixᵀ = 1 :=
  mul_eq_one_comm.1 h.transpose_mul

/-- The matrix in terms of its eigenpairs. -/
theorem matrix_eq (h : e.Diagonalizes a) : a.matrix =
    e.vectors.matrix * Matrix.diagonal e.values.get * e.vectors.matrixᵀ := by
  have hmul : a.matrix * e.vectors.matrix = e.vectors.matrix * Matrix.diagonal e.values.get := by
    ext i j
    have hij := congrFun (h.eigen j) i
    rw [Square.get_apply, Square.get_column] at hij
    rw [Matrix.mul_diagonal, mul_comm]
    exact hij
  rw [← hmul, Matrix.mul_assoc, h.mul_transpose, Matrix.mul_one]

theorem norm_column (h : e.Diagonalizes a) (i : Fin n) :
    (e.vectors.column i).get ⬝ᵥ (e.vectors.column i).get = 1 := by
  rw [h.orthonormal, if_pos rfl]

theorem quadratic_column (h : e.Diagonalizes a) (i : Fin n) :
    a.quadratic (e.vectors.column i) = e.values.get i := by
  rw [Square.quadratic_eq, ← Square.get_apply, h.eigen, dotProduct_smul, h.norm_column, smul_eq_mul,
    mul_one]

/-- Eigenvectors turn a quadratic form into a weighted sum of squares. -/
theorem dotProduct_mulVec (h : e.Diagonalizes a) (p : Fin n → K) : p ⬝ᵥ a.matrix *ᵥ p =
    ∑ i, e.values.get i * ((e.vectors.matrixᵀ *ᵥ p) i * (e.vectors.matrixᵀ *ᵥ p) i) := by
  rw [h.matrix_eq, ← Matrix.mulVec_mulVec, ← Matrix.mulVec_mulVec, Matrix.dotProduct_mulVec,
    ← Matrix.mulVec_transpose]
  refine Finset.sum_congr rfl fun i _ => ?_
  rw [Matrix.mulVec_diagonal]
  ring

theorem dotProduct_self (h : e.Diagonalizes a) (p : Fin n → K) : p ⬝ᵥ p =
    ∑ i, (e.vectors.matrixᵀ *ᵥ p) i * (e.vectors.matrixᵀ *ᵥ p) i := by
  have hp : p = e.vectors.matrix *ᵥ e.vectors.matrixᵀ *ᵥ p := by
    rw [Matrix.mulVec_mulVec, h.mul_transpose, Matrix.one_mulVec]
  calc p ⬝ᵥ p = p ⬝ᵥ e.vectors.matrix *ᵥ e.vectors.matrixᵀ *ᵥ p := by rw [← hp]
    _ = (e.vectors.matrixᵀ *ᵥ p) ⬝ᵥ e.vectors.matrixᵀ *ᵥ p := by
      rw [Matrix.dotProduct_mulVec, ← Matrix.mulVec_transpose]

/-- A quadratic form is bounded by the eigenvalues. -/
theorem dotProduct_mulVec_le (h : e.Diagonalizes a) {bound : K} (hbound : ∀ i, e.values.get i ≤ bound)
    (p : Fin n → K) : p ⬝ᵥ a.matrix *ᵥ p ≤ bound * (p ⬝ᵥ p) := by
  rw [h.dotProduct_mulVec, h.dotProduct_self, Finset.mul_sum]
  exact Finset.sum_le_sum fun i _ => mul_le_mul_of_nonneg_right (hbound i) (mul_self_nonneg _)

end Eigenpairs.Diagonalizes

/-! ### The inverse square root -/

/-- The matrix with the same eigenvectors and the inverse roots of the eigenvalues. -/
def Eigenpairs.inverseRoot (e : Eigenpairs K n) : Square K n :=
  (e.vectors.mul (Square.diagonal (e.values.map fun v => 1 / Scalar.sqrt v))).mul e.vectors.transpose

section
variable {e : Eigenpairs K n} {a : Square K n}

theorem Eigenpairs.matrix_inverseRoot (e : Eigenpairs K n) : e.inverseRoot.matrix =
    e.vectors.matrix * Matrix.diagonal (fun i => 1 / Scalar.sqrt (e.values.get i)) *
      e.vectors.matrixᵀ := by
  have hvalues : (e.values.map fun v => 1 / Scalar.sqrt v).get =
      fun i => 1 / Scalar.sqrt (e.values.get i) := funext fun i => by simp [Vector.get]
  rw [inverseRoot, Square.matrix_mul, Square.matrix_mul, Square.matrix_diagonal,
    Square.matrix_transpose, hvalues]

theorem Eigenpairs.transpose_inverseRoot (e : Eigenpairs K n) :
    e.inverseRoot.matrixᵀ = e.inverseRoot.matrix := by
  rw [matrix_inverseRoot, Matrix.transpose_mul, Matrix.transpose_mul, Matrix.transpose_transpose,
    Matrix.diagonal_transpose, Matrix.mul_assoc]

/-- The inverse square root on both sides of the matrix leaves nothing of it. -/
theorem Eigenpairs.Diagonalizes.inverseRoot_mul_mul (h : e.Diagonalizes a)
    (hsqrt : ∀ {c : K}, 0 ≤ c → Scalar.sqrt c * Scalar.sqrt c = c)
    (hpos : ∀ i, 0 < e.values.get i) :
    e.inverseRoot.matrix * a.matrix * e.inverseRoot.matrix = 1 := by
  have hcancel : Matrix.diagonal (fun i => 1 / Scalar.sqrt (e.values.get i)) *
      Matrix.diagonal e.values.get * Matrix.diagonal (fun i => 1 / Scalar.sqrt (e.values.get i)) =
        1 := by
    rw [Matrix.diagonal_mul_diagonal, Matrix.diagonal_mul_diagonal, ← Matrix.diagonal_one]
    congr 1
    funext i
    rw [div_mul_eq_mul_div, one_mul, div_mul_div_comm, mul_one, hsqrt (hpos i).le,
      div_self (hpos i).ne']
  generalize hs : Matrix.diagonal (fun i => 1 / Scalar.sqrt (e.values.get i)) = s at hcancel
  have hroot : e.inverseRoot.matrix = e.vectors.matrix * s * e.vectors.matrixᵀ := by
    rw [e.matrix_inverseRoot, hs]
  calc e.inverseRoot.matrix * a.matrix * e.inverseRoot.matrix
      = e.vectors.matrix * (s * (e.vectors.matrixᵀ * e.vectors.matrix) *
          Matrix.diagonal e.values.get * (e.vectors.matrixᵀ * e.vectors.matrix) * s) *
            e.vectors.matrixᵀ := by
        rw [hroot, h.matrix_eq]
        simp only [Matrix.mul_assoc]
    _ = 1 := by
        rw [h.transpose_mul, Matrix.mul_one, Matrix.mul_one, hcancel, Matrix.mul_one,
          h.mul_transpose]

end

/-! ### The leading eigenvector -/

/-- The index of the value of larger magnitude, the earlier one of two. -/
def leadingOf (values : Vec K n) (best : Option (Fin n)) (i : Fin n) : Option (Fin n) :=
  match best with
  | none => some i
  | some b => if Scalar.abs (values.get b) < Scalar.abs (values.get i) then some i else some b

/-- The index that a scan ends with is of a value no smaller than those it has seen. -/
theorem abs_le_of_foldl (values : Vec K n) : ∀ {is : List (Fin n)} {best : Option (Fin n)} {k : Fin n},
    is.foldl (leadingOf values) best = some k →
      (∀ i ∈ is, |values.get i| ≤ |values.get k|) ∧ ∀ b, best = some b → |values.get b| ≤ |values.get k|
  | [], best, k, h => by
      refine ⟨fun i hi => absurd hi List.not_mem_nil, fun b hb => ?_⟩
      obtain rfl : b = k := Option.some.inj (hb.symm.trans h)
      exact le_rfl
  | i :: is, none, k, h => by
      have hnext : is.foldl (leadingOf values) (some i) = some k := h
      obtain ⟨hrest, hbest⟩ := abs_le_of_foldl values hnext
      exact ⟨List.forall_mem_cons.2 ⟨hbest i rfl, hrest⟩, fun b hb => nomatch hb⟩
  | i :: is, some b, k, h => by
      by_cases hlt : |values.get b| < |values.get i|
      · rw [List.foldl_cons, show leadingOf values (some b) i = some i from if_pos hlt] at h
        obtain ⟨hrest, hbest⟩ := abs_le_of_foldl values h
        refine ⟨List.forall_mem_cons.2 ⟨hbest i rfl, hrest⟩, ?_⟩
        rintro _ ⟨rfl⟩
        exact hlt.le.trans (hbest i rfl)
      · rw [List.foldl_cons, show leadingOf values (some b) i = some b from if_neg hlt] at h
        obtain ⟨hrest, hbest⟩ := abs_le_of_foldl values h
        refine ⟨List.forall_mem_cons.2 ⟨(not_lt.1 hlt).trans (hbest b rfl), hrest⟩, ?_⟩
        rintro _ ⟨rfl⟩
        exact hbest b rfl

/-- The leading value is the largest in magnitude. -/
theorem abs_le_of_leading {values : Vec K n} {k : Fin n} (h : leading values = some k) (i : Fin n) :
    |values.get i| ≤ |values.get k| :=
  (abs_le_of_foldl values h).1 i (List.mem_finRange i)

/-- The smaller of all values is none larger than any. -/
theorem foldl_smaller_le : ∀ {vs : List K} {a v : K}, v ∈ a :: vs → vs.foldl Scalar.smaller a ≤ v
  | [], a, v, hv => (List.mem_singleton.1 hv).ge
  | b :: vs, a, v, hv => by
      rw [List.foldl_cons, OrderedScalar.smaller_eq_min]
      rcases List.mem_cons.1 hv with rfl | hv
      · exact (foldl_smaller_le List.mem_cons_self).trans (min_le_left v b)
      · rcases List.mem_cons.1 hv with rfl | hv
        · exact (foldl_smaller_le List.mem_cons_self).trans (min_le_right a v)
        · exact foldl_smaller_le (List.mem_cons_of_mem _ hv)

theorem foldl_some_smaller : ∀ (vs : List K) (a : K), vs.foldl (fun m v =>
      match m with
      | none => if v == v then some v else none
      | some m => some (Scalar.smaller m v)) (some a) = some (vs.foldl Scalar.smaller a)
  | [], _ => rfl
  | v :: vs, a => foldl_some_smaller vs (Scalar.smaller a v)

/-- Every scalar of an ordered field equals itself, so the first is a start. -/
theorem least_cons (v : K) (vs : List K) : least (v :: vs) = some (vs.foldl Scalar.smaller v) := by
  have hself : (v == v) = true := decide_eq_true rfl
  rw [least, List.foldl_cons, if_pos hself]
  exact foldl_some_smaller vs v

/-- The largest magnitude of some values, or zero. -/
def largestMagnitude (values : List K) : K :=
  values.foldl (fun m v => Scalar.larger m (Scalar.abs v)) 0

/-- The least of some values is none larger than any. -/
theorem exists_least_le {values : List K} {v : K} (hv : v ∈ values) :
    ∃ s, least values = some s ∧ s ≤ v := by
  cases values with
  | nil => cases hv
  | cons w ws => exact ⟨_, least_cons w ws, foldl_smaller_le hv⟩

/-- The matrix and its transpose in equal parts. -/
def Square.symmetrized (a : Square K n) : Square K n :=
  Square.ofFn fun i j => (a.get i j + a.get j i) * Scalar.half

theorem Square.symmetrized_eq {a : Square K n} (h : a.transpose = a) : a.symmetrized = a := by
  refine Square.ext fun i j => ?_
  have hhalf : (Scalar.half : K) = 1 / 2 := by rw [Scalar.half, OrderedScalar.two_eq]
  rw [symmetrized, Square.get_ofFn, Square.get_comm h, hhalf]
  ring

section
variable [Eigensolver K] {a b : Square K n} {v : Vec K n}

/-- The matrix `r b r`, where `r` is the inverse square root of `a`. -/
def Square.reducedBy (b a : Square K n) : Square K n :=
  ((Eigensolver.eigenpairs a).inverseRoot.mul b).mul (Eigensolver.eigenpairs a).inverseRoot

theorem solveGeneralized_eq (a b : Square K n) : solveGeneralized (L := L) a b =
    if largestMagnitude (Eigensolver.eigenpairs a).values.toList ≤ 0 ∨
        (least (Eigensolver.eigenpairs a).values.toList).any (· ≤
          Scalar.ofNat n * Scalar.epsilon * largestMagnitude (Eigensolver.eigenpairs a).values.toList)
    then .error (.degenerate (.singularScatter
      (least (Eigensolver.eigenpairs a).values.toList)
      (largestMagnitude (Eigensolver.eigenpairs a).values.toList)))
    else match leading (Eigensolver.eigenpairs (b.reducedBy a).symmetrized).values with
      | none => .error (.degenerate .inseparableClasses)
      | some k =>
        if Scalar.abs ((Eigensolver.eigenpairs (b.reducedBy a).symmetrized).values.get k) ≤
            Scalar.ofNat n * Scalar.epsilon then .error (.degenerate .inseparableClasses)
        else .ok ((Eigensolver.eigenpairs a).inverseRoot.apply
          ((Eigensolver.eigenpairs (b.reducedBy a).symmetrized).vectors.column k)) := rfl

/-- A solution is the image of the leading eigenvector of the reduced matrix, for a matrix `a` without
an eigenvalue that is not positive. -/
theorem of_solveGeneralized_eq_ok (h : solveGeneralized (L := L) a b = .ok v) :
    (∀ i, 0 < (Eigensolver.eigenpairs a).values.get i) ∧
      ∃ k, leading (Eigensolver.eigenpairs (b.reducedBy a).symmetrized).values = some k ∧
        v = (Eigensolver.eigenpairs a).inverseRoot.apply
          ((Eigensolver.eigenpairs (b.reducedBy a).symmetrized).vectors.column k) := by
  rw [solveGeneralized_eq] at h
  split at h
  · cases h
  · next hregular =>
    obtain ⟨hlargest, hsmallest⟩ := not_or.1 hregular
    split at h
    · cases h
    · next k hk =>
      split at h
      · cases h
      · cases h
        refine ⟨fun i => ?_, k, hk, rfl⟩
        have hfloor : (0 : K) ≤ Scalar.ofNat n * Scalar.epsilon *
            largestMagnitude (Eigensolver.eigenpairs a).values.toList :=
          mul_nonneg (mul_nonneg (Nat.cast_nonneg n) OrderedScalar.epsilon_pos.le)
            (not_le.1 hlargest).le
        have hvalue : (Eigensolver.eigenpairs a).values.get i ∈
            (Eigensolver.eigenpairs a).values.toList := by simp [Vector.get]
        obtain ⟨s, hs, hle⟩ := exists_least_le hvalue
        rw [hs, Option.any_some, decide_eq_true_iff, not_le] at hsmallest
        exact (hfloor.trans_lt hsmallest).trans_le hle

/-- The quadratic form of a reduced matrix is that of the matrix at the image. -/
theorem Square.quadratic_apply_inverseRoot (b a : Square K n) (u : Vec K n) :
    b.quadratic ((Eigensolver.eigenpairs a).inverseRoot.apply u) = (b.reducedBy a).quadratic u := by
  have hr := (Eigensolver.eigenpairs a).transpose_inverseRoot
  rw [Square.quadratic_eq, Square.quadratic_eq, Square.get_apply, reducedBy, Square.matrix_mul,
    Square.matrix_mul, ← Matrix.mulVec_mulVec, ← Matrix.mulVec_mulVec, Matrix.dotProduct_mulVec u.get,
    ← Matrix.mulVec_transpose, hr]

theorem Square.transpose_reducedBy (hb : b.transpose = b) :
    (b.reducedBy a).transpose = b.reducedBy a := by
  have hr := (Eigensolver.eigenpairs a).transpose_inverseRoot
  have hbt : b.matrixᵀ = b.matrix := by rw [← Square.matrix_transpose, hb]
  refine Square.matrix_injective ?_
  rw [Square.matrix_transpose, reducedBy, Square.matrix_mul, Square.matrix_mul, Matrix.transpose_mul,
    Matrix.transpose_mul, hr, hbt, Matrix.mul_assoc]

namespace ExactSpectra

variable (hK : ExactSpectra K)
include hK

/-- The values of a reduced form without negative values are not negative. -/
theorem values_reducedBy_nonneg (hb : b.transpose = b) (hnonneg : b.NonNegative) (i : Fin n) :
    0 ≤ (Eigensolver.eigenpairs (b.reducedBy a)).values.get i := by
  have hreduced := hK.diagonalizes (Square.transpose_reducedBy (a := a) hb)
  rw [← hreduced.quadratic_column i, ← Square.quadratic_apply_inverseRoot]
  exact hnonneg _

section
variable (ha : a.transpose = a) (hpos : ∀ i, 0 < (Eigensolver.eigenpairs a).values.get i)
include ha hpos

theorem matrix_reducedBy_self : (a.reducedBy a).matrix = 1 := by
  rw [Square.reducedBy, Square.matrix_mul, Square.matrix_mul,
    (hK.diagonalizes ha).inverseRoot_mul_mul hK.sqrt_mul_sqrt hpos]

/-- The form of `a` at an image is the squared length. -/
theorem quadratic_apply_inverseRoot_self (u : Vec K n) :
    a.quadratic ((Eigensolver.eigenpairs a).inverseRoot.apply u) = u.get ⬝ᵥ u.get := by
  rw [Square.quadratic_apply_inverseRoot, Square.quadratic_eq, hK.matrix_reducedBy_self ha hpos,
    Matrix.one_mulVec]

/-- Every vector is an image. -/
theorem exists_apply_inverseRoot (q : Vec K n) :
    ∃ u, (Eigensolver.eigenpairs a).inverseRoot.apply u = q := by
  refine ⟨(a.mul (Eigensolver.eigenpairs a).inverseRoot).apply q, Vec.ext_get ?_⟩
  have hone := hK.matrix_reducedBy_self ha hpos
  rw [Square.reducedBy, Square.matrix_mul, Square.matrix_mul] at hone
  rw [Square.get_apply, Square.get_apply, Square.matrix_mul, Matrix.mulVec_mulVec, ← Matrix.mul_assoc,
    hone, Matrix.one_mulVec]

end

end ExactSpectra

/-- A solution has the value one under the form of `a`, and no vector has a larger value under the form
of `b` in proportion. -/
theorem solveGeneralized_spec (hK : ExactSpectra K) (ha : a.transpose = a) (hb : b.transpose = b)
    (hnonneg : b.NonNegative) (h : solveGeneralized (L := L) a b = .ok v) :
    a.quadratic v = 1 ∧ ∀ q, b.quadratic q ≤ b.quadratic v * a.quadratic q := by
  obtain ⟨hpos, k, hk, rfl⟩ := of_solveGeneralized_eq_ok h
  rw [Square.symmetrized_eq (Square.transpose_reducedBy hb)] at hk ⊢
  have hreduced := hK.diagonalizes (Square.transpose_reducedBy (a := a) hb)
  have hvalue := hK.values_reducedBy_nonneg (a := a) hb hnonneg
  -- no value is negative, so the largest in magnitude is the largest
  have hlargest : ∀ i, (Eigensolver.eigenpairs (b.reducedBy a)).values.get i ≤
      (Eigensolver.eigenpairs (b.reducedBy a)).values.get k := fun i => by
    have hle := abs_le_of_leading hk i
    rwa [abs_of_nonneg (hvalue i), abs_of_nonneg (hvalue k)] at hle
  refine ⟨?_, fun q => ?_⟩
  · rw [hK.quadratic_apply_inverseRoot_self ha hpos, hreduced.norm_column]
  · obtain ⟨u, rfl⟩ := hK.exists_apply_inverseRoot ha hpos q
    rw [hK.quadratic_apply_inverseRoot_self ha hpos, Square.quadratic_apply_inverseRoot,
      Square.quadratic_apply_inverseRoot, hreduced.quadratic_column, Square.quadratic_eq]
    exact hreduced.dotProduct_mulVec_le hlargest u.get

/-! ### Order one -/

theorem Vec.toList_one {F : Type} (v : Vec F 1) : v.toList = [v.get 0] := by
  refine List.ext_getElem (by simp) fun i hi hi' => ?_
  obtain rfl : i = 0 := by simpa using hi'
  simp [Vector.get]

theorem Square.transpose_one {F : Type} (a : Square F 1) : a.transpose = a :=
  Square.ext fun i j => by rw [Square.transpose, Square.get_ofFn, Subsingleton.elim i j]

/-- The only eigenvalue is the only entry. -/
theorem ExactSpectra.get_values_one (hK : ExactSpectra K) (a : Square K 1) :
    (Eigensolver.eigenpairs a).values.get 0 = a.get 0 0 := by
  have h := hK.diagonalizes a.transpose_one
  have hone := h.norm_column 0
  have heigen := h.quadratic_column 0
  rw [Square.quadratic_eq] at heigen
  simp only [dotProduct, Matrix.mulVec, Fin.sum_univ_one, Fin.isValue] at hone heigen
  rw [← heigen, Square.matrix_apply, mul_left_comm, hone, mul_one]

/-- A positive number is solved against itself. -/
theorem exists_solveGeneralized_one (hK : ExactSpectra K) (heps : (OrderedScalar.epsilon : K) < 1)
    {a : Square K 1} (ha : 0 < a.get 0 0) : ∃ v, solveGeneralized (L := L) a a = .ok v := by
  have hlist : (Eigensolver.eigenpairs a).values.toList = [a.get 0 0] := by
    rw [Vec.toList_one, hK.get_values_one]
  have hlargest : largestMagnitude [a.get 0 0] = a.get 0 0 :=
    (OrderedScalar.larger_eq_max _ _).trans ((max_eq_right (abs_nonneg _)).trans (abs_of_pos ha))
  have hsmallest : least [a.get 0 0] = some (a.get 0 0) := least_cons _ []
  have hreduced : (a.reducedBy a).get 0 0 = 1 := by
    have hone := hK.matrix_reducedBy_self a.transpose_one fun i => by
      rw [Subsingleton.elim i 0, hK.get_values_one]
      exact ha
    exact congrFun (congrFun hone 0) 0
  have hleading : ∀ v : Vec K 1, leading v = some 0 := fun _ => rfl
  have hfloor : Scalar.ofNat 1 * Scalar.epsilon = (OrderedScalar.epsilon : K) := by
    show ((1 : Nat) : K) * OrderedScalar.epsilon = OrderedScalar.epsilon
    rw [Nat.cast_one, one_mul]
  have hregular : ¬ (a.get 0 0 ≤ 0 ∨
      (some (a.get 0 0)).any (· ≤ OrderedScalar.epsilon * a.get 0 0) = true) := by
    rw [Option.any_some, decide_eq_true_iff]
    exact not_or.2 ⟨ha.not_ge, (mul_lt_of_lt_one_left ha heps).not_ge⟩
  have hseparable : ¬ Scalar.abs (1 : K) ≤ OrderedScalar.epsilon :=
    (heps.trans_eq abs_one.symm).not_ge
  rw [solveGeneralized_eq, hlist, hlargest, hsmallest, hfloor, if_neg hregular,
    Square.symmetrized_eq (Square.transpose_one _), hleading]
  dsimp only
  rw [hK.get_values_one, hreduced, if_neg hseparable]
  exact ⟨_, rfl⟩

end

end PursuitForest
