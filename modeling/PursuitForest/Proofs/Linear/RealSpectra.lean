import Mathlib.Analysis.Matrix.Spectrum
import PursuitForest.Proofs.Linear.Eigenpairs
/-!
Real numbers as scalars.

The square root of the reals is exact, and the spectral theorem provides the eigenpairs of every
symmetric matrix, so real arithmetic is an instance of exact spectra (`exactSpectra_real`).
-/

open scoped Matrix

namespace PursuitForest

/-- Real numbers, with exact roots. -/
noncomputable instance : OrderedScalar ℝ where
  root := Real.sqrt
  epsilon := 1 / 4503599627370496
  cutoff := 1 / 1000000000000000
  tolerance := 1 / 100000
  epsilon_pos := by norm_num

theorem epsilon_lt_one : (OrderedScalar.epsilon : ℝ) < 1 := by
  show (1 / 4503599627370496 : ℝ) < 1
  norm_num

open Classical in
/-- The eigenpairs of the spectral theorem, if the matrix is symmetric. -/
noncomputable instance : Eigensolver ℝ where
  eigenpairs a :=
    if h : a.matrix.IsHermitian then
      ⟨Vector.ofFn h.eigenvalues, Square.ofFn fun i j => h.eigenvectorBasis j i⟩
    else ⟨Vector.ofFn 0, Square.zero⟩

theorem exactSpectra_real : ExactSpectra ℝ where
  sqrt_mul_sqrt h := Real.mul_self_sqrt h
  diagonalizes {n a} ha := by
    have hsymm : a.matrix.IsHermitian := by
      rw [Matrix.IsHermitian, Matrix.conjTranspose_eq_transpose_of_trivial, ← Square.matrix_transpose,
        ha]
    have he : Eigensolver.eigenpairs a = ⟨Vector.ofFn hsymm.eigenvalues,
        Square.ofFn fun i j => hsymm.eigenvectorBasis j i⟩ := dif_pos hsymm
    have hcolumn : ∀ j, ((Eigensolver.eigenpairs a).vectors.column j).get =
        ⇑(hsymm.eigenvectorBasis j) := fun j => funext fun i => by
      rw [he, Square.column, Vec.get_ofFn, Square.get_ofFn]
    refine ⟨fun i j => ?_, fun j => ?_⟩
    · have hij := hsymm.eigenvectorBasis.inner_eq_ite j i
      rw [EuclideanSpace.inner_eq_star_dotProduct] at hij
      rw [hcolumn, hcolumn, if_congr eq_comm rfl rfl, ← hij]
      rfl
    · rw [Square.get_apply, hcolumn, hsymm.mulVec_eigenvectorBasis, he, Vec.get_ofFn]

end PursuitForest
