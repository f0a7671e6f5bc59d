import Mathlib.Algebra.BigOperators.Fin
import Mathlib.Data.Matrix.Mul
import Mathlib.Tactic.FieldSimp
import PursuitForest.Linear.Square
import PursuitForest.Proofs.OrderedScalar
/-!
Square matrices of exact scalars.

Nothing is rounded in an ordered field, so fused sums are sums (`fusedDot_eq_innerProduct`), and what
is computed on tabulated matrices is the algebra of matrices: `Square.matrix` carries every operation
to its counterpart, and the value of a quadratic form is the double sum over its entries.
-/

open scoped Matrix

namespace PursuitForest

/-! ### Matrices -/

/-- Vectors with the same components are equal. -/
theorem Vec.ext_get {F : Type} {n : Nat} {u v : Vec F n} (h : u.get = v.get) : u = v :=
  Vector.ext fun i hi => congrFun h ⟨i, hi⟩

namespace Square

variable {F : Type} {n : Nat}

/-- The matrix with the same entries. -/
def matrix (a : Square F n) : Matrix (Fin n) (Fin n) F := Matrix.of a.get

theorem matrix_apply (a : Square F n) (i j : Fin n) : a.matrix i j = a.get i j := rfl

theorem matrix_injective : Function.Injective (matrix (F := F) (n := n)) := fun _ _ h =>
  ext fun i j => congrFun (congrFun h i) j

@[simp] theorem matrix_transpose (a : Square F n) : a.transpose.matrix = a.matrixᵀ := by
  ext i j
  exact get_ofFn _ i j

/-- Entries of a symmetric matrix may be read by row or by column. -/
theorem get_comm {a : Square F n} (h : a.transpose = a) (i j : Fin n) : a.get j i = a.get i j := by
  rw [← get_ofFn (fun i j => a.get j i) i j]
  exact congrArg (·.get i j) h

theorem get_column (a : Square F n) (j : Fin n) : (a.column j).get = a.matrix.col j := by
  ext i
  rw [column, Vec.get_ofFn]
  rfl

end Square

variable {K : Type} [OrderedScalar K] {n : Nat}

namespace OrderedScalar

/-! ### Fused sums -/

theorem foldl_mulAdd : ∀ (ps : List (K × K)) (s : K),
    ps.foldl (fun s (x, y) => Scalar.mulAdd x y s) s = s + (ps.map fun p => p.1 * p.2).sum
  | [], s => by simp
  | (x, y) :: ps, s => by
      rw [List.foldl_cons, foldl_mulAdd ps, List.map_cons, List.sum_cons]
      show x * y + s + _ = _
      ring

theorem fusedSum_eq_innerProduct (xs ys : List K) : Scalar.fusedSum xs ys = innerProduct xs ys := by
  rw [Scalar.fusedSum, foldl_mulAdd, zero_add, innerProduct, List.zip, List.map_zipWith]

/-- An inner product may be cut at any place. -/
theorem innerProduct_take_add_drop (k : Nat) (xs ys : List K) :
    innerProduct (xs.take k) (ys.take k) + innerProduct (xs.drop k) (ys.drop k) =
      innerProduct xs ys := by
  rw [innerProduct, innerProduct, innerProduct, ← List.take_zipWith, ← List.drop_zipWith,
    List.sum_take_add_sum_drop]

theorem sum_fusedRuns : ∀ {runs : Nat} {xs ys : List K}, min xs.length ys.length ≤ 256 * runs →
    (Scalar.fusedRuns runs xs ys).sum = innerProduct xs ys
  | 0, xs, ys, h => by
      have hnil : List.zipWith (· * ·) xs ys = [] := List.eq_nil_of_length_eq_zero (by
        rw [List.length_zipWith]
        omega)
      rw [innerProduct, hnil]
      rfl
  | runs + 1, xs, ys, h => by
      have hrest : min (xs.drop 256).length (ys.drop 256).length ≤ 256 * runs := by
        rw [List.length_drop, List.length_drop]
        omega
      rw [Scalar.fusedRuns, List.sum_cons, fusedSum_eq_innerProduct, sum_fusedRuns hrest,
        innerProduct_take_add_drop]

/-- A sum of products that is fused in runs is the sum. -/
theorem fusedDot_eq_innerProduct (xs ys : List K) : Scalar.fusedDot xs ys = innerProduct xs ys := by
  rw [Scalar.fusedDot, sum_eq_sum, sum_fusedRuns (by omega)]

end OrderedScalar

theorem total_eq_sum : ∀ {n : Nat} (f : Fin n → K), total f = ∑ i, f i
  | 0, _ => by simp [total]
  | n + 1, f => by
      rw [total, Fin.foldl_succ_last, Fin.sum_univ_castSucc, ← total_eq_sum fun i => f i.castSucc]
      rfl

/-- The inner product of two vectors by their components. -/
theorem innerProduct_toList (u v : Vec K n) :
    innerProduct u.toList v.toList = u.get ⬝ᵥ v.get := by
  have hu : u.toList.length = n := by simp
  have hv : v.toList.length = n := by simp
  rw [OrderedScalar.innerProduct_eq_sum hu hv, Finset.sum_range]
  refine Finset.sum_congr rfl fun i _ => ?_
  simp [Vector.get]

namespace Square

@[simp] theorem matrix_zero : (zero : Square K n).matrix = 0 := by
  ext i j
  exact get_ofFn _ i j

@[simp] theorem matrix_add (a b : Square K n) : (a.add b).matrix = a.matrix + b.matrix := by
  ext i j
  exact get_ofFn _ i j

theorem transpose_add {a b : Square K n} (ha : a.transpose = a) (hb : b.transpose = b) :
    (a.add b).transpose = a.add b :=
  matrix_injective (by
    rw [matrix_transpose, matrix_add, Matrix.transpose_add, ← matrix_transpose, ← matrix_transpose, ha,
      hb])

@[simp] theorem matrix_diagonal (v : Vec K n) :
    (diagonal v).matrix = Matrix.diagonal v.get := by
  ext i j
  exact get_ofFn _ i j

@[simp] theorem matrix_mul (a b : Square K n) : (a.mul b).matrix = a.matrix * b.matrix := by
  ext i j
  refine (get_ofFn _ i j).trans ?_
  rw [OrderedScalar.fusedDot_eq_innerProduct, innerProduct_toList]
  refine Finset.sum_congr rfl fun k _ => ?_
  exact congrArg (a.get i k * ·) (get_ofFn _ j k)

theorem get_apply (a : Square K n) (v : Vec K n) : (a.apply v).get = a.matrix *ᵥ v.get := by
  ext i
  rw [apply, Vec.get_ofFn, total_eq_sum]
  rfl

/-- The value of a quadratic form, as a sum over rows and columns. -/
theorem quadratic_eq (a : Square K n) (v : Vec K n) :
    a.quadratic v = v.get ⬝ᵥ a.matrix *ᵥ v.get := by
  have happly : (a.rows.toList.map fun r => Scalar.dot r.toList v.toList) =
      (a.apply v).toList := by
    refine List.ext_getElem (by simp) fun i hi hi' => ?_
    have hlt : i < n := by simpa using hi
    have hrow := congrFun (a.get_apply v) ⟨i, hlt⟩
    rw [List.getElem_map, OrderedScalar.dot_eq_innerProduct, innerProduct_toList]
    exact hrow.symm
  rw [quadratic, happly, OrderedScalar.dot_eq_innerProduct, innerProduct_toList, get_apply]

/-! ### Quadratic forms -/

theorem quadratic_zero (v : Vec K n) : (zero : Square K n).quadratic v = 0 := by
  rw [quadratic_eq, matrix_zero, Matrix.zero_mulVec, dotProduct_zero]

theorem quadratic_add (a b : Square K n) (v : Vec K n) :
    (a.add b).quadratic v = a.quadratic v + b.quadratic v := by
  rw [quadratic_eq, quadratic_eq, quadratic_eq, matrix_add, Matrix.add_mulVec, dotProduct_add]

/-- The quadratic form of a vector in other units. -/
theorem quadratic_div (a : Square K n) {u v : Vec K n} {c : K} (h : ∀ i, u.get i = v.get i / c) :
    a.quadratic u = a.quadratic v / (c * c) := by
  have hu : u.get = c⁻¹ • v.get := funext fun i => (h i).trans (div_eq_inv_mul _ _)
  rw [quadratic_eq, quadratic_eq, hu, Matrix.mulVec_smul, dotProduct_smul, smul_dotProduct, smul_eq_mul,
    smul_eq_mul, div_eq_inv_mul, mul_inv, mul_assoc]

/-- The quadratic form of the products of a vector with itself is a square. -/
theorem quadratic_of_products {a : Square K n} {u : Fin n → K} {c : K}
    (h : ∀ i j, a.get i j = c * (u i * u j)) (v : Vec K n) :
    a.quadratic v = c * ((u ⬝ᵥ v.get) * (u ⬝ᵥ v.get)) := by
  have hmatrix : a.matrix = c • Matrix.vecMulVec u u := by
    ext i j
    exact h i j
  rw [quadratic_eq, hmatrix, Matrix.smul_mulVec, Matrix.vecMulVec_mulVec, dotProduct_smul,
    op_smul_eq_smul, dotProduct_smul, dotProduct_comm v.get u, smul_eq_mul, smul_eq_mul]

/-- No vector gives the quadratic form a negative value. -/
def NonNegative (a : Square K n) : Prop := ∀ v : Vec K n, 0 ≤ a.quadratic v

namespace NonNegative

variable {a b : Square K n}

theorem zero : (zero : Square K n).NonNegative := fun v => (quadratic_zero v).ge

theorem add (ha : a.NonNegative) (hb : b.NonNegative) : (a.add b).NonNegative := fun v => by
  rw [quadratic_add]
  exact add_nonneg (ha v) (hb v)

/-- Entries on the diagonal are values of the form. -/
theorem diagonal_nonneg (ha : a.NonNegative) (i : Fin n) : 0 ≤ a.get i i := by
  have h := ha (Vector.ofFn (Pi.single i 1))
  have hget : (Vector.ofFn (Pi.single i (1 : K))).get = Pi.single i 1 := funext (Vec.get_ofFn _)
  rw [quadratic_eq, hget, Matrix.mulVec_single_one, single_one_dotProduct] at h
  exact h

end NonNegative

/-- `a` has some rows of `b`, and the same columns, in other units: `place i` is the row, and
`unit i` its unit. -/
def RescaledBy {m : Nat} (a : Square K m) (place : Fin m → Fin n) (unit : Fin m → K)
    (b : Square K n) : Prop :=
  ∀ i j, a.get i j = b.get (place i) (place j) / (unit i * unit j)

namespace RescaledBy

variable {m : Nat} {a : Square K m} {b : Square K n} {place : Fin m → Fin n} {unit : Fin m → K}

/-- The quadratic forms agree on vectors in corresponding units, if the rows that are left out have no
weight. -/
theorem quadratic_eq (h : a.RescaledBy place unit b) (hplace : Function.Injective place)
    (hunit : ∀ i, unit i ≠ 0) {x : Vec K m} {y : Vec K n}
    (hx : ∀ i, x.get i = y.get (place i) * unit i) (hy : ∀ j, j ∉ Set.range place → y.get j = 0) :
    a.quadratic x = b.quadratic y := by
  have hterm : ∀ i j, x.get i * (a.get i j * x.get j) =
      y.get (place i) * (b.get (place i) (place j) * y.get (place j)) := fun i j => by
    rw [h, hx, hx]
    have hi := hunit i
    have hj := hunit j
    field_simp
  rw [Square.quadratic_eq, Square.quadratic_eq]
  simp only [dotProduct, Matrix.mulVec, matrix_apply, Finset.mul_sum, hterm]
  refine Fintype.sum_of_injective place hplace _ _ (fun i hi => ?_) fun i => ?_
  · simp only [hy i hi, zero_mul, Finset.sum_const_zero]
  · refine Fintype.sum_of_injective place hplace _ _ (fun j hj => ?_) fun j => rfl
    rw [hy j hj, mul_zero, mul_zero]

end RescaledBy

end Square

end PursuitForest
