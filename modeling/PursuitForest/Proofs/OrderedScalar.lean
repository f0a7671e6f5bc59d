import Mathlib.Algebra.BigOperators.Field
import Mathlib.Algebra.BigOperators.Group.Finset.Basic
import Mathlib.Algebra.BigOperators.Ring.Finset
import Mathlib.Algebra.Order.Field.Basic
import Mathlib.Algebra.Order.Field.Rat
import PursuitForest.Dataset.Grouped
import PursuitForest.Proofs.Exact
/-!
Scalars of an ordered field.

In an ordered field nothing is rounded, so the order of the terms of a sum does not matter: sums in
lanes are sums (`laneSum_eq_sum`). The projection of the mean of some rows is then the mean of their
projections (`dot_columnMeans`). Roots, and what counts as small, are left open, except that a
rounding error has a positive size.
-/

namespace PursuitForest

/-- An ordered field, with some function for the roots and with bounds below which values count as
small. -/
class OrderedScalar (K : Type) extends Field K, LinearOrder K, IsStrictOrderedRing K where
  root : K → K
  epsilon : K
  cutoff : K
  tolerance : K
  epsilon_pos : 0 < epsilon

/-- The inner product of two vectors, as a sum of products. -/
def innerProduct {K : Type} [OrderedScalar K] (xs ys : List K) : K :=
  (List.zipWith (· * ·) xs ys).sum

/-- The mean of the projections of some rows. -/
def meanProjection {K : Type} [OrderedScalar K] (projector : List K) (rows : List (List K)) : K :=
  (rows.map fun r => innerProduct r projector).sum / rows.length

namespace OrderedScalar

variable {K : Type} [OrderedScalar K]

instance : Scalar K where
  decLt := inferInstance
  decLe := inferInstance
  beq a b := decide (a = b)
  ofNat n := n
  mulAdd a b c := a * b + c
  abs a := |a|
  sqrt := root
  epsilon := epsilon
  cutoff := cutoff
  tolerance := tolerance

/-- The larger of two scalars is the maximum, since every scalar equals itself. -/
theorem larger_eq_max (a b : K) : Scalar.larger a b = max a b := by
  have hself : (a == a) = true := decide_eq_true rfl
  unfold Scalar.larger
  rw [hself, if_pos rfl]
  split
  · next h => exact (max_eq_right h.le).symm
  · next h => exact (max_eq_left (not_lt.1 h)).symm

/-- The smaller of two scalars is the minimum, since every scalar equals itself. -/
theorem smaller_eq_min (a b : K) : Scalar.smaller a b = min a b := by
  have hself : (a == a) = true := decide_eq_true rfl
  unfold Scalar.smaller
  rw [hself, if_pos rfl]
  split
  · next h => exact (min_eq_right h.le).symm
  · next h => exact (min_eq_left (not_lt.1 h)).symm

theorem two_eq : (Scalar.two : K) = 2 :=
  one_add_one_eq_two

/-! ### Sums -/

theorem sum_eq_sum (xs : List K) : Scalar.sum xs = xs.sum :=
  List.sum_eq_foldl.symm

/-- Whole runs go into the lanes and lose nothing. -/
theorem sum_addRuns : ∀ {runs : Nat} {lanes xs : List K}, lanes.length = 8 → 8 * runs ≤ xs.length →
    (Scalar.addRuns runs lanes xs).1.length = 8 ∧
      (Scalar.addRuns runs lanes xs).1.sum + (Scalar.addRuns runs lanes xs).2.sum =
        lanes.sum + xs.sum
  | 0, lanes, xs, hlanes, _ => ⟨hlanes, rfl⟩
  | runs + 1, lanes, xs, hlanes, hxs => by
      -- eight terms go from the list into the lanes
      have htake : (xs.take 8).length = 8 := by
        rw [List.length_take]
        omega
      have hnext : (List.zipWith (· + ·) lanes (xs.take 8)).length = 8 := by
        rw [List.length_zipWith, hlanes, htake]
        rfl
      have hdrop : 8 * runs ≤ (xs.drop 8).length := by
        rw [List.length_drop]
        omega
      obtain ⟨hlength, hsum⟩ := sum_addRuns hnext hdrop
      refine ⟨hlength, hsum.trans ?_⟩
      rw [← List.sum_add_sum_eq_sum_zipWith_of_length_eq _ _ (hlanes.trans htake.symm), add_assoc,
        List.sum_take_add_sum_drop]

/-- A sum in eight lanes is the sum. -/
theorem laneSum_eq_sum (xs : List K) : Scalar.laneSum xs = xs.sum := by
  have hzero : (List.replicate 8 (0 : K)).sum = 0 := by simp
  have hlanes : (List.replicate 8 (0 : K)).length = 8 := List.length_replicate
  obtain ⟨hlength, hsum⟩ := sum_addRuns hlanes (Nat.mul_div_le xs.length 8)
  rw [hzero, zero_add] at hsum
  unfold Scalar.laneSum
  generalize Scalar.addRuns (xs.length / 8) (List.replicate 8 0) xs = added at hlength hsum ⊢
  obtain ⟨lanes, rest⟩ := added
  dsimp only at hlength hsum ⊢
  have hhalves : (lanes.take 4).length = (lanes.drop 4).length := by
    rw [List.length_take, List.length_drop, hlength]
    rfl
  rw [sum_eq_sum, ← hsum, List.sum_append,
    ← List.sum_add_sum_eq_sum_zipWith_of_length_eq _ _ hhalves, List.sum_take_add_sum_drop]

theorem dot_eq_innerProduct (xs ys : List K) : Scalar.dot xs ys = innerProduct xs ys :=
  laneSum_eq_sum _

theorem mean_eq (xs : List K) : Scalar.mean xs = xs.sum / xs.length := by
  rw [Scalar.mean, sum_eq_sum]
  rfl

/-- The mean of projections that growing computes. -/
theorem laneMean_dot (projector : List K) (rows : List (List K)) :
    Scalar.laneMean (rows.map fun r => Scalar.dot r projector) = meanProjection projector rows := by
  rw [Scalar.laneMean, laneSum_eq_sum, List.length_map, meanProjection]
  simp only [dot_eq_innerProduct]
  rfl

/-! ### Means of columns -/

/-- An inner product by the places of the vectors. -/
theorem innerProduct_eq_sum : ∀ {n : Nat} {xs ys : List K}, xs.length = n → ys.length = n →
    innerProduct xs ys = ∑ j ∈ Finset.range n, xs.getD j 0 * ys.getD j 0
  | 0, [], [], _, _ => rfl
  | n + 1, x :: xs, y :: ys, hx, hy => by
      rw [Finset.sum_range_succ', innerProduct, List.zipWith_cons_cons, List.sum_cons, add_comm]
      exact congrArg (· + x * y)
        (innerProduct_eq_sum (Nat.succ.inj hx) (Nat.succ.inj hy))

/-- Sums of products may be taken row by row or column by column. -/
theorem sum_innerProduct {n : Nat} {projector : List K} (hp : projector.length = n) :
    ∀ {rows : List (List K)}, (∀ r ∈ rows, r.length = n) →
      (rows.map fun r => innerProduct r projector).sum =
        ∑ j ∈ Finset.range n, (rows.map fun r => r.getD j 0).sum * projector.getD j 0
  | [], _ => by simp
  | r :: rows, hrows => by
      obtain ⟨hr, hrows⟩ := List.forall_mem_cons.1 hrows
      simp only [List.map_cons, List.sum_cons, add_mul, Finset.sum_add_distrib]
      rw [sum_innerProduct hp hrows, innerProduct_eq_sum hr hp]

/-- The mean of some rows projects to the mean of their projections. -/
theorem dot_columnMeans {n : Nat} {projector : List K} {rows : List (List K)}
    (hp : projector.length = n) (hrows : ∀ r ∈ rows, r.length = n) :
    Scalar.dot (columnMeans n rows) projector = meanProjection projector rows := by
  have hcolumn : ∀ j ∈ Finset.range n, (columnMeans n rows).getD j 0 =
      (rows.map fun r => r.getD j 0).sum / rows.length := fun j hj => by
    rw [Finset.mem_range] at hj
    have hvalues : rows.filterMap (·[j]?) = rows.map fun r => r.getD j 0 := by
      rw [← List.filterMap_eq_map]
      refine List.filterMap_congr fun r hr => ?_
      have hlt : j < r.length := by rwa [hrows r hr]
      simp [hlt]
    rw [columnMeans, List.getD_eq_getElem?_getD, List.getElem?_map, List.getElem?_range hj]
    simp only [Option.map_some, Option.getD_some]
    rw [mean_eq, hvalues, List.length_map]
  rw [dot_eq_innerProduct, innerProduct_eq_sum (by rw [columnMeans]; simp) hp, meanProjection,
    sum_innerProduct hp hrows, Finset.sum_div]
  refine Finset.sum_congr rfl fun j hj => ?_
  rw [hcolumn j hj, div_mul_eq_mul_div]

end OrderedScalar

/-- Rational numbers, with roots rounded down. -/
instance : OrderedScalar ℚ where
  root a := if a < 0 then 0 else Exact.natRoot a.num.toNat / Exact.natRoot a.den
  epsilon := 1 / 4503599627370496
  cutoff := 1 / 1000000000000000
  tolerance := 1 / 100000
  epsilon_pos := by decide +kernel

instance : Eigensolver ℚ := ⟨Square.eigenpairs⟩

end PursuitForest
