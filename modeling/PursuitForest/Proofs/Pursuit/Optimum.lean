import Mathlib.Algebra.Order.Field.Basic
import PursuitForest.Proofs.Dataset.Storage
import PursuitForest.Proofs.Linear.RealSpectra
import PursuitForest.Proofs.Pursuit.Projector
import PursuitForest.Proofs.Pursuit.Separability
/-!
The projector of largest index.

The search leaves out the columns that do not vary and solves the generalized eigenvalue problem on the
others. Data with some columns have the forms of the data at vectors that are zero elsewhere
(`GroupedDataset.forms_keepColumns`), so the solution has the largest share of all these vectors
(`Discriminant.direction_spec`). In exact arithmetic none of them has a larger index, and the solution
attains the bound unless its scatter is negligible (`optimize_optimal`).
-/

namespace PursuitForest

variable {K L : Type} [OrderedScalar K] [Label L]

/-! ### Some of the columns -/

namespace GroupedDataset

section
variable {F : Type} {columns : List Nat} {d : GroupedDataset F L}

/-- The column that is kept at a place. -/
def keptColumn (h : ∀ c ∈ columns, c < d.width) (i : Fin (d.keepColumns columns).width) :
    Fin d.width :=
  ⟨columns.get (i.cast (width_keepColumns h)), h _ (List.get_mem _ _)⟩

theorem getElem?_keptColumn (h : ∀ c ∈ columns, c < d.width)
    (i : Fin (d.keepColumns columns).width) : columns[(i : Nat)]? = some (keptColumn h i : Nat) :=
  List.getElem?_eq_getElem (width_keepColumns h ▸ i.isLt)

theorem keptColumn_injective (h : ∀ c ∈ columns, c < d.width) (hnodup : columns.Nodup) :
    Function.Injective (keptColumn h) := fun _ _ hij =>
  Fin.cast_injective _ (List.nodup_iff_injective_get.1 hnodup (congrArg Fin.val hij))

theorem mem_of_mem_range_keptColumn {h : ∀ c ∈ columns, c < d.width} {j : Fin d.width}
    (hj : (j : Nat) ∈ columns) : j ∈ Set.range (keptColumn h) := by
  obtain ⟨i, hi⟩ := List.get_of_mem hj
  exact ⟨i.cast (width_keepColumns h).symm, Fin.ext hi⟩

end

variable {columns : List Nat} {d : GroupedDataset K L}

/-- Rows of some columns are neither shifted nor in other units. -/
theorem recolumned_keepColumns (h : ∀ c ∈ columns, c < d.width) :
    Recolumned d (d.keepColumns columns).width (keptColumn h) (fun _ => 0) (fun _ => 1)
      (fun r => columns.filterMap (r[·]?)) where
  getD_eq r hr i := by
    rw [filterMap_getElem?_eq_map 0 fun c hc => hr ▸ h c hc, sub_zero, div_one,
      List.getD_eq_getElem?_getD, List.getElem?_map, getElem?_keptColumn h i]
    rfl

/-- Data with some columns have the forms of the data at projectors that are zero elsewhere. -/
theorem forms_keepColumns {p : Discriminant K} (h : ∀ c ∈ columns, c < d.width)
    (hnodup : columns.Nodup) {projector kept : List K}
    (hkept : ∀ i j, columns[i]? = some j → kept.getD i 0 = projector.getD j 0)
    (hzero : ∀ j < d.width, j ∉ columns → projector.getD j 0 = 0) :
    p.forms (d.keepColumns columns) kept = p.forms d projector := by
  refine Discriminant.forms_eq_of_image (recolumned_keepColumns h) (d.imageOf_keepColumns columns)
    (keptColumn_injective h hnodup) (fun _ => one_ne_zero) (fun i => ?_) fun j hj => ?_
  · rw [mul_one]
    exact hkept i _ (getElem?_keptColumn h i)
  · exact hzero j j.isLt fun hmem => hj (mem_of_mem_range_keptColumn hmem)

end GroupedDataset

/-! ### The direction of a search -/

theorem ascending_varyingColumns (d : GroupedDataset K L) : (varyingColumns d).Pairwise (· < ·) :=
  List.pairwise_lt_range.filter _

theorem nodup_varyingColumns (d : GroupedDataset K L) : (varyingColumns d).Nodup :=
  (ascending_varyingColumns d).imp Nat.ne_of_lt

theorem lt_of_mem_varyingColumns {d : GroupedDataset K L} {j : Nat} (hj : j ∈ varyingColumns d) :
    j < d.width :=
  List.mem_range.1 (List.mem_filter.1 hj).1

/-- Values of the vector that a list of as many components stands for. -/
theorem Vec.ofRow_toList {n : Nat} (v : Vec K n) : Vec.ofRow n v.toList = v := by
  refine Vec.ext_get (funext fun i => ?_)
  rw [Vec.get_ofRow, List.getD_eq_getElem _ _ (by simp)]
  simp [Vector.get]

namespace Discriminant

variable [Eigensolver K] {p : Discriminant K} {d : GroupedDataset K L} {v : List K}

/-- What a search finds before it is written in canonical form. -/
def direction (p : Discriminant K) (d : GroupedDataset K L) : Except (Error K L) (List K) := do
  let active := varyingColumns d
  if active.isEmpty then throw (.degenerate .constantFeatures)
  let scatter ← Scatter.ofDataset Scalar.laneMean (d.keepColumns active)
  let direction ← solveGeneralized ((p.blend scatter.within).add scatter.between) scatter.between
  return widen d.width active direction.toList

/-- What is solved for data all of whose columns take part. -/
def solution (p : Discriminant K) (d : GroupedDataset K L) : Except (Error K L) (List K) :=
  (Scatter.ofDataset Scalar.laneMean d >>= fun scatter => solveGeneralized
    ((p.blend scatter.within).add scatter.between) scatter.between).map (·.toList)

theorem direction_eq (p : Discriminant K) (d : GroupedDataset K L) : p.direction d =
    if (varyingColumns d).isEmpty then .error (.degenerate .constantFeatures)
    else (p.solution (d.keepColumns (varyingColumns d))).map (widen d.width (varyingColumns d)) := by
  unfold direction
  dsimp only
  split
  · rfl
  · refine bind_bind_pure.trans ?_
    rw [solution]
    exact (Functor.map_map (f := Except (Error K L)) _ _ _).symm

theorem optimize_eq (p : Discriminant K) (d : GroupedDataset K L) :
    p.optimize d = (p.direction d).map canonicalize := by
  unfold optimize direction
  dsimp only
  split
  · rfl
  · refine bind_bind_pure.trans (Eq.trans ?_ (congrArg (Except.map canonicalize) bind_bind_pure.symm))
    exact (Functor.map_map (f := Except (Error K L)) _ _ _).symm

/-- A direction is a solution for the columns that vary. -/
theorem exists_solution_of_direction (h : p.direction d = .ok v) : d.isEmpty = false ∧
    ∃ w : Vec K (d.keepColumns (varyingColumns d)).width,
      let s := Scatter.ofGroups Scalar.mean (d.keepColumns (varyingColumns d)).vectors
      solveGeneralized (L := L) ((p.blend s.within).add s.between) s.between = .ok w ∧
        v = widen d.width (varyingColumns d) w.toList := by
  unfold direction at h
  dsimp only at h
  split at h
  · cases h
  · obtain ⟨s, hs, h⟩ := bind_eq_ok_iff.1 h
    obtain ⟨w, hw, h⟩ := bind_eq_ok_iff.1 h
    cases h
    have hkept : (d.keepColumns (varyingColumns d)).isEmpty = false := by
      by_contra hempty
      rw [Scatter.ofDataset, if_pos (by simpa using hempty)] at hs
      cases hs
    rw [(Scatter.ofDataset_eq hkept).2] at hs
    cases hs
    exact ⟨by rw [← (d.imageOf_keepColumns (varyingColumns d)).isEmpty_eq, hkept], w, hw, rfl⟩

/-- A direction has a weight of one, and the largest share of all vectors over the same columns. -/
theorem direction_spec (hK : ExactSpectra K) (h : p.direction d = .ok v) : v.length = d.width ∧
      (p.forms d v).1 + (p.forms d v).2 = 1 ∧
      ∀ q : List K, (∀ j < d.width, j ∉ varyingColumns d → q.getD j 0 = 0) →
        (p.forms d q).2 ≤ (p.forms d v).2 * ((p.forms d q).1 + (p.forms d q).2) := by
  obtain ⟨-, w, hw, rfl⟩ := exists_solution_of_direction h
  have hlt : ∀ c ∈ varyingColumns d, c < d.width := fun c hc => lt_of_mem_varyingColumns hc
  have hnodup := nodup_varyingColumns d
  have hdirection : p.forms (d.keepColumns (varyingColumns d)) w.toList =
      p.forms d (widen d.width (varyingColumns d) w.toList) := by
    refine GroupedDataset.forms_keepColumns hlt hnodup (fun i j hj => ?_) fun j hj hout => ?_
    · exact (getD_widen (hlt j (List.mem_of_getElem? hj)) hnodup hj).symm
    · exact getD_widen_of_notMem hout
  have hspec := solveGeneralized_spec hK
    (Square.transpose_add (p.transpose_blend (Scatter.transpose_within _ _))
      (Scatter.transpose_between _ _))
    (Scatter.transpose_between _ _) (Scatter.nonNegative_between _ _) hw
  rw [← Vec.ofRow_toList w] at hspec
  refine ⟨length_widen _ _ _, ?_, fun q hq => ?_⟩
  · rw [← hdirection, ← quadratic_add_between]
    exact hspec.1
  · have hq' : p.forms (d.keepColumns (varyingColumns d)) ((varyingColumns d).map (q.getD · 0)) =
        p.forms d q := by
      refine GroupedDataset.forms_keepColumns hlt hnodup (fun i j hj => ?_) hq
      rw [List.getD_eq_getElem?_getD, List.getElem?_map, hj]
      rfl
    rw [← hdirection, ← hq', ← quadratic_add_between]
    exact hspec.2 _

/-- No vector over the columns that vary has a larger index than the share of a direction. -/
theorem index_le_of_direction (hK : ExactSpectra K) (h₀ : 0 ≤ p.lambda) (h₁ : p.lambda ≤ 1)
    (h : p.direction d = .ok v) {q : List K} (hq : q.length = d.width)
    (hzero : ∀ j < d.width, j ∉ varyingColumns d → q.getD j 0 = 0) :
    ∃ i, p.index d q = .ok i ∧ i ≤ (p.forms d v).2 := by
  obtain ⟨hd, -⟩ := exists_solution_of_direction h
  obtain ⟨-, -, hlargest⟩ := direction_spec hK h
  obtain ⟨hw, hb⟩ := forms_nonneg h₀ h₁ d q
  refine ⟨_, index_eq hd hq, (separability_le_div hw hb).trans ?_⟩
  exact div_le_of_le_mul₀ (add_nonneg hw hb) (forms_nonneg h₀ h₁ d v).2 (hlargest q hzero)

/-- A direction of any length has its share as its index, unless its scatter is negligible. -/
theorem index_eq_of_direction (hK : ExactSpectra K) (h : p.direction d = .ok v) {c : K}
    (hlarge : OrderedScalar.epsilon <
      (p.forms d (v.map (· / c))).1 + (p.forms d (v.map (· / c))).2) :
    p.index d (v.map (· / c)) = .ok (p.forms d v).2 := by
  obtain ⟨hd, -⟩ := exists_solution_of_direction h
  obtain ⟨hlength, hone, -⟩ := direction_spec hK h
  have hc : c * c ≠ 0 := fun hc => by
    rw [forms_div, hc, div_zero, div_zero, add_zero] at hlarge
    exact hlarge.not_gt OrderedScalar.epsilon_pos
  rw [index_eq hd ((List.length_map _).trans hlength), separability_eq_div hlarge, forms_div]
  dsimp only
  rw [← add_div, hone, div_div_div_cancel_right₀ hc, div_one]

end Discriminant

/-- A solution of the generalized eigenvalue problem is not zero and has the largest ratio of the two
forms. So no projector over the columns that vary has a larger index than the ratio of the direction that
a search finds, and the direction, of whatever length, has this index unless its scatter is negligible.
-/
theorem optimize_optimal [Eigensolver K] (hK : ExactSpectra K) :
    (∀ (n : Nat) (a b : Square K n), a.transpose = a → b.transpose = b → b.NonNegative →
      ∀ v, solveGeneralized (L := L) a b = .ok v → (∃ i, v.get i ≠ 0) ∧
        ∀ q, b.quadratic q * a.quadratic v ≤ b.quadratic v * a.quadratic q) ∧
    ∀ lambda : K, 0 ≤ lambda → lambda ≤ 1 → ∀ (d : GroupedDataset K L) (projector : List K),
      (Discriminant.mk lambda).optimize d = .ok projector →
        ∃ (s : Scatter K d.width) (a : Square K d.width) (v : List K) (ratio : K),
          Scatter.ofDataset Scalar.mean d = .ok s ∧
          a = ((Discriminant.mk lambda).blend s.within).add s.between ∧
          (Discriminant.mk lambda).direction d = .ok v ∧ projector = canonicalize v ∧
          a.quadratic (Vec.ofRow d.width v) = 1 ∧
          ratio = s.between.quadratic (Vec.ofRow d.width v) / a.quadratic (Vec.ofRow d.width v) ∧
          (∀ q : List K, q.length = d.width →
            (∀ j < d.width, j ∉ varyingColumns d → q.getD j 0 = 0) →
              ∃ i, (Discriminant.mk lambda).index d q = .ok i ∧ i ≤ ratio) ∧
          (OrderedScalar.epsilon < a.quadratic (Vec.ofRow d.width v) →
            (Discriminant.mk lambda).index d v = .ok ratio) ∧
          ∀ c : K, OrderedScalar.epsilon < a.quadratic (Vec.ofRow d.width (v.map (· / c))) →
            (Discriminant.mk lambda).index d (v.map (· / c)) = .ok ratio := by
  constructor
  · intro n a b ha hb hnonneg v hv
    obtain ⟨hone, hlargest⟩ := solveGeneralized_spec hK ha hb hnonneg hv
    refine ⟨?_, fun q => by rw [hone, mul_one]; exact hlargest q⟩
    by_contra hzero
    push Not at hzero
    have hget : v.get = 0 := funext hzero
    rw [Square.quadratic_eq, hget, zero_dotProduct] at hone
    exact zero_ne_one hone
  · intro lambda h₀ h₁ d projector hoptimize
    rw [Discriminant.optimize_eq] at hoptimize
    cases hv : (Discriminant.mk lambda).direction d with
    | error e => rw [hv] at hoptimize; cases hoptimize
    | ok v =>
      rw [hv] at hoptimize
      cases hoptimize
      obtain ⟨hd, -⟩ := Discriminant.exists_solution_of_direction hv
      obtain ⟨-, hone, -⟩ := Discriminant.direction_spec hK hv
      have hweight := Discriminant.quadratic_add_between ⟨lambda⟩ d
      have hscaled : ∀ c, OrderedScalar.epsilon < _ →
          (Discriminant.mk lambda).index d (v.map (· / c)) = _ := fun c hlarge =>
        Discriminant.index_eq_of_direction hK hv ((hweight _).subst hlarge)
      have hunit : v.map (· / 1) = v := by simp only [div_one, List.map_id']
      refine ⟨_, _, v, ((Discriminant.mk lambda).forms d v).2, (Scatter.ofDataset_eq hd).1, rfl, rfl,
        rfl, (hweight v).trans hone, ?_,
        fun q hq => Discriminant.index_le_of_direction hK h₀ h₁ hv hq, ?_, hscaled⟩
      · rw [hweight, hone, div_one]
        rfl
      · have hself := hscaled 1
        rwa [hunit] at hself

/-! ### An example of real scalars -/

/-- Two observations of one column, each of a class of its own. -/
def twoPoints : GroupedDataset ℝ Nat where
  width := 1
  groups := [⟨0, [[0]]⟩, ⟨1, [[2]]⟩]
  classes := .ofList [0, 1]
  ascending := by simp
  inhabited := by simp
  shaped := by simp
  covered := by simp [LabelSet.mem_ofList]

theorem varyingColumns_twoPoints : varyingColumns twoPoints = [0] := by
  simp [varyingColumns, twoPoints, GroupedDataset.features, FeatureTable.column, GroupedDataset.rows,
    List.range_succ]

/-- Every class is a point, so there is no scatter within the classes. -/
theorem scatter_twoPoints {s : Scatter ℝ 1}
    (hs : s = Scatter.ofGroups Scalar.mean [[#v[0]], [#v[2]]]) : s.within = Square.zero ∧ s.between.get 0 0 = 2 := by
  subst hs
  constructor
  · refine Square.ext fun i j => ?_
    rw [Scatter.get_within, Square.zero, Square.get_ofFn]
    simp [Scatter.get_around, OrderedScalar.mean_eq]
  · rw [Scatter.get_between]
    simp only [Scatter.get_ofMean, Vec.get_mean]
    simp [OrderedScalar.mean_eq, Vector.get]
    norm_num

theorem exists_optimize_twoPoints (lambda : ℝ) :
    ∃ projector, (Discriminant.mk lambda).optimize twoPoints = .ok projector := by
  obtain ⟨s, hs⟩ : ∃ s : Scatter ℝ 1, s = Scatter.ofGroups Scalar.mean [[#v[0]], [#v[2]]] := ⟨_, rfl⟩
  have hscatter : Scatter.ofDataset Scalar.laneMean (twoPoints.keepColumns [0]) = .ok s := by
    rw [hs]
    exact (Scatter.ofDataset_eq (d := twoPoints.keepColumns [0]) rfl).2
  obtain ⟨hwithin, hbetween⟩ := scatter_twoPoints hs
  have hsum : ((Discriminant.mk lambda).blend s.within).add s.between = s.between := by
    refine Square.ext fun i j => ?_
    rw [Square.add, Square.get_ofFn, Discriminant.get_blend, hwithin, Square.zero, Square.get_ofFn]
    simp
  obtain ⟨v, hv⟩ := exists_solveGeneralized_one (L := Nat) exactSpectra_real epsilon_lt_one
    (a := s.between) (by rw [hbetween]; exact two_pos)
  refine ⟨canonicalize (widen 1 [0] v.toList), ?_⟩
  unfold Discriminant.optimize
  rw [varyingColumns_twoPoints]
  dsimp only
  rw [hscatter]
  show solveGeneralized (((Discriminant.mk lambda).blend s.within).add s.between) s.between >>=
    (fun w => .ok (canonicalize (widen 1 [0] w.toList))) = _
  rw [hsum, hv]
  rfl

/-- A point is solved against itself, and no projector of two points separates them better than the
direction that is found. -/
theorem optimize_optimal_twoPoints : ∃ (u : Vec ℝ 1) (projector v : List ℝ) (ratio : ℝ),
    solveGeneralized (L := Nat) (Square.diagonal #v[2]) (Square.diagonal #v[2]) = .ok u ∧
      (∃ i, u.get i ≠ 0) ∧ (Discriminant.mk (1 / 2 : ℝ)).optimize twoPoints = .ok projector ∧
      projector = canonicalize v ∧
      (∀ a : ℝ, ∃ i, (Discriminant.mk (1 / 2)).index twoPoints [a] = .ok i ∧ i ≤ ratio) ∧
      (Discriminant.mk (1 / 2)).index twoPoints v = .ok ratio := by
  obtain ⟨hsolve, hsearch⟩ := optimize_optimal (L := Nat) exactSpectra_real
  have hsymm : (Square.diagonal (#v[2] : Vec ℝ 1)).transpose = Square.diagonal #v[2] :=
    Square.matrix_injective (by
      rw [Square.matrix_transpose, Square.matrix_diagonal, Matrix.diagonal_transpose])
  have hnonneg : (Square.diagonal (#v[2] : Vec ℝ 1)).NonNegative := fun u => by
    rw [Square.quadratic_eq, Square.matrix_diagonal]
    simp [dotProduct, Matrix.mulVec_diagonal, Vector.get, mul_left_comm, mul_self_nonneg]
  obtain ⟨u, hu⟩ := exists_solveGeneralized_one (L := Nat) exactSpectra_real epsilon_lt_one
    (a := Square.diagonal #v[2]) (by simp [Square.diagonal, Vector.get])
  obtain ⟨projector, hprojector⟩ := exists_optimize_twoPoints (1 / 2)
  obtain ⟨s, a, v, ratio, -, -, -, hcanonical, hone, -, hlargest, hself, -⟩ :=
    hsearch (1 / 2) (by norm_num) (by norm_num) twoPoints projector hprojector
  refine ⟨u, projector, v, ratio, hu, (hsolve 1 _ _ hsymm hsymm hnonneg u hu).1, hprojector, hcanonical,
    fun c => hlargest [c] rfl fun j hj hout => ?_, hself (by rw [hone]; exact epsilon_lt_one)⟩
  rw [varyingColumns_twoPoints] at hout
  exact absurd (List.mem_singleton.2 (Nat.lt_one_iff.1 hj)) hout

end PursuitForest
