import Mathlib.Algebra.Order.Field.Basic
import PursuitForest.Proofs.Dataset.RowImages
import PursuitForest.Proofs.Pursuit.Scatter
import PursuitForest.Pursuit.Discriminant
/-!
Separability of exact scalars.

The index of a projector is one share of two quadratic forms, `separability`. A blend of a scatter with
its own diagonal has no negative value while the weight of the diagonal lies between zero and one, so
the share lies between zero and one as well (`Discriminant.exists_index_mem_unit`). Both forms follow a change of units, so a projector in the other
units has the same index (`Discriminant.index_eq_of_image`).
-/

open scoped Matrix

namespace PursuitForest

variable {K L : Type} [OrderedScalar K] {m n : Nat}

/-! ### Shares -/

/-- The share that lies between the classes of the scatter within and between them, or zero where there
is next to none. -/
def separability (within between : K) : K :=
  if Scalar.abs (within + between) ≤ Scalar.epsilon then 0 else 1 - within / (within + between)

section
variable {within between : K}

theorem separability_mem_unit (hw : 0 ≤ within) (hb : 0 ≤ between) :
    0 ≤ separability within between ∧ separability within between ≤ 1 := by
  unfold separability
  split
  · exact ⟨le_rfl, zero_le_one⟩
  · have hle : within / (within + between) ≤ 1 :=
      div_le_one_of_le₀ (le_add_of_nonneg_right hb) (add_nonneg hw hb)
    exact ⟨sub_nonneg.2 hle, sub_le_self 1 (div_nonneg hw (add_nonneg hw hb))⟩

/-- Scatter that is not small is shared in its full proportion. -/
theorem separability_eq_div (h : OrderedScalar.epsilon < within + between) :
    separability within between = between / (within + between) := by
  have hpos : 0 < within + between := OrderedScalar.epsilon_pos.trans h
  have hlarge : ¬ Scalar.abs (within + between) ≤ Scalar.epsilon :=
    not_le.2 (h.trans_le (le_abs_self _))
  rw [separability, if_neg hlarge, one_sub_div hpos.ne', add_sub_cancel_left]

/-- The share is at most the full proportion. -/
theorem separability_le_div (hw : 0 ≤ within) (hb : 0 ≤ between) :
    separability within between ≤ between / (within + between) := by
  by_cases h : OrderedScalar.epsilon < within + between
  · exact (separability_eq_div h).le
  · have hsmall : Scalar.abs (within + between) ≤ Scalar.epsilon :=
      (abs_of_nonneg (add_nonneg hw hb)).trans_le (not_lt.1 h)
    rw [separability, if_pos hsmall]
    exact div_nonneg hb (add_nonneg hw hb)

end

/-! ### Blending with the diagonal -/

namespace Discriminant

variable (p : Discriminant K)

theorem get_blend (a : Square K n) (i j : Fin n) : (p.blend a).get i j =
    p.lambda * (if i = j then a.get i j else 0) + (1 - p.lambda) * a.get i j := by
  rw [blend, Square.get_ofFn]
  ring

theorem transpose_blend {a : Square K n} (h : a.transpose = a) :
    (p.blend a).transpose = p.blend a := by
  refine Square.ext fun i j => ?_
  rw [Square.transpose, Square.get_ofFn, get_blend, get_blend, Square.get_comm h]
  simp only [eq_comm]

theorem quadratic_blend (a : Square K n) (v : Vec K n) : (p.blend a).quadratic v =
    p.lambda * ∑ i, a.get i i * (v.get i * v.get i) + (1 - p.lambda) * a.quadratic v := by
  have hmatrix : (p.blend a).matrix =
      p.lambda • Matrix.diagonal (fun i => a.get i i) + (1 - p.lambda) • a.matrix := by
    ext i j
    rw [Square.matrix_apply, get_blend, Matrix.add_apply, Matrix.smul_apply, Matrix.smul_apply,
      Matrix.diagonal_apply, Square.matrix_apply, smul_eq_mul, smul_eq_mul]
    split
    · next h => rw [h]
    · rfl
  have hdiagonal : v.get ⬝ᵥ Matrix.diagonal (fun i => a.get i i) *ᵥ v.get =
      ∑ i, a.get i i * (v.get i * v.get i) := by
    simp only [Matrix.mulVec_diagonal, dotProduct]
    exact Finset.sum_congr rfl fun i _ => by ring
  rw [Square.quadratic_eq, Square.quadratic_eq, hmatrix, Matrix.add_mulVec, Matrix.smul_mulVec,
    Matrix.smul_mulVec, dotProduct_add, dotProduct_smul, dotProduct_smul, hdiagonal, smul_eq_mul,
    smul_eq_mul]

variable {p}

/-- A blend of a form without negative values with its diagonal has none. -/
theorem nonNegative_blend (h₀ : 0 ≤ p.lambda) (h₁ : p.lambda ≤ 1) {a : Square K n}
    (ha : a.NonNegative) : (p.blend a).NonNegative := fun v => by
  rw [quadratic_blend]
  refine add_nonneg (mul_nonneg h₀ (Finset.sum_nonneg fun i _ => ?_))
    (mul_nonneg (sub_nonneg.2 h₁) (ha v))
  exact mul_nonneg (ha.diagonal_nonneg i) (mul_self_nonneg _)

/-- The diagonal stays the diagonal in other units. -/
theorem rescaledBy_blend {a : Square K m} {b : Square K n} {place : Fin m → Fin n}
    {unit : Fin m → K} (hplace : Function.Injective place) (h : a.RescaledBy place unit b) :
    (p.blend a).RescaledBy place unit (p.blend b) := fun i j => by
  rw [get_blend, get_blend, h]
  by_cases hij : i = j
  · subst hij
    rw [if_pos rfl, if_pos rfl, ← mul_div_assoc, ← mul_div_assoc, ← add_div]
  · rw [if_neg hij, if_neg (hplace.ne hij), mul_zero, zero_add, zero_add, mul_div_assoc]

end Discriminant

/-! ### The index of a projector -/

variable [Label L] {d e : GroupedDataset K L} {projector : List K} {p : Discriminant K}

/-- The quadratic forms that the index of a projector is a share of: the blended scatter within the
classes, and the scatter between them. -/
def Discriminant.forms (p : Discriminant K) (d : GroupedDataset K L) (projector : List K) : K × K :=
  let s := Scatter.ofGroups Scalar.mean d.vectors
  let v := Vec.ofRow d.width projector
  ((p.blend s.within).quadratic v, s.between.quadratic v)

namespace Discriminant

theorem index_eq (hd : d.isEmpty = false) (hp : projector.length = d.width) :
    p.index d projector = .ok (separability (p.forms d projector).1 (p.forms d projector).2) := by
  rw [index, if_neg (not_not_intro hp), (Scatter.ofDataset_eq hd).1, separability]
  exact (apply_ite Except.ok _ _ _).symm

theorem index_of_length_ne (h : projector.length ≠ d.width) : p.index d projector =
    .error (.shapeMismatch .projectorWidth d.width projector.length) := by
  rw [index, if_pos h]
  rfl

theorem index_of_isEmpty (hd : d.isEmpty = true) (hp : projector.length = d.width) :
    p.index d projector = .error (.parameter .scatterWithoutRows) := by
  rw [index, if_neg (not_not_intro hp), Scatter.ofDataset, if_pos hd]
  rfl

/-- Only a projector as long as the rows of some observations are wide has an index. -/
theorem of_index_eq_ok {i : K} (h : p.index d projector = .ok i) :
    d.isEmpty = false ∧ projector.length = d.width := by
  have hp : projector.length = d.width := by
    by_contra hp
    cases (index_of_length_ne hp).symm.trans h
  refine ⟨Bool.not_eq_true _ ▸ fun hd => ?_, hp⟩
  cases (index_of_isEmpty hd hp).symm.trans h

theorem forms_nonneg (h₀ : 0 ≤ p.lambda) (h₁ : p.lambda ≤ 1) (d : GroupedDataset K L)
    (projector : List K) : 0 ≤ (p.forms d projector).1 ∧ 0 ≤ (p.forms d projector).2 :=
  ⟨nonNegative_blend h₀ h₁ (Scatter.nonNegative_within _ _) _, Scatter.nonNegative_between _ _ _⟩

/-- Both forms together are the form of the sum of the scatters. -/
theorem quadratic_add_between (p : Discriminant K) (d : GroupedDataset K L) (v : List K) :
    ((p.blend (Scatter.ofGroups Scalar.mean d.vectors).within).add
        (Scatter.ofGroups Scalar.mean d.vectors).between).quadratic (Vec.ofRow d.width v) =
      (p.forms d v).1 + (p.forms d v).2 :=
  Square.quadratic_add _ _ _

/-- The forms at a vector of another length. -/
theorem forms_div (p : Discriminant K) (d : GroupedDataset K L) (v : List K) (c : K) :
    p.forms d (v.map (· / c)) = ((p.forms d v).1 / (c * c), (p.forms d v).2 / (c * c)) := by
  have hget : ∀ i, (Vec.ofRow d.width (v.map (· / c))).get i = (Vec.ofRow d.width v).get i / c :=
    fun i => by
      rw [Vec.get_ofRow, Vec.get_ofRow, List.getD_eq_getElem?_getD, List.getD_eq_getElem?_getD,
        List.getElem?_map]
      cases v[(i : Nat)]? with
      | none => exact (zero_div c).symm
      | some a => rfl
  exact Prod.ext (Square.quadratic_div _ hget) (Square.quadratic_div _ hget)

/-- Every projector has an index, between zero and one. -/
theorem exists_index_mem_unit (h₀ : 0 ≤ p.lambda) (h₁ : p.lambda ≤ 1) (hd : d.isEmpty = false)
    (hp : projector.length = d.width) :
    ∃ i, p.index d projector = .ok i ∧ 0 ≤ i ∧ i ≤ 1 := by
  obtain ⟨hw, hb⟩ := forms_nonneg h₀ h₁ d projector
  exact ⟨_, index_eq hd hp, separability_mem_unit hw hb⟩

theorem mem_unit_of_index_eq_ok (h₀ : 0 ≤ p.lambda) (h₁ : p.lambda ≤ 1) {i : K}
    (h : p.index d projector = .ok i) : 0 ≤ i ∧ i ≤ 1 := by
  obtain ⟨hd, hp⟩ := of_index_eq_ok h
  obtain ⟨i', hi', hmem⟩ := exists_index_mem_unit h₀ h₁ hd hp
  obtain rfl : i = i' := Except.ok.inj (h.symm.trans hi')
  exact hmem

end Discriminant

/-! ### Images of rows -/

/-- Rows that keep some of the columns, each shifted and in its own unit. -/
structure Recolumned (d : GroupedDataset K L) (width : Nat) (place : Fin width → Fin d.width)
    (shift unit : Fin width → K) (f : List K → List K) : Prop where
  getD_eq : ∀ r, r.length = d.width → ∀ i : Fin width,
    (f r).getD i 0 = (r.getD (place i) 0 - shift i) / unit i

section
variable {f : List K → List K} {place : Fin e.width → Fin d.width} {shift unit : Fin e.width → K}

/-- The scatter of images of rows. -/
theorem Recolumned.rescaledBy (hf : Recolumned d e.width place shift unit f)
    (h : GroupedDataset.ImageOf f e d) :
    (Scatter.ofGroups Scalar.mean e.vectors).within.RescaledBy place unit
        (Scatter.ofGroups Scalar.mean d.vectors).within ∧
      (Scatter.ofGroups Scalar.mean e.vectors).between.RescaledBy place unit
        (Scatter.ofGroups Scalar.mean d.vectors).between := by
  let image : Vec K d.width → Vec K e.width := fun v =>
    Vector.ofFn fun i => (v.get (place i) - shift i) / unit i
  have haffine : Scatter.Affine place shift unit image := ⟨fun v i => Vec.get_ofFn _ i⟩
  have hrow : ∀ r, r.length = d.width → Vec.ofRow e.width (f r) = image (Vec.ofRow d.width r) :=
    fun r hr => by
      refine congrArg Vector.ofFn (funext fun i => ?_)
      have hget := hf.getD_eq r hr i
      rw [Vec.get_ofRow]
      simpa using hget
  have hvectors : e.vectors = d.vectors.map (·.map image) := by
    rw [GroupedDataset.vectors, GroupedDataset.vectors, h, List.map_map, List.map_map]
    refine List.map_congr_left fun g hg => ?_
    show (g.rows.map f).map _ = (g.rows.map _).map image
    rw [List.map_map, List.map_map]
    exact List.map_congr_left fun r hr => hrow r (d.shaped g hg r hr)
  rw [hvectors]
  refine Scatter.rescaledBy_ofGroups haffine fun vs hvs => ?_
  obtain ⟨g, hg, rfl⟩ := List.mem_map.1 hvs
  simpa using d.inhabited g hg

variable {scaled : List K}

/-- A projector in corresponding units has the same forms, if the columns that are left out have no
weight. -/
theorem Discriminant.forms_eq_of_image (hf : Recolumned d e.width place shift unit f)
    (h : GroupedDataset.ImageOf f e d) (hplace : Function.Injective place) (hunit : ∀ i, unit i ≠ 0)
    (hscaled : ∀ i : Fin e.width, scaled.getD i 0 = projector.getD (place i) 0 * unit i)
    (hzero : ∀ j : Fin d.width, j ∉ Set.range place → projector.getD j 0 = 0) :
    p.forms e scaled = p.forms d projector := by
  obtain ⟨hwithin, hbetween⟩ := hf.rescaledBy h
  have hx : ∀ i : Fin e.width, (Vec.ofRow e.width scaled).get i =
      (Vec.ofRow d.width projector).get (place i) * unit i := fun i => by
    rw [Vec.get_ofRow, Vec.get_ofRow, hscaled]
  have hy : ∀ j : Fin d.width, j ∉ Set.range place → (Vec.ofRow d.width projector).get j = 0 :=
    fun j hj => (Vec.get_ofRow _ _ j).trans (hzero j hj)
  exact Prod.ext ((rescaledBy_blend hplace hwithin).quadratic_eq hplace hunit hx hy)
    (hbetween.quadratic_eq hplace hunit hx hy)

/-- A projector in corresponding units has the same index. -/
theorem Discriminant.index_eq_of_image (hf : Recolumned d e.width place shift unit f)
    (h : GroupedDataset.ImageOf f e d) (hplace : Function.Injective place) (hunit : ∀ i, unit i ≠ 0)
    (hscaled : ∀ i : Fin e.width, scaled.getD i 0 = projector.getD (place i) 0 * unit i)
    (hzero : ∀ j : Fin d.width, j ∉ Set.range place → projector.getD j 0 = 0)
    (hd : d.isEmpty = false) (hp : projector.length = d.width) (hs : scaled.length = e.width) :
    p.index e scaled = p.index d projector := by
  rw [index_eq (h.isEmpty_eq.trans hd) hs, index_eq hd hp,
    forms_eq_of_image hf h hplace hunit hscaled hzero]

end

end PursuitForest
