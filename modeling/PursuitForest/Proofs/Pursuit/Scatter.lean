import Mathlib.Algebra.BigOperators.Group.List.Lemmas
import Mathlib.Algebra.BigOperators.Ring.List
import PursuitForest.Proofs.Dataset.Relabelling
import PursuitForest.Proofs.Linear.Matrices
import PursuitForest.Pursuit.Scatter
/-!
The scatter of exact scalars.

The entries of the scatter are sums of products of deviations from means. In every class these
products, taken around any centre, exceed those around the mean of the class by what the mean itself
contributes (`sum_products_around`), so the scatter within the classes and between them is that of all
rows around their mean. Neither part sees the order of rows or classes, and both are sums of squares.
Columns that are shifted, put in other units or left out change no other column
(`Scatter.rescaledBy_ofGroups`).
-/

namespace PursuitForest

variable {K L : Type} [OrderedScalar K] {m n : Nat}

/-! ### Deviations from means -/

namespace OrderedScalar

/-- The mean of a sum in lanes is the mean. -/
theorem laneMean_eq_mean : (Scalar.laneMean : List K → K) = Scalar.mean := by
  funext xs
  rw [Scalar.laneMean, Scalar.mean, laneSum_eq_sum, sum_eq_sum]

theorem mean_perm {xs ys : List K} (h : xs.Perm ys) : Scalar.mean xs = Scalar.mean ys := by
  rw [mean_eq, mean_eq, h.sum_eq, h.length_eq]

section
variable {α : Type} (xs : List α) (f g : α → K)

theorem sum_map_sub_const (c : K) :
    (xs.map fun x => f x - c).sum = (xs.map f).sum - xs.length * c := by
  induction xs with
  | nil => simp
  | cons x xs ih =>
    rw [List.map_cons, List.sum_cons, ih, List.map_cons, List.sum_cons, List.length_cons]
    push_cast
    ring

theorem sum_map_div (c : K) : (xs.map fun x => f x / c).sum = (xs.map f).sum / c := by
  simp only [div_eq_mul_inv, List.sum_map_mul_right]

/-- Deviations from the mean cancel. -/
theorem sum_deviations : (xs.map fun x => f x - Scalar.mean (xs.map f)).sum = 0 := by
  rw [sum_map_sub_const, mean_eq, List.length_map]
  by_cases hlength : (xs.length : K) = 0
  · have hnil : xs = [] := by simpa using hlength
    simp [hnil]
  · rw [mul_div_cancel₀ _ hlength, sub_self]

/-- Products of deviations from any centre are those of deviations from the means, and those of the
means from the centre, once per term. -/
theorem sum_products_around (c e : K) :
    (xs.map fun x => (f x - c) * (g x - e)).sum =
      (xs.map fun x => (f x - Scalar.mean (xs.map f)) * (g x - Scalar.mean (xs.map g))).sum +
        xs.length * ((Scalar.mean (xs.map f) - c) * (Scalar.mean (xs.map g) - e)) := by
  have hf := sum_deviations xs f
  have hg := sum_deviations xs g
  generalize Scalar.mean (xs.map f) = a at hf ⊢
  generalize Scalar.mean (xs.map g) = b at hg ⊢
  have hterm : ∀ x, (f x - c) * (g x - e) =
      (f x - a) * (g x - b) + ((f x - a) * (b - e) + ((a - c) * (g x - b) + (a - c) * (b - e))) :=
    fun x => by ring
  -- the mixed products add up to nothing, for the deviations from a mean do
  simp only [hterm, List.sum_map_add, List.sum_map_mul_right, List.sum_map_mul_left, hf, hg,
    List.map_const', List.sum_replicate, nsmul_eq_mul]
  ring

/-- The mean follows a shift and a change of units. -/
theorem mean_sub_div (hxs : xs ≠ []) (c s : K) :
    Scalar.mean (xs.map fun x => (f x - c) / s) = (Scalar.mean (xs.map f) - c) / s := by
  have hlength : (xs.length : K) ≠ 0 := by simpa using hxs
  rw [mean_eq, mean_eq, List.length_map, List.length_map, sum_map_div, sum_map_sub_const]
  field_simp

end

end OrderedScalar

namespace Vec

theorem get_sub (u v : Vec K n) (i : Fin n) : (Vec.sub u v).get i = u.get i - v.get i :=
  get_ofFn _ i

omit [OrderedScalar K] in
theorem get_mean (average : List K → K) (vs : List (Vec K n)) (i : Fin n) :
    (Vec.mean average vs).get i = average (vs.map (·.get i)) :=
  get_ofFn _ i

theorem get_ofRow (n : Nat) (row : List K) (i : Fin n) : (Vec.ofRow n row).get i = row.getD i 0 := by
  rw [ofRow, get_ofFn]
  simp

theorem mean_perm {vs ws : List (Vec K n)} (h : vs.Perm ws) :
    Vec.mean Scalar.mean vs = Vec.mean Scalar.mean ws := by
  rw [Vec.mean, Vec.mean]
  exact congrArg Vector.ofFn (funext fun i => OrderedScalar.mean_perm (h.map _))

end Vec

namespace Scatter

/-! ### Entries -/

theorem get_gram (vs : List (Vec K n)) (i j : Fin n) :
    (gram vs).get i j = (vs.map fun v => v.get i * v.get j).sum := by
  rw [gram, Square.get_ofFn, OrderedScalar.fusedDot_eq_innerProduct, Vec.get_ofFn, Vec.get_ofFn,
    innerProduct, List.zipWith_map, List.zipWith_self]

theorem get_around (average : List K → K) (vs : List (Vec K n)) (i j : Fin n) :
    (around average vs).get i j = (vs.map fun v =>
      (v.get i - average (vs.map (·.get i))) * (v.get j - average (vs.map (·.get j)))).sum := by
  rw [around, get_gram, List.map_map]
  refine congrArg List.sum (List.map_congr_left fun v _ => ?_)
  show (Vec.sub v _).get i * (Vec.sub v _).get j = _
  rw [Vec.get_sub, Vec.get_sub, Vec.get_mean, Vec.get_mean]

theorem get_ofMean (average : List K → K) (center : Vec K n) (vs : List (Vec K n)) (i j : Fin n) :
    (ofMean average center vs).get i j = vs.length *
      ((average (vs.map (·.get i)) - center.get i) * (average (vs.map (·.get j)) - center.get j)) := by
  rw [ofMean, Square.get_ofFn, Vec.get_sub, Vec.get_sub, Vec.get_mean, Vec.get_mean]
  rfl

theorem get_foldl_add {α : Type} (f : α → Square K n) (i j : Fin n) : ∀ (xs : List α)
    (a : Square K n), (xs.foldl (fun a x => a.add (f x)) a).get i j =
      a.get i j + (xs.map fun x => (f x).get i j).sum
  | [], a => by simp
  | x :: xs, a => by
      rw [List.foldl_cons, get_foldl_add f i j xs, Square.add, Square.get_ofFn, List.map_cons,
        List.sum_cons, add_assoc]

theorem get_within (average : List K → K) (groups : List (List (Vec K n))) (i j : Fin n) :
    (ofGroups average groups).within.get i j =
      (groups.map fun vs => (around average vs).get i j).sum := by
  rw [ofGroups, get_foldl_add, Square.zero, Square.get_ofFn, zero_add]

theorem get_between (average : List K → K) (groups : List (List (Vec K n))) (i j : Fin n) :
    (ofGroups average groups).between.get i j =
      (groups.map fun vs =>
        (ofMean average (Vec.mean average groups.flatten) vs).get i j).sum := by
  rw [ofGroups, get_foldl_add, Square.zero, Square.get_ofFn, zero_add]

/-! ### Decomposition -/

/-- The products around a centre, of all vectors, are those within the groups and those of the means of
the groups. -/
theorem sum_around (center : Vec K n) (i j : Fin n) : ∀ groups : List (List (Vec K n)),
    (groups.flatten.map fun v => (v.get i - center.get i) * (v.get j - center.get j)).sum =
      (groups.map fun vs => (around Scalar.mean vs).get i j).sum +
        (groups.map fun vs => (ofMean Scalar.mean center vs).get i j).sum
  | [] => by simp
  | vs :: groups => by
      simp only [List.flatten_cons, List.map_append, List.sum_append, List.map_cons, List.sum_cons]
      rw [sum_around center i j groups, OrderedScalar.sum_products_around, get_around, get_ofMean]
      ring

/-- The scatter within groups and between them is the scatter of all vectors. -/
theorem within_add_between (groups : List (List (Vec K n))) :
    (ofGroups Scalar.mean groups).within.add (ofGroups Scalar.mean groups).between =
      around Scalar.mean groups.flatten := by
  refine Square.ext fun i j => ?_
  rw [Square.add, Square.get_ofFn, get_within, get_between, ← sum_around, get_around]
  simp only [Vec.get_mean]

/-! ### Symmetry and sign -/

theorem transpose_within (average : List K → K) (groups : List (List (Vec K n))) :
    (ofGroups average groups).within.transpose = (ofGroups average groups).within := by
  refine Square.ext fun i j => ?_
  rw [Square.transpose, Square.get_ofFn, get_within, get_within]
  simp only [get_around, mul_comm]

theorem transpose_between (average : List K → K) (groups : List (List (Vec K n))) :
    (ofGroups average groups).between.transpose = (ofGroups average groups).between := by
  refine Square.ext fun i j => ?_
  rw [Square.transpose, Square.get_ofFn, get_between, get_between]
  simp only [get_ofMean, mul_comm]

theorem nonNegative_gram : ∀ vs : List (Vec K n), (gram vs).NonNegative
  | [] => fun v => by
      have hzero := Square.quadratic_of_products (a := gram []) (u := 0) (c := 0)
        (fun i j => by rw [get_gram]; simp) v
      rw [hzero, zero_mul]
  | u :: vs => by
      -- the products of the first vector are a matrix of their own
      have hgram : gram (u :: vs) =
          (Square.ofFn fun i j => 1 * (u.get i * u.get j)).add (gram vs) := Square.ext fun i j => by
        rw [Square.add, Square.get_ofFn, Square.get_ofFn, get_gram, get_gram, List.map_cons,
          List.sum_cons, one_mul]
      rw [hgram]
      refine Square.NonNegative.add (fun v => ?_) (nonNegative_gram vs)
      rw [Square.quadratic_of_products (Square.get_ofFn _) v, one_mul]
      exact mul_self_nonneg _

theorem nonNegative_ofMean (average : List K → K) (center : Vec K n) (vs : List (Vec K n)) :
    (ofMean average center vs).NonNegative := fun v => by
  rw [ofMean, Square.quadratic_of_products (Square.get_ofFn _) v]
  exact mul_nonneg (Nat.cast_nonneg vs.length) (mul_self_nonneg _)

theorem nonNegative_foldl_add {α : Type} {f : α → Square K n} (hf : ∀ x, (f x).NonNegative) :
    ∀ (xs : List α) {a : Square K n}, a.NonNegative →
      (xs.foldl (fun a x => a.add (f x)) a).NonNegative
  | [], _, ha => ha
  | x :: xs, _, ha => nonNegative_foldl_add hf xs (ha.add (hf x))

theorem nonNegative_within (average : List K → K) (groups : List (List (Vec K n))) :
    (ofGroups average groups).within.NonNegative :=
  nonNegative_foldl_add (fun _ => nonNegative_gram _) groups .zero

theorem nonNegative_between (average : List K → K) (groups : List (List (Vec K n))) :
    (ofGroups average groups).between.NonNegative :=
  nonNegative_foldl_add (nonNegative_ofMean average _) groups .zero

/-! ### Other orders -/

theorem around_perm {vs ws : List (Vec K n)} (h : vs.Perm ws) :
    around Scalar.mean vs = around Scalar.mean ws := by
  refine Square.ext fun i j => ?_
  rw [around, around, get_gram, get_gram, Vec.mean_perm h]
  exact ((h.map _).map _).sum_eq

theorem ofMean_perm (center : Vec K n) {vs ws : List (Vec K n)} (h : vs.Perm ws) :
    ofMean Scalar.mean center vs = ofMean Scalar.mean center ws := by
  rw [ofMean, ofMean, Vec.mean_perm h, h.length_eq]

/-- Groups have the same scatter in any order. -/
theorem ofGroups_perm {groups groups' : List (List (Vec K n))} (h : groups.Perm groups') :
    ofGroups Scalar.mean groups = ofGroups Scalar.mean groups' := by
  have hwithin : (ofGroups Scalar.mean groups).within = (ofGroups Scalar.mean groups').within :=
    Square.ext fun i j => by
      rw [get_within, get_within]
      exact (h.map _).sum_eq
  have hbetween : (ofGroups Scalar.mean groups).between = (ofGroups Scalar.mean groups').between :=
    Square.ext fun i j => by
      rw [get_between, get_between, Vec.mean_perm h.flatten]
      exact (h.map _).sum_eq
  exact congrArg₂ Scatter.mk hwithin hbetween

omit [OrderedScalar K] in
theorem flatten_perm_of_forall₂ : ∀ {groups groups' : List (List (Vec K n))},
    List.Forall₂ List.Perm groups groups' → groups.flatten.Perm groups'.flatten
  | _, _, .nil => .nil
  | _, _, .cons h hs => h.append (flatten_perm_of_forall₂ hs)

/-- The vectors of a group may stand in any order. -/
theorem ofGroups_forall₂ {groups groups' : List (List (Vec K n))}
    (h : List.Forall₂ List.Perm groups groups') :
    ofGroups Scalar.mean groups = ofGroups Scalar.mean groups' := by
  have hmap : ∀ {f : List (Vec K n) → K}, (∀ vs ws, vs.Perm ws → f vs = f ws) →
      groups.map f = groups'.map f := fun {f} hf =>
    List.forall₂_eq_eq_eq ▸ List.forall₂_map_left_iff.2 (List.forall₂_map_right_iff.2
      (h.imp fun vs ws hperm => hf vs ws hperm))
  have hwithin : (ofGroups Scalar.mean groups).within = (ofGroups Scalar.mean groups').within :=
    Square.ext fun i j => by
      rw [get_within, get_within, hmap fun vs ws hperm => by rw [around_perm hperm]]
  have hbetween : (ofGroups Scalar.mean groups).between = (ofGroups Scalar.mean groups').between :=
    Square.ext fun i j => by
      rw [get_between, get_between, Vec.mean_perm (flatten_perm_of_forall₂ h),
        hmap fun vs ws hperm => by rw [ofMean_perm _ hperm]]
  exact congrArg₂ Scatter.mk hwithin hbetween

/-! ### Columns in other units -/

/-- Vectors with some of the components of others, each shifted and in its own unit. -/
structure Affine (place : Fin m → Fin n) (shift unit : Fin m → K) (f : Vec K n → Vec K m) : Prop where
  get_eq : ∀ v i, (f v).get i = (v.get (place i) - shift i) / unit i

section
variable {place : Fin m → Fin n} {shift unit : Fin m → K} {f : Vec K n → Vec K m}

theorem Affine.mean_eq (hf : Affine place shift unit f) {vs : List (Vec K n)} (hvs : vs ≠ [])
    (i : Fin m) : Scalar.mean ((vs.map f).map (·.get i)) =
      (Scalar.mean (vs.map (·.get (place i))) - shift i) / unit i := by
  rw [List.map_map, ← OrderedScalar.mean_sub_div vs _ hvs]
  exact congrArg Scalar.mean (List.map_congr_left fun v _ => hf.get_eq v i)

theorem Affine.around (hf : Affine place shift unit f) {vs : List (Vec K n)} (hvs : vs ≠ []) :
    (around Scalar.mean (vs.map f)).RescaledBy place unit (around Scalar.mean vs) := fun i j => by
  rw [get_around, get_around, hf.mean_eq hvs, hf.mean_eq hvs, List.map_map,
    ← OrderedScalar.sum_map_div]
  refine congrArg List.sum (List.map_congr_left fun v _ => ?_)
  show ((f v).get i - _) * ((f v).get j - _) = _
  rw [hf.get_eq, hf.get_eq, ← sub_div, ← sub_div, div_mul_div_comm, sub_sub_sub_cancel_right,
    sub_sub_sub_cancel_right]

theorem Affine.ofMean (hf : Affine place shift unit f) {vs all : List (Vec K n)} (hvs : vs ≠ [])
    (hall : all ≠ []) :
    (ofMean Scalar.mean (Vec.mean Scalar.mean (all.map f)) (vs.map f)).RescaledBy place unit
      (ofMean Scalar.mean (Vec.mean Scalar.mean all) vs) := fun i j => by
  rw [get_ofMean, get_ofMean, Vec.get_mean, Vec.get_mean, Vec.get_mean, Vec.get_mean,
    hf.mean_eq hvs, hf.mean_eq hvs, hf.mean_eq hall, hf.mean_eq hall, List.length_map, ← sub_div,
    ← sub_div, div_mul_div_comm, sub_sub_sub_cancel_right, sub_sub_sub_cancel_right,
    ← mul_div_assoc]

/-- Scatter follows a shift, a change of units and a choice of components. -/
theorem rescaledBy_ofGroups (hf : Affine place shift unit f) {groups : List (List (Vec K n))}
    (hgroups : ∀ vs ∈ groups, vs ≠ []) :
    (ofGroups Scalar.mean (groups.map (·.map f))).within.RescaledBy place unit
        (ofGroups Scalar.mean groups).within ∧
      (ofGroups Scalar.mean (groups.map (·.map f))).between.RescaledBy place unit
        (ofGroups Scalar.mean groups).between := by
  constructor
  · intro i j
    rw [get_within, get_within, List.map_map, ← OrderedScalar.sum_map_div]
    exact congrArg List.sum (List.map_congr_left fun vs hvs => hf.around (hgroups vs hvs) i j)
  · intro i j
    rw [get_between, get_between, List.map_map, ← OrderedScalar.sum_map_div, ← List.map_flatten]
    refine congrArg List.sum (List.map_congr_left fun vs hvs => ?_)
    have hall : groups.flatten ≠ [] := fun hnil =>
      hgroups vs hvs (List.flatten_eq_nil_iff.1 hnil vs hvs)
    exact hf.ofMean (hgroups vs hvs) hall i j

end

end Scatter

/-! ### Observations -/

variable [Label L]

/-- The rows of every class, as vectors. -/
def GroupedDataset.vectors {F : Type} [Scalar F] (d : GroupedDataset F L) :
    List (List (Vec F d.width)) :=
  d.groups.map fun g => g.rows.map (Vec.ofRow d.width)

/-- Observations have a scatter, by either way to take means. -/
theorem Scatter.ofDataset_eq {d : GroupedDataset K L} (hd : d.isEmpty = false) :
    Scatter.ofDataset Scalar.mean d = .ok (ofGroups Scalar.mean d.vectors) ∧
      Scatter.ofDataset Scalar.laneMean d = .ok (ofGroups Scalar.mean d.vectors) := by
  rw [OrderedScalar.laneMean_eq_mean, Scatter.ofDataset, hd]
  exact ⟨rfl, rfl⟩

end PursuitForest
