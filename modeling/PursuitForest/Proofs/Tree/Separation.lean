import PursuitForest.Proofs.Scalar.RoundedScalar
import PursuitForest.Proofs.Tree.DrawnColumns
import PursuitForest.Random.Xoshiro
/-!
On which sides of the threshold the means lie when it is rounded.

Two means that differ by more than rounding have a threshold strictly between them as long as their
sum is finite (`RoundedScalar.abs_threshold_sub_lt`): the sum loses less than the distance of the
means, and halving loses nothing or next to nothing. Whether they differ by more than rounding is told
without a loss, since the bound itself is not rounded (`RoundedScalar.lt_abs_sub`).

Means whose sum is not finite are not separated. A mean that is no number, and two infinite means of
one sign, have no distance, and this does not count as a distance within rounding; and the sum of two
large means of one sign may be too large although they are not (`RoundedScalar.separatesFinite`).
-/

namespace PursuitForest

open Float.Model.UnpackedFloat (Sign)

/-- The means of two groups lie on either side of the threshold, and rows with these projections are
sent to the sides of the groups. -/
structure Split.Separates {F L : Type} [Scalar F] (s : Split F L) (lower upper : F) : Prop where
  lt : lower < s.threshold
  le : s.threshold ≤ upper
  side_lower : Node.side s.threshold lower = .lower
  side_upper : Node.side s.threshold upper = .upper

/-- Orienting two groups fails, or ends with a split that separates their means exactly if the sum of
these is finite. -/
def SeparatesFinite (F L : Type) [Scalar F] (finite : F → Prop) : Prop :=
  ∀ (projector : List F) (a b : L) (x y : F),
    orient projector [(a, x), (b, y)] = .error (.degenerate (.equalMeans a b x)) ∨
    ∃ split lower upper, orient projector [(a, x), (b, y)] = .ok split ∧
      (((split.lower, lower) = (a, x) ∧ (split.upper, upper) = (b, y)) ∨
        ((split.lower, lower) = (b, y) ∧ (split.upper, upper) = (a, x))) ∧
      (split.Separates lower upper ↔ finite (x + y))

/-! ### The threshold of finite means -/

/-- A sum that loses a share of its size, and half of it that loses next to nothing, is nearer to the
middle of two numbers than these are. -/
theorem abs_middle_sub_lt {x y bound share unit sum middle : ℚ} (hshare : 0 < share)
    (hone : share ≤ 1) (hpos : 0 ≤ unit) (hunit : unit ≤ share * share / 2) (hbound : 1 ≤ bound)
    (hx : |x| ≤ bound) (hy : |y| ≤ bound) (hdistance : share * bound < |x - y|)
    (hsum : |sum - (x + y)| ≤ unit / 2 ∨ |sum - (x + y)| ≤ |x + y| * (share / 2))
    (hmiddle : middle = sum / 2 ∨ |middle - sum / 2| ≤ unit / 2) :
    |middle - (x + y) / 2| < |x - y| / 2 := by
  have hends : |x + y| + |x - y| ≤ 2 * bound := by
    rw [abs_le] at hx hy
    rcases abs_cases (x + y) with ⟨hs, -⟩ | ⟨hs, -⟩ <;>
      rcases abs_cases (x - y) with ⟨hd, -⟩ | ⟨hd, -⟩ <;> linarith
  have hfar : share < |x - y| := (le_mul_of_one_le_right hshare.le hbound).trans_lt hdistance
  have hhalf : |middle - sum / 2| ≤ unit / 2 := by
    rcases hmiddle with rfl | hlost
    · rw [sub_self, abs_zero]
      linarith
    · exact hlost
  have htotal : |middle - (x + y) / 2| ≤ unit / 2 + |sum - (x + y)| / 2 := by
    calc |middle - (x + y) / 2| = |(middle - sum / 2) + (sum - (x + y)) / 2| := by ring_nf
      _ ≤ |middle - sum / 2| + |(sum - (x + y)) / 2| := abs_add_le _ _
      _ ≤ unit / 2 + |sum - (x + y)| / 2 := by
          rw [abs_div, abs_two]
          linarith
  rcases hsum with hlost | hlost
  · have hsquare : share * share ≤ share := mul_le_of_le_one_left hshare.le hone
    linarith
  · have hsquare : share * share < share * |x - y| := mul_lt_mul_of_pos_left hfar hshare
    have hsize : |x + y| * share ≤ (2 * bound - |x - y|) * share :=
      mul_le_mul_of_nonneg_right (by linarith) hshare.le
    linarith

namespace RoundedScalar

variable {F : Type} [Scalar F] [RoundedScalar F] {x y : F}

/-- Means that differ by more than rounding do so before their difference is rounded. -/
theorem lt_abs_sub (hx : IsFinite x) (hy : IsFinite y)
    (h : ¬ Scalar.abs (x - y) ≤
      Scalar.epsilon * Scalar.larger (Scalar.larger 1 (Scalar.abs x)) (Scalar.abs y)) :
    2 ^ (-(format F).mantissaBitsWithoutImplicit : ℤ) * max (max 1 |val x|) |val y| <
      |val x - val y| := by
  obtain ⟨hone, hvalue⟩ := one_val (F := F)
  obtain ⟨hfirst, hmax⟩ := larger_val hone (abs_val hx).1
  obtain ⟨hscale, hval⟩ := larger_val hfirst (abs_val hy).1
  rw [hmax, (abs_val hx).2, (abs_val hy).2, hvalue] at hval
  obtain ⟨hbound, hproduct⟩ :=
    epsilon_mul_val hscale (hval ▸ (le_max_left _ _).trans (le_max_left _ _))
  rw [← hval, ← hproduct]
  exact not_le.1 fun hle => h (abs_sub_le hx hy hbound hle)

/-- The threshold is nearer to the middle of two means than these are. -/
theorem abs_threshold_sub_lt (hsum : IsFinite (x + y))
    (h : ¬ Scalar.abs (x - y) ≤
      Scalar.epsilon * Scalar.larger (Scalar.larger 1 (Scalar.abs x)) (Scalar.abs y)) :
    |val ((x + y) / Scalar.two) - (val x + val y) / 2| < |val x - val y| / 2 := by
  obtain ⟨hx, hy⟩ := isFinite_terms hsum
  have hbits : (2 : ℚ) ^ (-(format F).mantissaBitsWithoutImplicit : ℤ) / 2 =
      1 / 2 ^ (format F).mantissaBits := by
    rw [Rounding.mantissaBits_eq, zpow_neg, zpow_natCast, pow_succ]
    ring
  have hunit : (2 : ℚ) ^ (format F).minExponent ≤
      2 ^ (-(format F).mantissaBitsWithoutImplicit : ℤ) *
        2 ^ (-(format F).mantissaBitsWithoutImplicit : ℤ) / 2 := by
    have hmin := minExponent_le (F := F)
    rw [Rounding.mantissaBits_eq] at hmin
    push_cast at hmin
    rw [← zpow_add₀ two_ne_zero, div_eq_mul_inv, ← zpow_sub_one₀ two_ne_zero]
    exact zpow_le_zpow_right₀ one_le_two (by omega)
  refine abs_middle_sub_lt (by positivity) (zpow_le_one_of_nonpos₀ one_le_two (by omega))
    (by positivity) hunit ((le_max_left _ _).trans (le_max_left _ _))
    ((le_max_right _ _).trans (le_max_left _ _)) (le_max_right _ _) (lt_abs_sub hx hy h) ?_
    (half_val hsum).2
  refine (roundsTo_add_val hx hy hsum).error.imp_right fun hlost => ?_
  rwa [hbits, mul_one_div]

/-! ### The threshold of other means -/

/-- An infinite mean and a finite one count as equal, since the bound is infinite as well. -/
theorem abs_sub_le_of_infinity (h : unpacked x = .infinity .positive ∧ IsFinite y ∨
    IsFinite x ∧ unpacked y = .infinity .positive) :
    Scalar.abs (x - y) ≤
      Scalar.epsilon * Scalar.larger (Scalar.larger 1 (Scalar.abs x)) (Scalar.abs y) := by
  have hdistance :=
    unpacked_abs_sub (h.imp (.imp_left fun hx => ⟨_, hx⟩) (.imp_right fun hy => ⟨_, hy⟩))
  refine (infinity_le hdistance).2 (unpacked_epsilon_mul (larger_infinity ?_))
  rcases h with ⟨hx, hy⟩ | ⟨hx, hy⟩
  · exact .inl ⟨larger_infinity (.inr ⟨one_val.1, unpacked_abs_infinity hx⟩), (abs_val hy).1⟩
  · exact .inr ⟨(larger_val one_val.1 (abs_val hx).1).1, unpacked_abs_infinity hy⟩

/-- Infinities of opposite signs have no sum. -/
theorem unpacked_add_infinity {s : Sign} (hx : unpacked x = .infinity s)
    (hy : unpacked y = .infinity (-s)) : unpacked (x + y) = .notANumber := by
  rw [unpacked_add, hx, hy]
  cases s <;> exact Rounding.repacked_notANumber

/-- Means that a threshold separates have a finite sum. -/
theorem isFinite_of_separated {lower upper : F}
    (hmeans : lower = x ∧ upper = y ∨ lower = y ∧ upper = x)
    (hlt : lower < (x + y) / Scalar.two) (hle : (x + y) / Scalar.two ≤ upper)
    (h : ¬ Scalar.abs (x - y) ≤
      Scalar.epsilon * Scalar.larger (Scalar.larger 1 (Scalar.abs x)) (Scalar.abs y)) :
    IsFinite (x + y) := by
  by_contra hnot
  rcases not_isFinite_iff.1 hnot with ⟨_ | _, hsum⟩ | hsum
  · exact not_lt_negative_infinity (unpacked_half_infinity hsum) hlt
  · have hupper := (infinity_le (unpacked_half_infinity hsum)).1 hle
    rcases (lt_infinity (unpacked_half_infinity hsum)).1 hlt with hlower | hlower
    · refine h (abs_sub_le_of_infinity ?_)
      rcases hmeans with ⟨rfl, rfl⟩ | ⟨rfl, rfl⟩
      · exact .inr ⟨hlower, hupper⟩
      · exact .inl ⟨hupper, hlower⟩
    · have hnone : unpacked (x + y) = .notANumber := by
        rcases hmeans with ⟨rfl, rfl⟩ | ⟨rfl, rfl⟩
        · exact unpacked_add_infinity hlower hupper
        · exact unpacked_add_infinity hupper hlower
      exact absurd (hnone.symm.trans hsum) nofun
  · exact not_lt_notANumber (unpacked_half_notANumber hsum) hlt

/-- Means that have a finite sum are separated by the threshold. -/
theorem separates_of_isFinite {L : Type} {split : Split F L} {lower upper : F}
    (hmeans : lower = x ∧ upper = y ∧ x < y ∨ lower = y ∧ upper = x ∧ ¬ x < y)
    (hthreshold : split.threshold = (x + y) / Scalar.two)
    (h : ¬ Scalar.abs (x - y) ≤
      Scalar.epsilon * Scalar.larger (Scalar.larger 1 (Scalar.abs x)) (Scalar.abs y))
    (hsum : IsFinite (x + y)) : split.Separates lower upper := by
  obtain ⟨hx, hy⟩ := isFinite_terms hsum
  have hfinite := (half_val hsum).1
  have hnear := abs_lt.1 (abs_threshold_sub_lt hsum h)
  rw [← hthreshold] at hfinite hnear
  have hsides : IsFinite lower ∧ IsFinite upper ∧ val lower < val split.threshold ∧
      val split.threshold < val upper := by
    rcases hmeans with ⟨rfl, rfl, hlt⟩ | ⟨rfl, rfl, hlt⟩
    · have hle := (lt_iff_val hx hy).1 hlt
      rw [abs_of_neg (sub_neg.2 hle)] at hnear
      exact ⟨hx, hy, by linarith [hnear.1], by linarith [hnear.2]⟩
    · have hle := not_lt.1 ((lt_iff_val hx hy).not.1 hlt)
      rw [abs_of_nonneg (sub_nonneg.2 hle)] at hnear
      exact ⟨hy, hx, by linarith [hnear.1], by linarith [hnear.2]⟩
  obtain ⟨hlower, hupper, hbelow, habove⟩ := hsides
  have hlt := (lt_iff_val hlower hfinite).2 hbelow
  have hnot := (lt_iff_val hupper hfinite).not.2 habove.not_gt
  exact ⟨hlt, (le_iff_val hfinite hupper).2 habove.le, if_pos hlt, if_neg hnot⟩

/-- Groups are separated exactly if their means have a finite sum. -/
theorem separatesFinite (L : Type) : SeparatesFinite F L IsFinite := by
  intro projector a b x y
  unfold orient
  dsimp only
  split
  · exact .inl rfl
  · next h =>
    refine .inr ?_
    split
    · next hlt =>
      refine ⟨_, x, y, rfl, .inl ⟨rfl, rfl⟩, fun hs => ?_, ?_⟩
      · exact isFinite_of_separated (.inl ⟨rfl, rfl⟩) hs.lt hs.le h
      · exact separates_of_isFinite (.inl ⟨rfl, rfl, hlt⟩) rfl h
    · next hlt =>
      refine ⟨_, y, x, rfl, .inr ⟨rfl, rfl⟩, fun hs => ?_, ?_⟩
      · exact isFinite_of_separated (.inr ⟨rfl, rfl⟩) hs.lt hs.le h
      · exact separates_of_isFinite (.inr ⟨rfl, rfl, hlt⟩) rfl h

end RoundedScalar

/-- Two groups are oriented with a threshold between their means, whatever these are, unless they are
refused or the sum of the means is not finite: for doubles and for singles. -/
theorem orient_separates (L : Type) : SeparatesFinite Float L (·.isFinite = true) ∧
    SeparatesFinite Float32 L (·.isFinite = true) :=
  ⟨RoundedScalar.separatesFinite L, RoundedScalar.separatesFinite L⟩

/-! ### A mean that is no number -/

section
variable {F L G : Type} [Scalar F] [Eigensolver F] [Label L] [RandomSource G]
  {settings : TreeSettings F} {d two : GroupedDataset F L} {g g' : G} {division : Division F L}

/-- The split of a division is that of the projected means of its two groups. -/
theorem Divides.orient_eq (h : Divides settings d g division two g') :
    orient division.split.projector (projectedMeans two division.split.projector) =
      .ok division.split := by
  cases h with
  | direct hcount hcolumns hsplit | regrouped hcount hcolumns hregroup hsplit hlower hupper =>
    obtain ⟨projector, -, horient⟩ := bind_eq_ok_iff.1 hsplit
    rw [projector_of_orient horient]
    exact horient

end

/-- Two classes of two rows each. The first column separates them, the second has an infinite value,
and its product with a coefficient of zero is no number. -/
def infiniteCell : GroupedDataset Float Nat :=
  .ofDataset {
    width := 2
    rows := [⟨[1, 5], 0⟩, ⟨[3, 1 / 0], 0⟩, ⟨[9, 4], 1⟩, ⟨[8, 6], 1⟩]
    classes := .ofList [0, 1]
    shaped := by decide
    covered := by decide }

/-- Growing comes to two groups, one of which has a mean that is no number. They are oriented with a
threshold that separates no means. -/
theorem orient_infiniteCell : infiniteCell.groupCount = 2 ∧ ∃ division g',
    divide ⟨0, .random 1, 0⟩ infiniteCell (Xoshiro.ofSeed 0) = (.ok division, g') ∧
      orient division.split.projector (projectedMeans infiniteCell division.split.projector) =
        .ok division.split ∧
      ∀ lower upper, ¬ division.split.Separates lower upper := by
  have hcount : infiniteCell.groupCount = 2 := by decide +kernel
  have hthreshold : (divide ⟨0, .random 1, 0⟩ infiniteCell (Xoshiro.ofSeed 0)).1.toOption.map
      (·.split.threshold.isNaN) = some true := by
    decide +kernel
  refine ⟨hcount, ?_⟩
  cases hdivide : divide ⟨0, .random 1, 0⟩ infiniteCell (Xoshiro.ofSeed 0) with
  | mk outcome g' =>
    rw [hdivide] at hthreshold
    cases outcome with
    | error e => cases hthreshold
    | ok division =>
      obtain ⟨two, hdivides⟩ := divide_eq_ok_iff.1 hdivide
      obtain rfl : infiniteCell = two := by
        cases hdivides with
        | direct => rfl
        | regrouped hmore => exact absurd hcount hmore
      have hnone := Float.Model.UnpackedFloat.isNaN_iff.1 (Option.some.inj hthreshold)
      exact ⟨division, g', rfl, hdivides.orient_eq, fun lower upper hs =>
        RoundedScalar.not_lt_notANumber hnone hs.lt⟩

end PursuitForest
