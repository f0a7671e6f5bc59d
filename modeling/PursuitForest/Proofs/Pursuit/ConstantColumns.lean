import PursuitForest.Proofs.Pursuit.CanonicalForm
import PursuitForest.Proofs.Pursuit.Selections
/-!
Columns that do not vary are not seen by the search.

Data and the data without some constant columns have the same columns that vary, each at its own place
(`varyingColumns_eq`), so the same problem is solved for both. What is found is carried back in one step or
in two (`widen_widen`), and the canonical form is taken before or after it (`canonicalize_widen`): the zeros
in between neither change the length of a vector nor come first among the coefficients that are not zero.
So constant columns may be put into data anywhere, and the projector gets zeros there
(`optimize_constantColumns`).
-/

namespace PursuitForest

variable {F K L : Type}

/-! ### Canonical forms -/

section
variable [OrderedScalar K] {width : Nat} {columns : List Nat} {values : List K}

theorem truncate_zero : truncate (0 : K) = 0 :=
  ite_self 0

theorem upright_widen (hcolumns : columns.Pairwise (· < ·)) (hlt : ∀ c ∈ columns, c < width)
    (hlength : values.length = columns.length) :
    upright (widen width columns values) = widen width columns (upright values) := by
  have hfirst : (widen width columns values).find? (fun a => decide (a ≠ 0)) =
      values.find? fun a => decide (a ≠ 0) := by
    rw [← List.head?_filter, ← List.head?_filter, filter_widen (by simp) hcolumns hlt hlength]
  unfold upright
  rw [hfirst]
  cases values.find? fun a => decide (a ≠ 0) with
  | none => rfl
  | some first =>
    by_cases hneg : first < 0
    · simp only [if_pos hneg]
      exact widen_map (hcolumns.imp Nat.ne_of_lt) (f := (- ·)) neg_zero
    · simp only [if_neg hneg]

theorem euclideanNorm_widen (hnodup : columns.Nodup) (hlt : ∀ c ∈ columns, c < width)
    (hlength : values.length = columns.length) :
    euclideanNorm (widen width columns values) = euclideanNorm values := by
  unfold euclideanNorm
  rw [OrderedScalar.innerProduct_widen hnodup hlt (length_widen _ _ _) hlength,
    filterMap_widen hnodup hlt hlength]

/-- A vector may be brought to canonical form before or after it is carried back. -/
theorem canonicalize_widen (hcolumns : columns.Pairwise (· < ·)) (hlt : ∀ c ∈ columns, c < width)
    (hlength : values.length = columns.length) :
    canonicalize (widen width columns values) = widen width columns (canonicalize values) := by
  have hnodup : columns.Nodup := hcolumns.imp Nat.ne_of_lt
  have hzero : truncate (0 / euclideanNorm values) = 0 := by rw [zero_div, truncate_zero]
  rw [canonicalize_eq, canonicalize_eq, euclideanNorm_widen hnodup hlt hlength, widen_map hnodup hzero,
    upright_widen hcolumns hlt (by rw [List.length_map, hlength])]

end

/-! ### Columns that vary -/

namespace GroupedDataset

variable [Label L]

/-- Every row has the same value in a column. -/
def Constant (d : GroupedDataset F L) (j : Nat) : Prop :=
  ∃ a, ∀ r ∈ d.rows, r[j]? = some a

variable {d : GroupedDataset F L} {columns : List Nat}

theorem constant_keepColumns_iff (hlt : ∀ c ∈ columns, c < d.width) {i j : Nat}
    (hj : columns[i]? = some j) : (d.keepColumns columns).Constant i ↔ d.Constant j := by
  unfold Constant
  rw [(d.imageOf_keepColumns columns).rows_eq]
  refine exists_congr fun a => List.forall_mem_map.trans (forall₂_congr fun r hr => ?_)
  have hwide : ∀ c ∈ columns, c < r.length := fun c hc => d.features.shaped r hr ▸ hlt c hc
  rw [getElem?_filterMap_getElem? hwide, hj, Option.bind_some]

theorem constant_iff {j : Nat} (hlt : j < d.width) :
    d.Constant j ↔ ∃ a, ∀ b ∈ d.features.column j, b = a := by
  refine exists_congr fun a => ⟨fun h b hb => ?_, fun h r hr => ?_⟩
  · obtain ⟨r, hr, hb⟩ := List.mem_filterMap.1 hb
    rw [h r hr, Option.some.injEq] at hb
    exact hb.symm
  · have hj : j < r.length := d.features.shaped r hr ▸ hlt
    rw [List.getElem?_eq_getElem hj, h _ (List.mem_filterMap.2 ⟨r, hr, List.getElem?_eq_getElem hj⟩)]

/-- Columns of some columns are columns. -/
theorem keepColumns_keepColumns (hlt : ∀ c ∈ columns, c < d.width) (places : List Nat) :
    (d.keepColumns columns).keepColumns places =
      d.keepColumns (places.filterMap (columns[·]?)) := by
  have hplaces : ∀ c ∈ places.filterMap (columns[·]?), c < d.width := by
    intro c hc
    obtain ⟨i, -, hi⟩ := List.mem_filterMap.1 hc
    exact hlt c (List.mem_of_getElem? hi)
  refine GroupedDataset.ext ?_ ?_ rfl
  · rw [width_keepColumns hplaces, length_filterMap_getElem?, ← width_keepColumns hlt]
    rfl
  · refine ((d.imageOf_keepColumns columns).trans (imageOf_keepColumns _ places)).groups_congr
      (d.imageOf_keepColumns _) fun r hr => ?_
    have hwide : ∀ c ∈ columns, c < r.length := fun c hc => d.features.shaped r hr ▸ hlt c hc
    rw [Function.comp_apply, List.filterMap_filterMap]
    exact List.filterMap_congr fun i _ => getElem?_filterMap_getElem? hwide i

end GroupedDataset

section
variable [OrderedScalar K] [Label L] {d : GroupedDataset K L} {columns : List Nat}

theorem mem_varyingColumns_iff {j : Nat} : j ∈ varyingColumns d ↔ j < d.width ∧ ¬d.Constant j := by
  rw [varyingColumns, List.mem_filter, List.mem_range]
  refine and_congr_right fun hlt => ?_
  rw [GroupedDataset.constant_iff hlt]
  cases d.features.column j with
  | nil => simp
  | cons x xs =>
    have hvaries : ((x :: xs).any fun y => !(y == x)) = true ↔ ∃ y ∈ x :: xs, y ≠ x := by
      rw [List.any_eq_true]
      refine exists_congr fun y => and_congr_right fun _ => ?_
      rw [Bool.not_eq_true', ← Bool.not_eq_true]
      exact not_congr decide_eq_true_iff
    refine hvaries.trans ⟨?_, fun hnot => ?_⟩
    · rintro ⟨y, hy, hne⟩ ⟨a, ha⟩
      exact hne ((ha y hy).trans (ha x List.mem_cons_self).symm)
    · by_contra hall
      push Not at hall
      exact hnot ⟨x, hall⟩

/-- The columns that vary are those of the data without columns that do not. -/
theorem varyingColumns_eq (hcolumns : columns.Pairwise (· < ·)) (hlt : ∀ c ∈ columns, c < d.width)
    (hconstant : ∀ j < d.width, j ∉ columns → d.Constant j) :
    varyingColumns d = (varyingColumns (d.keepColumns columns)).filterMap (columns[·]?) := by
  refine eq_of_ascending (ascending_varyingColumns d)
    (pairwise_filterMap_getElem? hcolumns (ascending_varyingColumns _)) fun j => ?_
  rw [List.mem_filterMap, mem_varyingColumns_iff]
  constructor
  · rintro ⟨hj, hvaries⟩
    have hmem : j ∈ columns := by
      by_contra hout
      exact hvaries (hconstant j hj hout)
    obtain ⟨i, hi⟩ := List.getElem?_of_mem hmem
    refine ⟨i, mem_varyingColumns_iff.2 ⟨?_, ?_⟩, hi⟩
    · rw [GroupedDataset.width_keepColumns hlt]
      exact (List.getElem?_eq_some_iff.1 hi).1
    · exact mt (GroupedDataset.constant_keepColumns_iff hlt hi).1 hvaries
  · rintro ⟨i, hi, hj⟩
    refine ⟨hlt j (List.mem_of_getElem? hj), ?_⟩
    exact mt (GroupedDataset.constant_keepColumns_iff hlt hj).2 (mem_varyingColumns_iff.1 hi).2

end

/-! ### Columns that are put in -/

/-- Values with others put in: where the pattern has a value it is put in, elsewhere the next of the values
follows. -/
def withInserted {α : Type} : List (Option α) → List α → List α
  | [], values => values
  | some a :: pattern, values => a :: withInserted pattern values
  | none :: pattern, [] => withInserted pattern []
  | none :: pattern, b :: values => b :: withInserted pattern values

/-- Where so many values go that others are put between. -/
def keptPlaces {α : Type} : List (Option α) → Nat → List Nat
  | [], n => List.range n
  | some _ :: pattern, n => (keptPlaces pattern n).map (· + 1)
  | none :: pattern, 0 => keptPlaces pattern 0
  | none :: pattern, n + 1 => 0 :: (keptPlaces pattern n).map (· + 1)

/-- How many values a pattern puts in. -/
def insertedCount {α : Type} (pattern : List (Option α)) : Nat :=
  pattern.countP (·.isSome)

section
variable {α β : Type}

@[simp] theorem insertedCount_nil : insertedCount ([] : List (Option α)) = 0 := rfl

@[simp] theorem insertedCount_some (a : α) (pattern : List (Option α)) :
    insertedCount (some a :: pattern) = insertedCount pattern + 1 := by
  simp [insertedCount]

@[simp] theorem insertedCount_none (pattern : List (Option α)) :
    insertedCount (none :: pattern) = insertedCount pattern := by
  simp [insertedCount]

theorem length_withInserted (pattern : List (Option α)) (values : List α) :
    (withInserted pattern values).length = insertedCount pattern + values.length := by
  fun_induction withInserted pattern values with
  | case1 values => simp
  | case2 a pattern values ih =>
    rw [List.length_cons, ih, insertedCount_some]
    omega
  | case3 pattern ih => simpa using ih
  | case4 pattern b values ih =>
    rw [List.length_cons, ih, insertedCount_none, List.length_cons]
    omega

theorem lt_of_mem_keptPlaces {pattern : List (Option α)} {n k : Nat} (h : k ∈ keptPlaces pattern n) :
    k < insertedCount pattern + n := by
  fun_induction keptPlaces pattern n generalizing k with
  | case1 n => simpa using h
  | case2 a pattern n ih =>
    obtain ⟨i, hi, rfl⟩ := List.mem_map.1 h
    have hlt := ih hi
    rw [insertedCount_some]
    omega
  | case3 pattern ih => simpa using ih h
  | case4 pattern n ih =>
    rw [insertedCount_none]
    rcases List.mem_cons.1 h with rfl | h
    · omega
    · obtain ⟨i, hi, rfl⟩ := List.mem_map.1 h
      have hlt := ih hi
      omega

@[simp] theorem length_keptPlaces (pattern : List (Option α)) (n : Nat) :
    (keptPlaces pattern n).length = n := by
  fun_induction keptPlaces pattern n with
  | case1 n => exact List.length_range
  | case2 a pattern n ih => rw [List.length_map, ih]
  | case3 pattern ih => exact ih
  | case4 pattern n ih => rw [List.length_cons, List.length_map, ih]

theorem ascending_keptPlaces (pattern : List (Option α)) (n : Nat) :
    (keptPlaces pattern n).Pairwise (· < ·) := by
  have hsucc : ∀ {xs : List Nat}, xs.Pairwise (· < ·) → (xs.map (· + 1)).Pairwise (· < ·) :=
    fun h => List.pairwise_map.2 (h.imp Nat.succ_lt_succ)
  fun_induction keptPlaces pattern n with
  | case1 n => exact List.pairwise_lt_range
  | case2 a pattern n ih => exact hsucc ih
  | case3 pattern ih => exact ih
  | case4 pattern n ih =>
    refine List.pairwise_cons.2 ⟨fun k hk => ?_, hsucc ih⟩
    obtain ⟨i, -, rfl⟩ := List.mem_map.1 hk
    exact Nat.succ_pos i

/-- The values stand at their places. -/
theorem filterMap_withInserted (pattern : List (Option α)) (values : List α) :
    (keptPlaces pattern values.length).filterMap ((withInserted pattern values)[·]?) = values := by
  have hsucc : ∀ (a : α) (places : List Nat) (xs : List α),
      (places.map (· + 1)).filterMap ((a :: xs)[·]?) = places.filterMap (xs[·]?) := by
    intro a places xs
    rw [List.filterMap_map]
    exact List.filterMap_congr fun k _ => List.getElem?_cons_succ
  fun_induction withInserted pattern values with
  | case1 values => exact filterMap_range_getElem? values
  | case2 a pattern values ih => rw [keptPlaces, hsucc, ih]
  | case3 pattern ih => exact ih
  | case4 pattern b values ih =>
    rw [List.length_cons, keptPlaces, List.filterMap_cons_some List.getElem?_cons_zero, hsucc, ih]

/-- What is put in between does not depend on the values. -/
theorem exists_inserted {pattern : List (Option α)} {n j : Nat} (hlt : j < insertedCount pattern + n)
    (hj : j ∉ keptPlaces pattern n) : ∃ a, some a ∈ pattern ∧
      ∀ values : List α, values.length = n → (withInserted pattern values)[j]? = some a := by
  -- along the places, for a place that is taken or skipped with the first of the pattern
  fun_induction keptPlaces pattern n generalizing j with
  | case1 n => exact absurd (List.mem_range.2 (by simpa using hlt)) hj
  | case2 a pattern n ih =>
    cases j with
    | zero => exact ⟨a, List.mem_cons_self, fun values _ => rfl⟩
    | succ j =>
      have hlt' : j < insertedCount pattern + n := by
        rw [insertedCount_some] at hlt
        omega
      obtain ⟨b, hb, hat⟩ := ih hlt' fun hmem => hj (List.mem_map.2 ⟨j, hmem, rfl⟩)
      exact ⟨b, List.mem_cons_of_mem _ hb, hat⟩
  | case3 pattern ih =>
    obtain ⟨b, hb, hat⟩ := ih (by simpa using hlt) hj
    refine ⟨b, List.mem_cons_of_mem _ hb, fun values hvalues => ?_⟩
    obtain rfl := List.length_eq_zero_iff.1 hvalues
    exact hat [] rfl
  | case4 pattern n ih =>
    cases j with
    | zero => exact absurd List.mem_cons_self hj
    | succ j =>
      have hlt' : j < insertedCount pattern + n := by
        rw [insertedCount_none] at hlt
        omega
      have hout : j ∉ keptPlaces pattern n := fun hmem =>
        hj (List.mem_cons_of_mem _ (List.mem_map.2 ⟨j, hmem, rfl⟩))
      obtain ⟨b, hb, hat⟩ := ih hlt' hout
      refine ⟨b, List.mem_cons_of_mem _ hb, fun values hvalues => ?_⟩
      obtain ⟨c, rest, rfl⟩ := List.exists_cons_of_length_eq_add_one hvalues
      exact hat rest (Nat.succ.inj hvalues)

theorem keptPlaces_map (f : α → β) (pattern : List (Option α)) (n : Nat) :
    keptPlaces (pattern.map (·.map f)) n = keptPlaces pattern n := by
  fun_induction keptPlaces pattern n with
  | case1 n => rfl
  | case2 a pattern n ih => simp [keptPlaces, ih]
  | case3 pattern ih => simp [keptPlaces, ih]
  | case4 pattern n ih => simp [keptPlaces, ih]

theorem insertedCount_map (f : α → β) (pattern : List (Option α)) :
    insertedCount (pattern.map (·.map f)) = insertedCount pattern := by
  simp [insertedCount, List.countP_map, Function.comp_def]

end

/-- Where only zeros are put in, the values are carried back to their places. -/
theorem widen_keptPlaces [Scalar F] {pattern : List (Option F)}
    (hzero : ∀ a, some a ∈ pattern → a = 0) (values : List F) :
    widen (insertedCount pattern + values.length) (keptPlaces pattern values.length) values =
      withInserted pattern values := by
  have hlength := length_withInserted pattern values
  have hnodup : (keptPlaces pattern values.length).Nodup :=
    (ascending_keptPlaces _ _).imp Nat.ne_of_lt
  refine (eq_widen hnodup hlength (fun i j hj _ => ?_) fun j hlt hout => ?_).symm
  · have hat := congrArg (·[i]?) (filterMap_withInserted pattern values)
    rw [getElem?_filterMap_getElem? fun c hc => hlength ▸ lt_of_mem_keptPlaces hc, hj,
      Option.bind_some] at hat
    rw [List.getD_eq_getElem?_getD, List.getD_eq_getElem?_getD, hat]
  · obtain ⟨a, ha, hat⟩ := exists_inserted hlt hout
    rw [List.getD_eq_getElem?_getD, hat values rfl, Option.getD_some, hzero a ha]

namespace GroupedDataset

variable [Label L]

/-- Data with columns put in, each with one value for all rows. -/
def insertColumns (d : GroupedDataset F L) (pattern : List (Option F)) : GroupedDataset F L where
  width := insertedCount pattern + d.width
  groups := d.groups.map (·.mapRows (withInserted pattern))
  classes := d.classes
  ascending := List.pairwise_map.2 d.ascending
  inhabited g hg := by
    obtain ⟨h, hh, rfl⟩ := List.mem_map.1 hg
    simpa [ClassGroup.mapRows] using d.inhabited h hh
  shaped g hg r hr := by
    obtain ⟨h, hh, rfl⟩ := List.mem_map.1 hg
    obtain ⟨s, hs, rfl⟩ := List.mem_map.1 hr
    rw [length_withInserted, d.shaped h hh s hs]
  covered g hg := by
    obtain ⟨h, hh, rfl⟩ := List.mem_map.1 hg
    exact d.covered h hh

variable (d : GroupedDataset F L) (pattern : List (Option F))

theorem imageOf_insertColumns : ImageOf (withInserted pattern) (d.insertColumns pattern) d := rfl

theorem lt_width_insertColumns : ∀ c ∈ keptPlaces pattern d.width, c < (d.insertColumns pattern).width :=
  fun _ => lt_of_mem_keptPlaces

/-- The columns between those that are put in are the data. -/
theorem keepColumns_insertColumns :
    (d.insertColumns pattern).keepColumns (keptPlaces pattern d.width) = d := by
  refine GroupedDataset.ext ?_ ?_ rfl
  · rw [width_keepColumns (d.lt_width_insertColumns pattern), length_keptPlaces]
  · refine ((d.imageOf_insertColumns pattern).trans (imageOf_keepColumns _ _)).groups_congr
      (imageOf_id_iff.2 rfl) fun r hr => ?_
    have hlength : r.length = d.width := d.features.shaped r hr
    rw [Function.comp_apply, ← hlength, filterMap_withInserted, id]

/-- What is put in is constant. -/
theorem constant_insertColumns {j : Nat} (hlt : j < (d.insertColumns pattern).width)
    (hj : j ∉ keptPlaces pattern d.width) : (d.insertColumns pattern).Constant j := by
  obtain ⟨a, -, hat⟩ := exists_inserted hlt hj
  refine ⟨a, fun r hr => ?_⟩
  rw [(d.imageOf_insertColumns pattern).rows_eq] at hr
  obtain ⟨s, hs, rfl⟩ := List.mem_map.1 hr
  exact hat s (d.features.shaped s hs)

end GroupedDataset

/-! ### The search -/

variable [OrderedScalar K] [Label L] [Eigensolver K]

namespace Discriminant

variable {p : Discriminant K} {d : GroupedDataset K L} {columns : List Nat}

/-- The direction of data goes back to that of the data without constant columns. -/
theorem direction_eq_of_constant (hcolumns : columns.Pairwise (· < ·))
    (hlt : ∀ c ∈ columns, c < d.width) (hconstant : ∀ j < d.width, j ∉ columns → d.Constant j) :
    p.direction d = (p.direction (d.keepColumns columns)).map (widen d.width columns) := by
  have hwidth := GroupedDataset.width_keepColumns hlt
  have hplaces : ∀ i ∈ varyingColumns (d.keepColumns columns), i < columns.length := fun i hi =>
    hwidth ▸ (mem_varyingColumns_iff.1 hi).1
  have hactive := varyingColumns_eq hcolumns hlt hconstant
  have hempty : (varyingColumns d).isEmpty = (varyingColumns (d.keepColumns columns)).isEmpty := by
    rw [hactive, filterMap_getElem?_eq_map 0 hplaces, List.isEmpty_map]
  rw [direction_eq, direction_eq, hempty]
  split
  · rfl
  · -- both search the same data, and differ in how its columns are carried back
    rw [GroupedDataset.keepColumns_keepColumns hlt, ← hactive, hwidth]
    cases p.solution (d.keepColumns (varyingColumns d)) with
    | error e => rfl
    | ok v =>
      refine congrArg Except.ok ?_
      rw [widen_widen hcolumns (ascending_varyingColumns _) hplaces, ← hactive]

theorem length_of_direction {v : List K} (h : p.direction d = .ok v) : v.length = d.width := by
  obtain ⟨-, w, -, rfl⟩ := exists_solution_of_direction h
  exact length_widen _ _ _

/-- The projector of data is that of the data without constant columns, with zeros in their places. -/
theorem optimize_eq_of_constant (hcolumns : columns.Pairwise (· < ·))
    (hlt : ∀ c ∈ columns, c < d.width) (hconstant : ∀ j < d.width, j ∉ columns → d.Constant j) :
    p.optimize d = (p.optimize (d.keepColumns columns)).map (widen d.width columns) := by
  rw [optimize_eq, optimize_eq, direction_eq_of_constant hcolumns hlt hconstant]
  cases hdirection : p.direction (d.keepColumns columns) with
  | error e => rfl
  | ok v =>
    have hlength : v.length = columns.length := by
      rw [length_of_direction hdirection, GroupedDataset.width_keepColumns hlt]
    exact congrArg Except.ok (canonicalize_widen hcolumns hlt hlength)

theorem length_of_optimize {projector : List K} (h : p.optimize d = .ok projector) :
    projector.length = d.width := by
  rw [optimize_eq] at h
  cases hdirection : p.direction d with
  | error e => rw [hdirection] at h; cases h
  | ok v =>
    rw [hdirection] at h
    cases h
    rw [length_canonicalize, length_of_direction hdirection]

/-- Columns with one value each may be put in anywhere, and zeros are put into the projector there. -/
theorem optimize_insertColumns (p : Discriminant K) (d : GroupedDataset K L)
    (pattern : List (Option K)) : p.optimize (d.insertColumns pattern) =
      (p.optimize d).map (withInserted (pattern.map (·.map fun _ => 0))) := by
  have hzero : ∀ a, some a ∈ pattern.map (·.map fun _ => (0 : K)) → a = 0 := by
    intro a ha
    obtain ⟨b, -, hb⟩ := List.mem_map.1 ha
    obtain ⟨-, -, rfl⟩ := Option.map_eq_some_iff.1 hb
    rfl
  rw [optimize_eq_of_constant (ascending_keptPlaces pattern d.width) (d.lt_width_insertColumns pattern)
    fun j => d.constant_insertColumns pattern, d.keepColumns_insertColumns]
  cases hoptimize : p.optimize d with
  | error e => rfl
  | ok projector =>
    have hwiden := widen_keptPlaces hzero projector
    rw [insertedCount_map, keptPlaces_map, length_of_optimize hoptimize] at hwiden
    exact congrArg Except.ok hwiden

end Discriminant

/-- Constant columns are not seen by the search. However many are put into data, and wherever they are put,
it fails as it does without them, or finds the same projector with zeros put in there; and leaving out
constant columns, some of them or all, only leaves out zeros. -/
theorem optimize_constantColumns (p : Discriminant K) (d : GroupedDataset K L) :
    (∀ pattern : List (Option K), p.optimize (d.insertColumns pattern) =
      (p.optimize d).map (withInserted (pattern.map (·.map fun _ => 0)))) ∧
    ∀ columns : List Nat, columns.Pairwise (· < ·) → (∀ c ∈ columns, c < d.width) →
      (∀ j < d.width, j ∉ columns → d.Constant j) →
        p.optimize d = (p.optimize (d.keepColumns columns)).map (widen d.width columns) :=
  ⟨p.optimize_insertColumns d, fun _ => Discriminant.optimize_eq_of_constant⟩

/-- Two points of one column, with a constant column before it and one after it. -/
theorem optimize_constantColumns_twoPoints : ∃ projector : List ℝ,
    (Discriminant.mk (1 / 2 : ℝ)).optimize twoPoints = .ok projector ∧
    (Discriminant.mk (1 / 2)).optimize (twoPoints.insertColumns [some 5, none, some 7]) =
      .ok (withInserted [some 0, none, some 0] projector) ∧
    (Discriminant.mk (1 / 2)).optimize (twoPoints.insertColumns [some 5, none, some 7]) =
      ((Discriminant.mk (1 / 2)).optimize
        ((twoPoints.insertColumns [some 5, none, some 7]).keepColumns [1, 2])).map (widen 3 [1, 2]) := by
  obtain ⟨projector, hprojector⟩ := exists_optimize_twoPoints (1 / 2)
  have hinsert := (optimize_constantColumns (Discriminant.mk (1 / 2)) twoPoints).1 [some 5, none, some 7]
  rw [hprojector] at hinsert
  refine ⟨projector, hprojector, hinsert, ?_⟩
  refine (optimize_constantColumns _ (twoPoints.insertColumns [some 5, none, some 7])).2 [1, 2]
    (by simp) (by decide) fun j hlt hj => ⟨5, fun r hr => ?_⟩
  have hwidth : j < 3 := hlt
  obtain rfl : j = 0 := by
    simp only [List.mem_cons, List.not_mem_nil, or_false, not_or] at hj
    omega
  rw [(twoPoints.imageOf_insertColumns _).rows_eq] at hr
  obtain ⟨s, -, rfl⟩ := List.mem_map.1 hr
  rfl

end PursuitForest
