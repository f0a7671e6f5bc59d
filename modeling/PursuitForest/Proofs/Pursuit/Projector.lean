import Mathlib.Data.List.GetD
import PursuitForest.Proofs.Outcomes
import PursuitForest.Proofs.Random.Choice
import PursuitForest.Tree.Split
/-!
How the search for a projector can end.

Columns that are drawn for data of some width lie within it (`suits_of_select`), and are drawn
whenever there are enough of them (`exists_select`). On such columns of data with rows the search
either finds a projector as long as the rows are wide, or finds that none separates the classes
(`fitProjector_ends`). A vector that is carried back to the full width has its values in the given
columns (`getD_widen`) and zeros elsewhere (`getElem?_widen_of_notMem`).
-/

namespace PursuitForest

variable {F L G : Type}

/-! ### Columns -/

/-- A selection of columns of data of the given width. -/
structure ColumnSelection.Suits (s : ColumnSelection) (width : Nat) : Prop where
  width_eq : s.width = width
  lt_width : ∀ c ∈ s.columns, c < width

section
variable [RandomSource G] {width : Nat} {p : ColumnPolicy} {g : G}

/-- Columns are drawn unless there are too few. -/
theorem exists_select (h : p.count width ≤ width) : ∃ s g',
    p.select (F := F) (L := L) width g = .ok (s, g') := by
  cases p with
  | all => exact ⟨_, _, rfl⟩
  | random n =>
    have hn : n ≤ width := h
    rw [ColumnPolicy.select, if_neg (Nat.not_lt.2 hn)]
    exact ⟨_, _, rfl⟩

theorem suits_of_select {s : ColumnSelection} {g' : G}
    (h : p.select (F := F) (L := L) width g = .ok (s, g')) : s.Suits width := by
  cases p with
  | all =>
    cases h
    exact ⟨rfl, fun c hc => List.mem_range.1 hc⟩
  | random n =>
    unfold ColumnPolicy.select at h
    dsimp only at h
    split at h
    · cases h
    · next hn =>
      cases h
      exact ⟨rfl, (choose_spec (Nat.not_lt.1 hn) g).lt_bound⟩

/-- Columns are drawn in ascending order, as many as the policy keeps. -/
theorem ascending_of_select {s : ColumnSelection} {g' : G}
    (h : p.select (F := F) (L := L) width g = .ok (s, g')) :
    s.columns.Pairwise (· < ·) ∧ s.columns.length = p.count width := by
  cases p with
  | all =>
    cases h
    exact ⟨List.pairwise_lt_range, List.length_range⟩
  | random n =>
    unfold ColumnPolicy.select at h
    dsimp only at h
    split at h
    · cases h
    · next hn =>
      cases h
      exact ⟨choose_ascending width n g, (choose_spec (Nat.not_lt.1 hn) g).length_eq⟩

end

/-- Settings that suit a width ask for at most so many columns. -/
theorem count_le_of_checkWidth {settings : TreeSettings F} {width : Nat}
    (h : settings.checkWidth (L := L) width = .ok ()) : settings.columns.count width ≤ width := by
  unfold TreeSettings.checkWidth at h
  cases hcolumns : settings.columns with
  | all => exact Nat.le_refl _
  | random n =>
    rw [hcolumns] at h
    dsimp only at h
    split at h
    · cases h
    · next hn => exact Nat.not_lt.1 hn

/-- What a row has at columns that it is wide enough for. -/
theorem filterMap_getElem?_eq_map {α : Type} {r : List α} {columns : List Nat} (a : α)
    (h : ∀ c ∈ columns, c < r.length) : columns.filterMap (r[·]?) = columns.map (r.getD · a) := by
  rw [← List.filterMap_eq_map]
  refine List.filterMap_congr fun c hc => ?_
  rw [Function.comp_apply, List.getD_eq_getElem _ _ (h c hc), List.getElem?_eq_getElem (h c hc)]

variable [Label L]

theorem GroupedDataset.width_keepColumns {d : GroupedDataset F L} {columns : List Nat}
    (h : ∀ c ∈ columns, c < d.width) : (d.keepColumns columns).width = columns.length := by
  show (columns.filter (· < d.width)).length = columns.length
  rw [List.filter_eq_self.2 fun c hc => by simpa using h c hc]

namespace ColumnSelection

/-- Data is reduced to as many columns as are selected. -/
theorem Suits.exists_reduce {s : ColumnSelection} {d : GroupedDataset F L} (h : s.Suits d.width) :
    ∃ e, s.reduce d = .ok e ∧ e.width = s.columns.length ∧ e.isEmpty = d.isEmpty := by
  unfold reduce
  split
  · next hall =>
    have hlength : s.columns.length = s.width := by simpa [isAll] using hall
    exact ⟨d, rfl, by rw [hlength, h.width_eq], rfl⟩
  · rw [GroupedDataset.selectColumns, if_pos h.lt_width]
    exact ⟨_, rfl, GroupedDataset.width_keepColumns h.lt_width, List.isEmpty_map⟩

end ColumnSelection

variable [Scalar F]

omit [Label L] in
@[simp] theorem length_widen (width : Nat) (columns : List Nat) (values : List F) :
    (widen width columns values).length = width := by
  rw [widen, List.length_map, List.length_range]

section
variable {F : Type} {j width : Nat}

theorem lookup_zip_eq_none : ∀ {columns : List Nat} {values : List F}, j ∉ columns →
    (columns.zip values).lookup j = none
  | [], _, _ => rfl
  | _ :: _, [], _ => rfl
  | k :: columns, a :: values, hj => by
      obtain ⟨hne, hrest⟩ := not_or.1 (mt List.mem_cons.2 hj)
      rw [List.zip_cons_cons, List.lookup_cons, beq_false_of_ne hne]
      exact lookup_zip_eq_none hrest

theorem lookup_zip_eq : ∀ {columns : List Nat} {values : List F} {i : Nat}, columns.Nodup →
    columns[i]? = some j → (columns.zip values).lookup j = values[i]?
  | [], _, _, _, hj => by cases hj
  | k :: columns, [], i, _, _ => by rw [List.zip_nil_right, List.getElem?_nil, List.lookup_nil]
  | k :: columns, a :: values, 0, _, hj => by
      obtain rfl : k = j := by simpa using hj
      rw [List.zip_cons_cons, List.lookup_cons, beq_self_eq_true]
      rfl
  | k :: columns, a :: values, i + 1, hnodup, hj => by
      obtain ⟨hk, hrest⟩ := List.nodup_cons.1 hnodup
      have hne : j ≠ k := fun h => hk (h ▸ List.mem_of_getElem? (by simpa using hj))
      rw [List.zip_cons_cons, List.lookup_cons, beq_false_of_ne hne]
      exact lookup_zip_eq hrest (by simpa using hj)

variable [Scalar F] {columns : List Nat} {values : List F}

/-- Columns that are not filled are zero. -/
theorem getElem?_widen_of_notMem (hlt : j < width) (hj : j ∉ columns) :
    (widen width columns values)[j]? = some 0 := by
  rw [widen, List.getElem?_map, List.getElem?_range hlt, Option.map_some, lookup_zip_eq_none hj]
  rfl

theorem getD_widen_of_notMem (hj : j ∉ columns) : (widen width columns values).getD j 0 = 0 := by
  by_cases hlt : j < width
  · rw [List.getD_eq_getElem?_getD, getElem?_widen_of_notMem hlt hj, Option.getD_some]
  · rw [List.getD_eq_default _ _ (by simpa using hlt)]

/-- Columns that are filled have the values that were given for them. -/
theorem getD_widen (hlt : j < width) (hnodup : columns.Nodup) {i : Nat} (hj : columns[i]? = some j) :
    (widen width columns values).getD j 0 = values.getD i 0 := by
  rw [List.getD_eq_getElem?_getD, widen, List.getElem?_map, List.getElem?_range hlt, Option.map_some,
    lookup_zip_eq hnodup hj, List.getD_eq_getElem?_getD]
  rfl

end

omit [Label L] in
@[simp] theorem length_canonicalize (projector : List F) :
    (canonicalize projector).length = projector.length := by
  unfold canonicalize
  dsimp only
  split
  · split <;> simp only [List.length_map]
  · rw [List.length_map]

omit [Label L] in
/-- A vector over the selected columns can be carried back. -/
theorem ColumnSelection.exists_expand {s : ColumnSelection} {reduced : List F}
    (h : reduced.length = s.columns.length) :
    ∃ p, s.expand (L := L) reduced = .ok p ∧ p.length = s.width := by
  rw [expand, if_neg (not_not_intro h)]
  exact ⟨_, rfl, length_widen _ _ _⟩

/-! ### The search -/

variable [Eigensolver F]

omit [Label L] in
theorem solveGeneralized_ends {n : Nat} (a b : Square F n) :
    Ends (·.isDegenerate = true) (fun _ => True)
      (solveGeneralized a b : Except (Error F L) (Vec F n)) := by
  refine .ite (fun _ => .error rfl) fun _ => ?_
  split
  · exact .error rfl
  · exact .ite (fun _ => .error rfl) fun _ => .ok trivial

/-- The best projector of data with rows is as long as the rows are wide, which are not empty then.
-/
theorem optimize_ends {d : GroupedDataset F L} (hd : d.isEmpty = false) (lambda : F) :
    Ends (·.isDegenerate = true) (fun p => p.length = d.width ∧ 0 < d.width)
      ((Discriminant.mk lambda).optimize d) := by
  unfold Discriminant.optimize
  dsimp only
  split
  · exact .error rfl
  · next hactive =>
    have hwidth : 0 < d.width := by
      obtain ⟨j, hj⟩ := List.exists_mem_of_ne_nil _
        (List.isEmpty_eq_false_iff.1 (by simpa using hactive))
      have hlt := List.mem_range.1 (List.mem_filter.1 hj).1
      omega
    have hkept : (d.keepColumns (varyingColumns d)).isEmpty = false := by
      rw [← hd]
      exact List.isEmpty_map
    have hscatter : Scatter.ofDataset Scalar.laneMean (d.keepColumns (varyingColumns d)) =
        .ok (Scatter.ofGroups Scalar.laneMean ((d.keepColumns (varyingColumns d)).groups.map
          fun g => g.rows.map (Vec.ofRow _))) := by
      rw [Scatter.ofDataset, hkept]
      rfl
    rw [hscatter]
    refine Ends.bind (P := fun _ => True) (.ok trivial) fun _ _ => ?_
    refine (solveGeneralized_ends _ _).bind fun direction _ => ?_
    exact .ok ⟨by rw [length_canonicalize, length_widen], hwidth⟩

/-- The search on suitable columns of data with rows ends with a projector as long as the rows are
wide, or finds that there is none. -/
theorem fitProjector_ends {d : GroupedDataset F L} {s : ColumnSelection} (hs : s.Suits d.width)
    (hd : d.isEmpty = false) (lambda : F) :
    Ends (·.isDegenerate = true) (fun p => p.length = d.width ∧ 0 < d.width)
      (fitProjector lambda d s) := by
  obtain ⟨e, he, hwidth, hempty⟩ := hs.exists_reduce
  unfold fitProjector
  rw [he]
  refine Ends.bind (P := fun a => a = e) (.ok rfl) ?_
  rintro _ rfl
  refine (optimize_ends (by rw [hempty, hd]) lambda).bind fun reduced hreduced => ?_
  obtain ⟨p, hp, hlength⟩ := ColumnSelection.exists_expand (L := L) (hreduced.1.trans hwidth)
  rw [hp]
  refine .ok ⟨by rw [hlength, hs.width_eq], ?_⟩
  obtain ⟨c, hc⟩ := List.exists_mem_of_length_pos (hwidth ▸ hreduced.2)
  exact Nat.lt_of_le_of_lt (Nat.zero_le c) (hs.lt_width c hc)

end PursuitForest
