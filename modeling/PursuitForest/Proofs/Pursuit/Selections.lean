import PursuitForest.Proofs.OrderedScalar
import PursuitForest.Proofs.Dataset.Storage
import PursuitForest.Proofs.Pursuit.Projector
import PursuitForest.Random.Xoshiro
/-!
What a selection of columns takes from data and carries back.

The columns that are drawn for a split are in ascending order, so a selection that has as many columns as
the data takes each at its place, and data need not be copied for it (`reduce_eq_selectColumns_iff`). A
vector over the selected columns that is carried back has its values there and zeros elsewhere, and is the
only such vector (`eq_widen`). So its columns are the vector again (`filterMap_widen`), and a row has the
same projection on it as the columns of the row have on the vector (`innerProduct_widen`): data is divided
along a fitted projector as the selected columns are along what was found for them
(`projections_of_fitProjector`).
-/

namespace PursuitForest

variable {F K L G : Type}

/-! ### All columns -/

theorem GroupedDataset.keepColumns_range [Label L] (d : GroupedDataset F L) :
    d.keepColumns (List.range d.width) = d := by
  have hall : ∀ c ∈ List.range d.width, c < d.width := fun c hc => List.mem_range.1 hc
  refine GroupedDataset.ext ((width_keepColumns hall).trans List.length_range) ?_ rfl
  refine (d.imageOf_keepColumns _).groups_congr (imageOf_id_iff.2 rfl) fun r hr => ?_
  have hlength : r.length = d.width := d.features.shaped r hr
  rw [← hlength, filterMap_range_getElem?, id]

/-- Columns in ascending order that take part in a split of data of the given width. -/
structure ColumnSelection.Places (s : ColumnSelection) (width : Nat) : Prop extends s.Suits width where
  ascending : s.columns.Pairwise (· < ·)

theorem places_of_select [RandomSource G] {p : ColumnPolicy} {width : Nat} {g g' : G}
    {s : ColumnSelection} (h : p.select (F := F) (L := L) width g = .ok (s, g')) : s.Places width :=
  ⟨suits_of_select h, (ascending_of_select h).1⟩

namespace ColumnSelection.Places

variable {s : ColumnSelection} {width : Nat}

theorem nodup (h : s.Places width) : s.columns.Nodup :=
  h.ascending.imp Nat.ne_of_lt

/-- As many columns as there are stand at their places. -/
theorem columns_eq_range (h : s.Places width) (hall : s.isAll) : s.columns = List.range width := by
  have hlength : s.columns.length = width := by simpa [isAll, h.width_eq] using hall
  exact Picks.eq_range ⟨h.nodup, hlength, h.lt_width⟩ h.ascending

/-- Data of another width has columns besides, or too few. -/
theorem reduce_eq_selectColumns_iff [Label L] (h : s.Places width) (d : GroupedDataset F L) :
    s.reduce d = d.selectColumns s.columns ↔ d.width = width ∨ s.isAll = false := by
  cases hall : s.isAll with
  | false => simp [reduce, hall]
  | true =>
    have hcolumns := h.columns_eq_range hall
    rw [reduce, if_pos hall, hcolumns, GroupedDataset.selectColumns, or_iff_left (by simp)]
    constructor
    · intro hd
      split at hd
      · next hlt =>
        have hwidth := congrArg GroupedDataset.width (Except.ok.inj hd)
        rwa [GroupedDataset.width_keepColumns hlt, List.length_range] at hwidth
      · cases hd
    · rintro rfl
      rw [if_pos fun c hc => List.mem_range.1 hc, d.keepColumns_range]

/-- Data of the width is reduced to the selected columns. -/
theorem reduce_eq [Label L] {d : GroupedDataset F L} (h : s.Places d.width) :
    s.reduce d = .ok (d.keepColumns s.columns) := by
  rw [(h.reduce_eq_selectColumns_iff d).2 (.inl rfl), GroupedDataset.selectColumns, if_pos h.lt_width]

end ColumnSelection.Places

/-! ### Places of places -/

theorem getElem?_filterMap_getElem? {α : Type} {r : List α} : ∀ {columns : List Nat},
    (∀ c ∈ columns, c < r.length) → ∀ i : Nat,
      (columns.filterMap (r[·]?))[i]? = columns[i]?.bind (r[·]?)
  | [], _, _ => rfl
  | c :: columns, h, i => by
      obtain ⟨hc, hrest⟩ := List.forall_mem_cons.1 h
      rw [List.filterMap_cons_some (List.getElem?_eq_getElem hc)]
      cases i with
      | zero => exact (List.getElem?_eq_getElem hc).symm
      | succ i => exact getElem?_filterMap_getElem? hrest i

theorem pairwise_filterMap_getElem? {columns places : List Nat} (hcolumns : columns.Pairwise (· < ·))
    (hplaces : places.Pairwise (· < ·)) :
    (places.filterMap (columns[·]?)).Pairwise (· < ·) := by
  refine List.pairwise_filterMap.2 (hplaces.imp fun {i i'} hlt c hc c' hc' => ?_)
  obtain ⟨hi, rfl⟩ := List.getElem?_eq_some_iff.1 hc
  obtain ⟨hi', rfl⟩ := List.getElem?_eq_some_iff.1 hc'
  exact List.pairwise_iff_getElem.1 hcolumns i i' hi hi' hlt

/-! ### Vectors that are carried back -/

section
variable [Scalar F] {width : Nat} {columns : List Nat} {values full : List F}

theorem getElem?_widen (hnodup : columns.Nodup) (hlength : values.length = columns.length) {i j : Nat}
    (hj : columns[i]? = some j) (hlt : j < width) : (widen width columns values)[j]? = values[i]? := by
  have hi : i < values.length := hlength ▸ (List.getElem?_eq_some_iff.1 hj).1
  rw [widen, List.getElem?_map, List.getElem?_range hlt, Option.map_some, lookup_zip_eq hnodup hj,
    List.getElem?_eq_getElem hi]
  rfl

/-- The vector that is carried back is the only one with the values in their columns and zeros elsewhere.
-/
theorem eq_widen (hnodup : columns.Nodup) (hlength : full.length = width)
    (hat : ∀ i j : Nat, columns[i]? = some j → j < width → full.getD j 0 = values.getD i 0)
    (hzero : ∀ j < width, j ∉ columns → full.getD j 0 = 0) : full = widen width columns values := by
  refine List.ext_getElem (hlength.trans (length_widen _ _ _).symm) fun j h h' => ?_
  have hlt : j < width := hlength ▸ h
  rw [← List.getD_eq_getElem _ 0 h, ← List.getD_eq_getElem _ 0 h']
  by_cases hj : j ∈ columns
  · obtain ⟨i, hi⟩ := List.getElem?_of_mem hj
    rw [hat i j hi hlt, getD_widen hlt hnodup hi]
  · rw [hzero j hlt hj, getD_widen_of_notMem hj]

theorem widen_map (hnodup : columns.Nodup) {f : F → F} (hf : f 0 = 0) :
    (widen width columns values).map f = widen width columns (values.map f) := by
  have hgetD : ∀ (xs : List F) (j : Nat), (xs.map f).getD j 0 = f (xs.getD j 0) := fun xs j => by
    have hmap : (xs.map f).getD j (f 0) = f (xs.getD j 0) := List.getD_map xs 0 f
    rwa [hf] at hmap
  refine eq_widen hnodup (by simp) (fun i j hj hlt => ?_) fun j _ hout => ?_
  · rw [hgetD, hgetD, getD_widen hlt hnodup hj]
  · rw [hgetD, getD_widen_of_notMem hout, hf]

/-- Values may be carried back to some columns first, and from these to all. -/
theorem widen_widen {places : List Nat} (hcolumns : columns.Pairwise (· < ·))
    (hplaces : places.Pairwise (· < ·)) (hlt : ∀ i ∈ places, i < columns.length) :
    widen width columns (widen columns.length places values) =
      widen width (places.filterMap (columns[·]?)) values := by
  have hnodup : ∀ {xs : List Nat}, xs.Pairwise (· < ·) → xs.Nodup := fun h => h.imp Nat.ne_of_lt
  refine eq_widen (hnodup (pairwise_filterMap_getElem? hcolumns hplaces)) (length_widen _ _ _)
    (fun k j hj hwidth => ?_) fun j hwidth hout => ?_
  · rw [getElem?_filterMap_getElem? hlt, Option.bind_eq_some_iff] at hj
    obtain ⟨i, hi, hj⟩ := hj
    rw [getD_widen hwidth (hnodup hcolumns) hj,
      getD_widen (hlt i (List.mem_of_getElem? hi)) (hnodup hplaces) hi]
  · by_cases hj : j ∈ columns
    · obtain ⟨i, hi⟩ := List.getElem?_of_mem hj
      have hi' : i ∉ places := fun hi' => hout (List.mem_filterMap.2 ⟨i, hi', hi⟩)
      rw [getD_widen hwidth (hnodup hcolumns) hi, getD_widen_of_notMem hi']
    · exact getD_widen_of_notMem hj

/-- The columns of a vector that was carried back are the vector. -/
theorem filterMap_widen (hnodup : columns.Nodup) (hlt : ∀ c ∈ columns, c < width)
    (hlength : values.length = columns.length) :
    columns.filterMap ((widen width columns values)[·]?) = values := by
  have hwide : ∀ c ∈ columns, c < (widen width columns values).length := by simpa using hlt
  refine List.ext_getElem? fun i => ?_
  rw [getElem?_filterMap_getElem? hwide]
  cases hj : columns[i]? with
  | none => rw [Option.bind_none, List.getElem?_eq_none (hlength ▸ List.getElem?_eq_none_iff.1 hj)]
  | some j =>
    rw [Option.bind_some, getElem?_widen hnodup hlength hj (hlt j (List.mem_of_getElem? hj))]

/-- Zeros in between are not among the entries that are not zero. -/
theorem filter_widen {p : F → Bool} (hp : p 0 = false) (hcolumns : columns.Pairwise (· < ·))
    (hlt : ∀ c ∈ columns, c < width) (hlength : values.length = columns.length) :
    (widen width columns values).filter p = values.filter p := by
  have hwithin : (List.range width).filter (· ∈ columns) = columns :=
    eq_of_ascending (List.pairwise_lt_range.filter _) hcolumns fun j => by simpa using hlt j
  have hpassed : ∀ j ∈ List.range width, Option.filter p (widen width columns values)[j]? =
      if j ∈ columns then Option.filter p (widen width columns values)[j]? else none := by
    intro j hj
    split
    · rfl
    · next hout =>
      rw [getElem?_widen_of_notMem (List.mem_range.1 hj) hout]
      simp [hp]
  calc (widen width columns values).filter p
      = ((List.range width).filterMap ((widen width columns values)[·]?)).filter p := by
        have hall := filterMap_range_getElem? (widen width columns values)
        rw [length_widen] at hall
        rw [hall]
    _ = (List.range width).filterMap fun j => Option.filter p (widen width columns values)[j]? :=
        List.filter_filterMap
    _ = ((List.range width).filter (· ∈ columns)).filterMap
          fun j => Option.filter p (widen width columns values)[j]? := by
        rw [List.filterMap_filter]
        simpa using List.filterMap_congr hpassed
    _ = (columns.filterMap ((widen width columns values)[·]?)).filter p := by
        rw [hwithin, List.filter_filterMap]
    _ = values.filter p := by
        rw [filterMap_widen (hcolumns.imp Nat.ne_of_lt) hlt hlength]

end

namespace OrderedScalar

variable [OrderedScalar K] {width : Nat} {columns : List Nat} {row full values : List K}

/-- An inner product with a vector that is zero outside of some columns is one of these columns. -/
theorem innerProduct_filterMap (hnodup : columns.Nodup) (hlt : ∀ c ∈ columns, c < width)
    (hrow : row.length = width) (hfull : full.length = width)
    (hzero : ∀ j < width, j ∉ columns → full.getD j 0 = 0) : innerProduct row full =
      innerProduct (columns.filterMap (row[·]?)) (columns.filterMap (full[·]?)) := by
  have hsubset : columns.toFinset ⊆ Finset.range width := fun j hj =>
    Finset.mem_range.2 (hlt j (List.mem_toFinset.1 hj))
  calc innerProduct row full
      = ∑ j ∈ Finset.range width, row.getD j 0 * full.getD j 0 := innerProduct_eq_sum hrow hfull
    _ = ∑ j ∈ columns.toFinset, row.getD j 0 * full.getD j 0 :=
        (Finset.sum_subset hsubset fun j hj hout => by
          rw [hzero j (Finset.mem_range.1 hj) (mt List.mem_toFinset.2 hout), mul_zero]).symm
    _ = (columns.map fun j => row.getD j 0 * full.getD j 0).sum := List.sum_toFinset _ hnodup
    _ = innerProduct (columns.filterMap (row[·]?)) (columns.filterMap (full[·]?)) := by
        rw [filterMap_getElem?_eq_map 0 fun c hc => hrow ▸ hlt c hc,
          filterMap_getElem?_eq_map 0 fun c hc => hfull ▸ hlt c hc, innerProduct, List.zipWith_map,
          List.zipWith_self]

/-- A row has the projection on a vector that was carried back which its columns have on the vector. -/
theorem innerProduct_widen (hnodup : columns.Nodup) (hlt : ∀ c ∈ columns, c < width)
    (hrow : row.length = width) (hlength : values.length = columns.length) :
    innerProduct row (widen width columns values) =
      innerProduct (columns.filterMap (row[·]?)) values := by
  rw [innerProduct_filterMap hnodup hlt hrow (length_widen _ _ _) fun _ _ => getD_widen_of_notMem,
    filterMap_widen hnodup hlt hlength]

end OrderedScalar

/-! ### Selections -/

theorem ColumnSelection.expand_eq_ok_iff [Scalar F] {s : ColumnSelection} {values full : List F} :
    s.expand (L := L) values = .ok full ↔
      values.length = s.columns.length ∧ full = widen s.width s.columns values := by
  unfold expand
  split
  · next h => exact iff_of_false (by simp) fun hfull => h hfull.1
  · next h => simpa [eq_comm] using fun _ => not_not.1 h

theorem ColumnSelection.expand_eq_error_iff [Scalar F] {s : ColumnSelection} {values : List F} :
    s.expand (L := L) values =
        .error (.shapeMismatch .reducedProjector s.columns.length values.length) ↔
      values.length ≠ s.columns.length := by
  unfold expand
  split
  · next h => exact iff_of_true rfl h
  · next h => exact iff_of_false (by simp) h

namespace ColumnSelection.Places

variable [OrderedScalar K] {s : ColumnSelection} {width : Nat} {values full : List K}

/-- A row has the projection on what is carried back that its columns have on the vector. -/
theorem dot_expand (h : s.Places width) (hexpand : s.expand (L := L) values = .ok full) {row : List K}
    (hrow : row.length = width) :
    Scalar.dot row full = Scalar.dot (s.columns.filterMap (row[·]?)) values := by
  obtain ⟨hlength, rfl⟩ := expand_eq_ok_iff.1 hexpand
  rw [OrderedScalar.dot_eq_innerProduct, OrderedScalar.dot_eq_innerProduct, h.width_eq,
    OrderedScalar.innerProduct_widen h.nodup h.lt_width hrow hlength]

theorem map_dot_expand [Label L] {d : GroupedDataset K L} (h : s.Places d.width)
    (hexpand : s.expand (L := L) values = .ok full) :
    d.rows.map (Scalar.dot · full) = (d.keepColumns s.columns).rows.map (Scalar.dot · values) := by
  rw [(d.imageOf_keepColumns s.columns).rows_eq, List.map_map]
  exact List.map_congr_left fun row hrow => h.dot_expand hexpand (d.features.shaped row hrow)

end ColumnSelection.Places

/-- A fitted projector goes back to the best one of the reduced data, and the data has the projections on
it that the reduced data has there. -/
theorem projections_of_fitProjector [Label L] [OrderedScalar K] [Eigensolver K] {lambda : K}
    {d : GroupedDataset K L} {s : ColumnSelection} (h : s.Places d.width) {projector : List K}
    (hfit : fitProjector lambda d s = .ok projector) :
    ∃ v, (Discriminant.mk lambda).optimize (d.keepColumns s.columns) = .ok v ∧
      d.rows.map (Scalar.dot · projector) = (d.keepColumns s.columns).rows.map (Scalar.dot · v) := by
  obtain ⟨e, he, hsearch⟩ := bind_eq_ok_iff.1 hfit
  obtain ⟨v, hv, hexpand⟩ := bind_eq_ok_iff.1 hsearch
  rw [h.reduce_eq] at he
  cases he
  exact ⟨v, hv, h.map_dot_expand hexpand⟩

/-- Columns are drawn unless there are too few. They are in ascending order, as many as the policy keeps.
Reducing data to them is taking them from the data, if the data is as wide as it was drawn for or not all
columns are drawn. Vectors of their length, and only these, can be carried back: they have their values at
the columns, and any row has the projection on the result that its columns have on the vector. -/
theorem reduce_expand_of_select [Label L] [RandomSource G] [Scalar F] (p : ColumnPolicy) (width : Nat)
    (g : G) :
    (p.count width ≤ width → ∃ s g', p.select (F := F) (L := L) width g = .ok (s, g')) ∧
    (width < p.count width → p.select (F := F) (L := L) width g =
      .error (.parameter (.choiceTooLarge (p.count width) width))) ∧
    ∀ s g', p.select (F := F) (L := L) width g = .ok (s, g') →
      s.columns.Pairwise (· < ·) ∧ (∀ c ∈ s.columns, c < width) ∧ s.columns.length = p.count width ∧
      (∀ d : GroupedDataset F L,
        s.reduce d = d.selectColumns s.columns ↔ d.width = width ∨ s.isAll = false) ∧
      (∀ v : List F, v.length = s.columns.length → ∃ full : List F,
        s.expand (L := L) v = .ok full ∧ full.length = width ∧
        (∀ i j : Nat, s.columns[i]? = some j → full[j]? = v[i]?) ∧
        ∀ j < width, j ∉ s.columns → full[j]? = some 0) ∧
      (∀ v : List F, s.expand (L := L) v =
          .error (.shapeMismatch .reducedProjector s.columns.length v.length) ↔
        v.length ≠ s.columns.length) ∧
      ∀ (K : Type) [OrderedScalar K] (v full : List K), s.expand (L := L) v = .ok full →
        (∀ row : List K, row.length = width →
          Scalar.dot row full = Scalar.dot (s.columns.filterMap (row[·]?)) v) ∧
        ∀ d : GroupedDataset K L, d.width = width → ∃ e, s.reduce d = .ok e ∧
          d.rows.map (Scalar.dot · full) = e.rows.map (Scalar.dot · v) := by
  refine ⟨exists_select, fun hfew => ?_, fun s g' h => ?_⟩
  · cases p with
    | all => exact absurd hfew (Nat.lt_irrefl width)
    | random n => exact if_pos hfew
  · have hplaces := places_of_select h
    refine ⟨hplaces.ascending, hplaces.lt_width, (ascending_of_select h).2,
      hplaces.reduce_eq_selectColumns_iff, ?_, fun v => ColumnSelection.expand_eq_error_iff, ?_⟩
    · intro v hv
      have hwidth := hplaces.width_eq
      refine ⟨_, ColumnSelection.expand_eq_ok_iff.2 ⟨hv, rfl⟩, ?_, fun i j hj => ?_, fun j hlt hout => ?_⟩
      · rw [length_widen, hwidth]
      · have hlt : j < s.width := hwidth ▸ hplaces.lt_width j (List.mem_of_getElem? hj)
        exact getElem?_widen hplaces.nodup hv hj hlt
      · exact getElem?_widen_of_notMem (hwidth ▸ hlt) hout
    · intro K _ v full hexpand
      refine ⟨fun row => hplaces.dot_expand hexpand, ?_⟩
      rintro d rfl
      exact ⟨_, hplaces.reduce_eq, hplaces.map_dot_expand hexpand⟩

/-- The first and the last of four columns are drawn. -/
theorem reduce_expand_of_select_twoOfFour : ∃ (s : ColumnSelection) (g' : Xoshiro),
    (ColumnPolicy.random 2).select (F := ℚ) (L := Nat) 4 (Xoshiro.ofSeed 7) = .ok (s, g') ∧
      s.columns = [0, 3] ∧ s.expand (L := Nat) [3 / 5, -(4 / 5 : ℚ)] = .ok [3 / 5, 0, 0, -(4 / 5)] ∧
      Scalar.dot [10, 1, 1, 5] [3 / 5, 0, 0, -(4 / 5 : ℚ)] = Scalar.dot [10, 5] [3 / 5, -(4 / 5)] := by
  have hcolumns : (choose 4 2 (Xoshiro.ofSeed 7)).1 = [0, 3] := by decide +kernel
  have hselect : (ColumnPolicy.random 2).select (F := ℚ) (L := Nat) 4 (Xoshiro.ofSeed 7) =
      .ok (⟨[0, 3], 4⟩, (choose 4 2 (Xoshiro.ofSeed 7)).2) := by
    rw [ColumnPolicy.select, if_neg (by decide), ← hcolumns]
  obtain ⟨-, -, hspec⟩ := reduce_expand_of_select (F := ℚ) (L := Nat) (.random 2) 4 (Xoshiro.ofSeed 7)
  obtain ⟨-, -, -, -, -, -, hexact⟩ := hspec _ _ hselect
  have hexpand : (ColumnSelection.mk [0, 3] 4).expand (L := Nat) [3 / 5, -(4 / 5 : ℚ)] =
      .ok [3 / 5, 0, 0, -(4 / 5)] := rfl
  exact ⟨_, _, hselect, rfl, hexpand, (hexact ℚ _ _ hexpand).1 [10, 1, 1, 5] rfl⟩

end PursuitForest
