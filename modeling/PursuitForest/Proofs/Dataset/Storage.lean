import Mathlib.Data.List.Basic
import PursuitForest.Proofs.Dataset.RowImages
import PursuitForest.Proofs.Dataset.Tables
import PursuitForest.Proofs.Outcomes
/-!
What is done to observations is done to their tables.

Every operation on the table of some observations gives the table of what the operation on the
observations gives, or fails as that does. Sorting gathers by sorted places, subsets and images of
labels gather whole blocks (`GroupedDataset.rows_places`), and an index that is kept or read anew is
that of the blocks (`GroupedDataset.index_toDataset`). Tables of observations are consistent
(`Dataset.sound_table`, `GroupedDataset.sound_table`).
-/

namespace PursuitForest

variable {F L : Type}

/-! ### Gathering -/

@[simp] theorem FeatureTable.rows_gather (t : FeatureTable F) (places : List Nat) :
    (t.gather places).rows = places.filterMap (t.rows[·]?) := by
  simp [FeatureTable.gather]

namespace Dataset

variable [Label L]

@[simp] theorem rows_gather (d : Dataset F L) (places : List Nat) :
    (d.gather places).rows = places.filterMap (d.rows[·]?) := by
  simp [gather]

/-- The table of some observations. -/
def table (d : Dataset F L) : LabelledTable F L := ⟨d.features, d.labels, d.classes⟩

omit [Label L] in
theorem map_zipWith_mk : ∀ {rows : List (List F)} {labels : List L}, rows.length = labels.length →
    (List.zipWith Observation.mk rows labels).map (·.features) = rows ∧
      (List.zipWith Observation.mk rows labels).map (·.label) = labels
  | [], [], _ => ⟨rfl, rfl⟩
  | r :: rows, label :: labels, h => by
      obtain ⟨hrows, hlabels⟩ := map_zipWith_mk (Nat.succ.inj h)
      simp [hrows, hlabels]

theorem table_withClasses (x : FeatureTable F) (y : List L) (classes : LabelSet L) :
    (withClasses x y classes).map table = LabelledTable.withClasses x y classes := by
  unfold withClasses LabelledTable.withClasses
  by_cases hsize : x.size = y.length
  · obtain ⟨hrows, hlabels⟩ := map_zipWith_mk hsize
    simp only [hsize, ne_eq, not_true_eq_false, if_false]
    split
    · next label hlabel => simp only [hlabel, Except.map]
    · next hnone =>
      simp only [hnone]
      exact congrArg Except.ok (LabelledTable.ext (FeatureTable.ext rfl hrows) hlabels rfl)
  · simp only [hsize, ne_eq, not_false_eq_true, if_true, Except.map]

theorem table_gather (d : Dataset F L) (places : List Nat) : (d.gather places).table =
    ⟨d.table.features.gather places, places.filterMap (d.table.labels[·]?), d.table.classes⟩ := by
  refine LabelledTable.ext (FeatureTable.ext rfl ?_) ?_ rfl
  · simp [table, features, List.map_filterMap]
  · simp [table, labels, List.map_filterMap]

theorem table_select (d : Dataset F L) (places : List Nat) :
    (d.select places).map table = d.table.select places := by
  have hfeatures : d.table.features.size = d.size := List.length_map _
  have hlabels : d.table.labels.length = d.size := List.length_map _
  rw [select, LabelledTable.select, FeatureTable.select, hfeatures, hlabels]
  split
  · exact congrArg Except.ok (d.table_gather places)
  · rfl

theorem table_selectColumns (d : Dataset F L) (columns : List Nat) :
    (d.selectColumns columns).map table = d.table.selectColumns columns := by
  have hwidth : d.table.features.width = d.width := rfl
  rw [selectColumns, LabelledTable.selectColumns, hwidth]
  split
  · refine congrArg Except.ok (LabelledTable.ext (FeatureTable.ext rfl ?_) ?_ rfl)
    · simp [table, features, keepColumns, FeatureTable.keepColumns]
    · simp [table, labels, keepColumns]
  · rfl

/-! ### Sorting -/

/-- Gathering all places in order changes nothing. -/
theorem gather_range (d : Dataset F L) : d.gather (List.range d.size) = d := by
  refine Dataset.ext rfl ?_ rfl
  rw [rows_gather, size, filterMap_range_getElem?]

/-- The places that the labels are sorted into are those of the sorted observations. -/
theorem sortedPlaces_labels (d : Dataset F L) : LabelledTable.sortedPlaces d.labels =
    (d.rows.zipIdx.mergeSort (labelLe (·.1.label))).map (·.2) := by
  have hzip : d.labels.zipIdx = d.rows.zipIdx.map (Prod.map (·.label) id) := List.zipIdx_map
  rw [LabelledTable.sortedPlaces, hzip, ← map_mergeSort_label, List.map_map]
  rfl

/-- Gathering the sorted places sorts. -/
theorem gather_sortedPlaces (d : Dataset F L) :
    d.gather (LabelledTable.sortedPlaces d.labels) = (GroupedDataset.ofDataset d).toDataset := by
  refine Dataset.ext rfl ?_ rfl
  have hat : ∀ p ∈ d.rows.zipIdx.mergeSort (labelLe (·.1.label)), d.rows[p.2]? = some p.1 := by
    intro p hp
    rw [(List.mergeSort_perm _ _).mem_iff] at hp
    exact List.mem_zipIdx_iff_getElem?.1 hp
  rw [GroupedDataset.rows_ofDataset, rows_gather, sortedPlaces_labels, List.filterMap_map]
  calc (d.rows.zipIdx.mergeSort (labelLe (·.1.label))).filterMap ((d.rows[·]?) ∘ (·.2))
      = (d.rows.zipIdx.mergeSort (labelLe (·.1.label))).map (·.1) := by
        rw [← List.filterMap_eq_map]
        exact List.filterMap_congr hat
    _ = d.rows.mergeSort (labelLe (·.label)) := by
        have hsort := map_mergeSort_label (·.label) Prod.fst d.rows.zipIdx
        rwa [List.zipIdx_map_fst] at hsort

theorem mem_sortedPlaces {d : Dataset F L} {i : Nat} :
    i ∈ LabelledTable.sortedPlaces d.labels ↔ i < d.size := by
  rw [sortedPlaces_labels, ((List.mergeSort_perm _ _).map _).mem_iff, List.zipIdx_map_snd]
  simp [size]

end Dataset

namespace GroupedDataset

variable [Label L]

/-- The table of grouped observations, with the index of their blocks. -/
def table (d : GroupedDataset F L) : IndexedTable F L := ⟨d.toDataset.table, d.blocks⟩

/-- The index of grouped observations is what their labels are read to. -/
theorem index_toDataset (d : GroupedDataset F L) : d.toDataset.table.index = .ok d.table := by
  have hscan : ClassBlocks.scan (F := F) d.toDataset.table.labels = .ok d.blocks := by
    rw [Dataset.table, labels_toDataset, scan_labels]
  rw [LabelledTable.index, hscan]
  rfl

/-- The table of some observations is sorted into that of the grouped observations. -/
theorem table_sort (d : Dataset F L) : d.table.sort = .ok (ofDataset d).table := by
  have hselect : d.table.select (LabelledTable.sortedPlaces d.labels) =
      .ok (ofDataset d).toDataset.table := by
    rw [← Dataset.table_select, Dataset.select, if_pos fun _ => Dataset.mem_sortedPlaces.1,
      Dataset.gather_sortedPlaces]
    rfl
  have hsize : d.table.features.size = d.size := List.length_map _
  have hrows : (if LabelledTable.sortedPlaces d.table.labels = List.range d.table.features.size
      then .ok d.table else d.table.select (LabelledTable.sortedPlaces d.table.labels)) =
        (.ok (ofDataset d).toDataset.table : Except (Error F L) _) := by
    rw [hsize]
    split
    · next hsorted =>
      -- places in order name every row in its place
      have hplaces : LabelledTable.sortedPlaces d.labels = List.range d.size := hsorted
      rw [← Dataset.gather_sortedPlaces, hplaces, Dataset.gather_range]
    · exact hselect
  rw [LabelledTable.sort, hrows]
  exact (ofDataset d).index_toDataset

/-! ### Moving blocks -/

theorem withClasses_toDataset (d : GroupedDataset F L) :
    LabelledTable.withClasses d.features d.labels d.classes = .ok d.toDataset.table := by
  have hsize : d.features.size = d.labels.length := d.length_labels.symm
  have hdeclared : d.labels.find? (fun label => decide (label ∉ d.classes)) = none := by
    refine List.find?_eq_none.2 fun label hlabel => ?_
    obtain ⟨g, hg, hlabel⟩ := List.mem_flatMap.1 hlabel
    obtain ⟨-, -, rfl⟩ := List.mem_map.1 hlabel
    simpa using d.covered g hg
  rw [LabelledTable.withClasses, if_neg (not_not_intro hsize), hdeclared]
  rw [Dataset.table, features_toDataset, labels_toDataset]
  rfl

theorem lt_size_of_mem_places {d : GroupedDataset F L} {b : ClassBlock L} (hb : b ∈ d.blocks.toList)
    {i : Nat} (hi : i ∈ b.places) : i < d.size := by
  have h := (mem_places_iff hb).1 hi
  rw [← length_labels]
  exact (List.getElem?_eq_some_iff.1 h).1

/-- The rows at the places of some blocks. -/
theorem rows_places (d : GroupedDataset F L) (p : L → Bool) :
    ((d.blocks.toList.filter (p ·.label)).flatMap (·.places)).filterMap (d.rows[·]?) =
      (d.groups.filter (p ·.label)).flatMap (·.rows) :=
  filterMap_places (fun _ => rfl) p d.groups []

theorem labels_places (d : GroupedDataset F L) (p : L → Bool) :
    ((d.blocks.toList.filter (p ·.label)).flatMap (·.places)).filterMap (d.labels[·]?) =
      (d.groups.filter (p ·.label)).flatMap fun g => g.rows.map fun _ => g.label :=
  filterMap_places (fun _ => List.length_map _) p d.groups []

theorem placesOf_label {d : GroupedDataset F L} {b : ClassBlock L} (hb : b ∈ d.blocks.toList) :
    d.table.placesOf b.label = .ok b.places := by
  have hfind : d.table.blocks.find? b.label = some b := ClassBlocks.find?_label hb
  rw [IndexedTable.placesOf, hfind]

theorem placesOf_absent {d : GroupedDataset F L} {label : L} (h : label ∉ d.presentClasses) :
    d.table.placesOf label = .error (.parameter (.absentSubsetClass label)) := by
  have hfind : d.table.blocks.find? label = none := by
    refine List.find?_eq_none.2 fun b hb hlabel => h ?_
    rw [← labels_blocks]
    exact List.mem_map.2 ⟨b, hb, of_decide_eq_true hlabel⟩
  rw [IndexedTable.placesOf, hfind]

/-- The places of classes that all have rows. -/
theorem mapM_placesOf {d : GroupedDataset F L} {classes : LabelSet L}
    (h : ∀ x ∈ classes, x ∈ d.presentClasses) : classes.toList.mapM d.table.placesOf =
      .ok ((d.blocks.toList.filter (·.label ∈ classes)).map (·.places)) := by
  have hlabels : classes.toList = (d.blocks.toList.filter (·.label ∈ classes)).map (·.label) := by
    refine eq_of_ascending classes.ascending
      (List.pairwise_map.2 (d.blocks.ascending.filter _)) fun x => ?_
    rw [List.mem_map]
    constructor
    · intro hx
      have hpresent := h x hx
      rw [← labels_blocks] at hpresent
      obtain ⟨b, hb, rfl⟩ := List.mem_map.1 hpresent
      exact ⟨b, List.mem_filter.2 ⟨hb, decide_eq_true hx⟩, rfl⟩
    · rintro ⟨b, hb, rfl⟩
      exact of_decide_eq_true (List.mem_filter.1 hb).2
  rw [hlabels, List.mapM_map]
  exact mapM_eq_ok fun b hb => placesOf_label (List.mem_filter.1 hb).1

/-- The places of some blocks are those of rows. -/
theorem lt_size_of_mem_flatMap_places {d : GroupedDataset F L} {bs : List (ClassBlock L)}
    (hbs : ∀ b ∈ bs, b ∈ d.blocks.toList) {i : Nat} (hi : i ∈ bs.flatMap (·.places)) :
    i < d.size := by
  obtain ⟨b, hb, hi⟩ := List.mem_flatMap.1 hi
  exact lt_size_of_mem_places (hbs b hb) hi

/-- Gathering the blocks of some classes gives the rows of these classes. -/
theorem select_places (d : GroupedDataset F L) (classes : LabelSet L) :
    d.toDataset.table.select ((d.blocks.toList.filter (·.label ∈ classes)).flatMap (·.places)) =
      .ok ⟨(d.restrict classes).features, (d.restrict classes).labels, d.classes⟩ := by
  have hlt : ∀ i ∈ (d.blocks.toList.filter (·.label ∈ classes)).flatMap (·.places), i < d.size :=
    fun i hi => lt_size_of_mem_flatMap_places (fun b hb => (List.mem_filter.1 hb).1) hi
  have hfeatures : d.features.gather
      ((d.blocks.toList.filter (·.label ∈ classes)).flatMap (·.places)) =
        (d.restrict classes).features := by
    refine FeatureTable.ext rfl ?_
    rw [FeatureTable.rows_gather]
    exact d.rows_places (· ∈ classes)
  have hlabels : ((d.blocks.toList.filter (·.label ∈ classes)).flatMap (·.places)).filterMap
      (d.labels[·]?) = (d.restrict classes).labels := d.labels_places (· ∈ classes)
  rw [Dataset.table, features_toDataset, labels_toDataset, LabelledTable.select,
    FeatureTable.select, if_pos (show ∀ i ∈ _, i < d.features.size from hlt), hfeatures]
  simp only [bind, Except.bind]
  rw [if_pos (by rw [length_labels]; exact hlt), hlabels]
  rfl

/-- Gathering the blocks of the listed classes gives the table of the subset. -/
theorem table_subset (d : GroupedDataset F L) (classes : LabelSet L) :
    (d.subset classes).map table = d.table.subset classes := by
  unfold subset
  split
  · next label hlabel =>
    obtain ⟨habsent, i, hi, rfl, hbefore⟩ := List.find?_eq_some_iff_getElem.1 hlabel
    have herror := placesOf_absent (of_decide_eq_true habsent)
    have hplaces : classes.toList.mapM d.table.placesOf =
        .error (.parameter (.absentSubsetClass classes.toList[i])) := by
      refine mapM_eq_error_iff.2 ⟨i, _, List.getElem?_eq_getElem hi, herror, fun j hj y hy => ?_⟩
      obtain ⟨hlt, rfl⟩ := List.getElem?_eq_some_iff.1 hy
      have hpresent := hbefore j hj
      simp only [Bool.not_eq_true', decide_eq_false_iff_not, not_not] at hpresent
      rw [← labels_blocks] at hpresent
      obtain ⟨b, hb, hb'⟩ := List.mem_map.1 hpresent
      exact ⟨b.places, hb' ▸ placesOf_label hb⟩
    rw [IndexedTable.subset, hplaces]
    rfl
  · next hnone =>
    have hall : ∀ x ∈ classes, x ∈ d.presentClasses := fun x hx => by
      simpa using List.find?_eq_none.1 hnone x hx
    have hdeclare : LabelledTable.withClasses (d.restrict classes).features
        (d.restrict classes).labels classes = .ok (d.restrict classes).toDataset.table :=
      (d.restrict classes).withClasses_toDataset
    rw [IndexedTable.subset, mapM_placesOf hall]
    simp only [bind, Except.bind, ← List.flatMap_def, table, select_places, hdeclare,
      index_toDataset]
    rfl

section
variable {L' : Type} [Label L']

/-- Blocks stand from top to bottom already. -/
theorem blocksTo_table (d : GroupedDataset F L) (f : L → L') (target : L') :
    d.table.blocksTo f target = d.blocks.toList.filter (f ·.label = target) := by
  have hpairwise : d.blocks.toList.Pairwise (·.stop ≤ ·.start) := pairwise_blocksFrom 0 d.groups
  refine List.mergeSort_of_pairwise ((hpairwise.filter _).imp fun {b c} h => decide_eq_true ?_)
  simp only [ClassBlock.stop] at h ⊢
  omega

/-- Gathering the blocks of every image gives the rows of the images. -/
theorem select_blocksTo (d : GroupedDataset F L) (f : L → L') :
    d.features.select ((d.presentClasses.map f).toList.flatMap fun target =>
      (d.table.blocksTo f target).flatMap (·.places)) =
        (.ok (d.remap f).features : Except (Error F L') _) := by
  refine (if_pos fun i hi => ?_).trans (congrArg Except.ok (FeatureTable.ext rfl ?_))
  · obtain ⟨target, -, hi⟩ := List.mem_flatMap.1 hi
    rw [blocksTo_table] at hi
    exact lt_size_of_mem_flatMap_places (fun b hb => (List.mem_filter.1 hb).1) hi
  · rw [FeatureTable.rows_gather, List.filterMap_flatMap]
    refine Eq.trans ?_ (List.flatMap_map _ _ _).symm
    refine congrArg (List.flatMap · _) (funext fun target => ?_)
    rw [blocksTo_table]
    exact d.rows_places (f · = target)

theorem labels_blocksTo (d : GroupedDataset F L) (f : L → L') :
    ((d.presentClasses.map f).toList.flatMap fun target =>
      (d.table.blocksTo f target).flatMap fun b => List.replicate b.size target) =
        (d.remap f).labels := by
  refine Eq.trans ?_ (List.flatMap_map _ _ _).symm
  refine congrArg (List.flatMap · _) (funext fun target => ?_)
  rw [blocksTo_table]
  exact flatMap_replicate_blocksFrom target (f · = target) 0 d.groups

/-- Moving whole blocks gives the table of the relabelled observations. -/
theorem table_remap (d : GroupedDataset F L) (f : L → L') :
    d.table.remap f = .ok (d.remap f).table := by
  have hdeclare : LabelledTable.withClasses (d.remap f).features (d.remap f).labels
      (d.classes.map f) = .ok (d.remap f).toDataset.table := (d.remap f).withClasses_toDataset
  have hfeatures : d.table.features = d.features := d.features_toDataset
  have hlabels : d.table.blocks.labels = d.presentClasses := d.labels_blocks
  have hclasses : d.table.classes = d.classes := rfl
  rw [IndexedTable.remap, hfeatures, hlabels, hclasses, labels_blocksTo, select_blocksTo]
  simp only [bind, Except.bind, hdeclare, index_toDataset]

end

/-! ### Columns -/

theorem imageOf_keepColumns (d : GroupedDataset F L) (columns : List Nat) :
    ImageOf (fun r => columns.filterMap (r[·]?)) (d.keepColumns columns) d := rfl

/-- Columns may be taken before or after labels are replaced. -/
theorem keepColumns_remap {L' : Type} [Label L'] (d : GroupedDataset F L) (f : L → L')
    (columns : List Nat) : (d.remap f).keepColumns columns = (d.keepColumns columns).remap f :=
  GroupedDataset.ext rfl ((d.imageOf_keepColumns columns).remap f).symm rfl

theorem toDataset_keepColumns (d : GroupedDataset F L) (columns : List Nat) :
    (d.keepColumns columns).toDataset = d.toDataset.keepColumns columns := by
  refine Dataset.ext rfl ?_ rfl
  simp only [toDataset, keepColumns, Dataset.keepColumns, List.flatMap_map, List.map_flatMap,
    List.map_map]
  rfl

/-- Columns are taken without a look at the index. -/
theorem table_selectColumns (d : GroupedDataset F L) (columns : List Nat) :
    (d.selectColumns columns).map table = d.table.selectColumns columns := by
  have hwidth : d.toDataset.width = d.width := rfl
  have htable : d.table.toLabelledTable = d.toDataset.table := rfl
  rw [IndexedTable.selectColumns, htable, ← Dataset.table_selectColumns, selectColumns,
    Dataset.selectColumns, hwidth]
  split
  · simp only [Except.map, table, toDataset_keepColumns, (d.imageOf_keepColumns columns).blocks_eq]
  · rfl

end GroupedDataset

theorem Dataset.table_withFeatures [Label L] (d : Dataset F L) (x : FeatureTable F) :
    (d.withFeatures x).map table = d.table.withFeatures x :=
  table_withClasses x d.labels d.classes

/-! ### Soundness -/

/-- The table of any observations is consistent. -/
theorem Dataset.sound_table [Label L] (d : Dataset F L) : d.table.Sound where
  size_eq := by simp [table, features, labels, FeatureTable.size]
  declared label hlabel := by
    obtain ⟨o, ho, rfl⟩ := List.mem_map.1 hlabel
    exact d.covered o ho

/-- The table of any grouped observations is consistent, and its index is that of its blocks. -/
theorem GroupedDataset.sound_table [Label L] (d : GroupedDataset F L) : d.table.Sound where
  toSound := d.toDataset.sound_table
  ascending := by
    show d.toDataset.labels.Pairwise _
    rw [labels_toDataset]
    exact d.pairwise_labels
  inhabited b hb := size_pos_of_mem_blocksFrom d.inhabited hb
  stop_eq b _ := rfl
  follow := by
    show ClassBlock.Follow 0 _ d.toDataset.features.size
    rw [features_toDataset, ← Nat.zero_add d.features.size]
    exact follow_blocksFrom 0 d.groups
  mem_places_iff b hb i := by
    show _ ↔ d.toDataset.labels[i]? = _
    rw [labels_toDataset]
    exact GroupedDataset.mem_places_iff hb

end PursuitForest
