import PursuitForest.Dataset.Scaling
import PursuitForest.Proofs.Dataset.Classes
import PursuitForest.Proofs.Outcomes
/-!
The same observations with other features.

`ImageOf f e d` says that `e` has the classes of `d`, and in every class the images of its rows in
the same order. Subsets and images of labels keep to it, so whatever is done to the classes can be
done before or after the rows are replaced. Standardizing replaces every row by its scaled form
(`ColumnScale.standardize_eq_ok`).
-/

namespace PursuitForest

variable {F L : Type}

/-- A class with other rows. -/
def ClassGroup.mapRows (f : List F → List F) (c : ClassGroup F L) : ClassGroup F L :=
  ⟨c.label, c.rows.map f⟩

namespace GroupedDataset

variable [Label L] {f : List F → List F} {d e : GroupedDataset F L}

/-- The classes of `d` with the images of their rows. -/
def ImageOf (f : List F → List F) (e d : GroupedDataset F L) : Prop :=
  e.groups = d.groups.map (·.mapRows f)

/-- Rows that are kept as they are. -/
theorem imageOf_id_iff : ImageOf id e d ↔ e.groups = d.groups := by
  rw [ImageOf, show (·.mapRows id) = @id (ClassGroup F L) from funext fun g => by
    rw [ClassGroup.mapRows, List.map_id]; rfl, List.map_id]

namespace ImageOf

theorem presentClasses_eq (h : ImageOf f e d) : e.presentClasses = d.presentClasses := by
  refine LabelSet.ext ?_
  show e.groups.map (·.label) = d.groups.map (·.label)
  rw [h, List.map_map]
  rfl

theorem rows_eq (h : ImageOf f e d) : e.rows = d.rows.map f := by
  rw [rows, rows, h, List.flatMap_map, List.map_flatMap]
  rfl

theorem labels_eq (h : ImageOf f e d) : e.labels = d.labels := by
  rw [labels, labels, h, List.flatMap_map]
  simp only [ClassGroup.mapRows, List.map_map]
  rfl

omit [Label L] in
theorem blocksFrom_mapRows : ∀ (start : Nat) (gs : List (ClassGroup F L)),
    blocksFrom start (gs.map (·.mapRows f)) = blocksFrom start gs
  | _, [] => rfl
  | start, g :: gs => by
      simp only [List.map_cons, blocksFrom, ClassGroup.mapRows, List.length_map]
      rw [← blocksFrom_mapRows (start + g.rows.length) gs]
      rfl

theorem blocks_eq (h : ImageOf f e d) : e.blocks = d.blocks := by
  refine ClassBlocks.ext ?_
  show blocksFrom 0 e.groups = blocksFrom 0 d.groups
  rw [h, blocksFrom_mapRows]

theorem isEmpty_eq (h : ImageOf f e d) : e.isEmpty = d.isEmpty := by
  rw [isEmpty, isEmpty, h, List.isEmpty_map]

theorem trans {o : GroupedDataset F L} {f' : List F → List F} (h : ImageOf f e d)
    (h' : ImageOf f' o e) : ImageOf (f' ∘ f) o d := by
  rw [ImageOf, h', h, List.map_map]
  refine List.map_congr_left fun c _ => ?_
  simp only [Function.comp_apply, ClassGroup.mapRows, List.map_map]

/-- Rows that have the same images make the same classes. -/
theorem groups_congr {o : GroupedDataset F L} {f' : List F → List F} (h : ImageOf f e d)
    (h' : ImageOf f' o d) (hrows : ∀ r ∈ d.rows, f r = f' r) : e.groups = o.groups := by
  rw [h, h']
  refine List.map_congr_left fun c hc => ?_
  rw [ClassGroup.mapRows, ClassGroup.mapRows,
    List.map_congr_left fun r hr => hrows r (List.mem_flatMap.2 ⟨c, hc, hr⟩)]

/-- Rows may be replaced before or after a subset is taken. -/
theorem restrict (h : ImageOf f e d) (classes : LabelSet L) :
    ImageOf f (e.restrict classes) (d.restrict classes) := by
  show e.groups.filter _ = (d.groups.filter _).map _
  rw [h, List.filter_map]
  rfl

/-- Rows may be replaced before or after labels are. -/
theorem remap {L' : Type} [Label L'] (h : ImageOf f e d) (target : L → L') :
    ImageOf f (e.remap target) (d.remap target) := by
  show (e.presentClasses.map target).toList.map _ = ((d.presentClasses.map target).toList.map _).map _
  rw [h.presentClasses_eq, List.map_map]
  refine List.map_congr_left fun label _ => ?_
  show merged e.groups target label = (merged d.groups target label).mapRows f
  rw [merged, merged, ClassGroup.mapRows, h, List.filter_map, List.flatMap_map, List.map_flatMap]
  rfl

end ImageOf

/-! ### Sorting what is sorted -/

omit [Label L] in
/-- The rows of some classes, in a list of rows class after class. -/
theorem filter_flatMap_eq (p : L → Prop) [DecidablePred p] : ∀ gs : List (ClassGroup F L),
    ((gs.flatMap fun g => g.rows.map fun r => (⟨r, g.label⟩ : Observation F L)).filter
      (p ·.label)).map (·.features) = (gs.filter (p ·.label)).flatMap (·.rows)
  | [] => rfl
  | g :: gs => by
      have hfirst : ((g.rows.map fun r => (⟨r, g.label⟩ : Observation F L)).filter
          (p ·.label)).map (·.features) = if p g.label then g.rows else [] := by
        rw [List.filter_map, List.map_map]
        by_cases hg : p g.label
        · rw [if_pos hg, List.filter_eq_self.2 fun _ _ => by simpa using hg]
          exact List.map_id _
        · rw [if_neg hg, List.filter_eq_nil_iff.2 fun _ _ => by simpa using hg]
          rfl
      rw [List.flatMap_cons, List.filter_append, List.map_append, hfirst, filter_flatMap_eq p gs,
        List.filter_cons]
      by_cases hg : p g.label
      · simp [hg]
      · simp [hg]

/-- Sorting rows that are listed class after class changes nothing. -/
theorem groups_ofDataset {o : Dataset F L} {gs : List (ClassGroup F L)}
    (hgs : gs.Pairwise (·.label < ·.label)) (hin : ∀ g ∈ gs, g.rows ≠ [])
    (hrows : o.rows = gs.flatMap fun g => g.rows.map fun r => ⟨r, g.label⟩) :
    (ofDataset o).groups = gs := by
  have hmem : ∀ x, x ∈ o.presentClasses ↔ x ∈ gs.map (·.label) := fun x => by
    rw [Dataset.presentClasses, LabelSet.mem_ofList, Dataset.labels, hrows, List.map_flatMap]
    simp only [List.mem_flatMap, List.mem_map]
    constructor
    · rintro ⟨g, hg, o, ⟨r, -, rfl⟩, rfl⟩
      exact ⟨g, hg, rfl⟩
    · rintro ⟨g, hg, rfl⟩
      obtain ⟨r, hr⟩ := List.exists_mem_of_ne_nil _ (hin g hg)
      exact ⟨g, hg, _, ⟨r, hr, rfl⟩, rfl⟩
  have hclasses : o.presentClasses.toList = gs.map (·.label) :=
    eq_of_ascending o.presentClasses.ascending (List.pairwise_map.2 hgs) hmem
  show o.presentClasses.toList.map (groupOf o) = gs
  rw [hclasses, List.map_map]
  refine (List.map_congr_left fun g hg => ?_).trans (List.map_id gs)
  show groupOf o g.label = g
  rw [groupOf, hrows, filter_flatMap_eq (· = g.label), filter_label_eq hgs hg, List.flatMap_cons, List.flatMap_nil,
    List.append_nil]

end GroupedDataset

/-! ### Standardizing -/

/-- As many rows as labels, all declared, can be paired. -/
theorem Dataset.withClasses_eq_ok [Label L] {x : FeatureTable F} {y : List L} {classes : LabelSet L}
    (hsize : x.size = y.length) (hy : ∀ label ∈ y, label ∈ classes) :
    ∃ o, Dataset.withClasses x y classes = .ok o ∧ o.width = x.width ∧
      o.rows = List.zipWith Observation.mk x.rows y := by
  unfold withClasses
  rw [if_neg (not_not_intro hsize)]
  split
  · next label hlabel =>
    have hmem := hy label (List.mem_of_find?_eq_some hlabel)
    have hnot := List.find?_some hlabel
    simp [hmem] at hnot
  · exact ⟨_, rfl, rfl, rfl⟩

/-- Images of rows, each with its label, in the order of the classes. -/
theorem zipWith_flatMap_labels (f : List F → List F) : ∀ gs : List (ClassGroup F L),
    List.zipWith Observation.mk ((gs.flatMap (·.rows)).map f)
        (gs.flatMap fun g => g.rows.map fun _ => g.label) =
      (gs.map (·.mapRows f)).flatMap fun g => g.rows.map fun r => ⟨r, g.label⟩
  | [] => rfl
  | g :: gs => by
      simp only [List.flatMap_cons, List.map_append, List.map_cons]
      rw [List.zipWith_append (by simp), zipWith_flatMap_labels f gs]
      congr 1
      rw [ClassGroup.mapRows, List.zipWith_map, List.map_map]
      exact List.zipWith_self

namespace ColumnScale

variable [Scalar F] [Label L] {s : ColumnScale F} {d e : GroupedDataset F L}

open GroupedDataset

/-- A scale that has the width of the data standardizes it, row by row. -/
theorem standardize_eq_ok (hmean : s.mean.length = d.width) :
    ∃ e, s.standardize d = .ok e ∧ e.width = d.width ∧ ImageOf (s.scaleRow d.width) e d := by
  have hwidth : commonLength d.features.width s.mean.length = some d.width := by
    rw [hmean]
    exact if_pos rfl
  obtain ⟨x, hx, hxwidth, hxrows⟩ : ∃ x, s.transform (L := L) d.features = .ok x ∧
      x.width = d.width ∧ x.rows = d.rows.map (s.scaleRow d.width) := by
    unfold transform
    rw [hwidth]
    exact ⟨_, rfl, rfl, rfl⟩
  have hlabels : d.toDataset.labels = d.labels := by
    simp only [Dataset.labels, toDataset, labels, List.map_flatMap, List.map_map]
    rfl
  obtain ⟨o, ho, howidth, horows⟩ : ∃ o, d.toDataset.withFeatures x = .ok o ∧ o.width = x.width ∧
      o.rows = List.zipWith Observation.mk x.rows d.toDataset.labels := by
    refine Dataset.withClasses_eq_ok ?_ fun label hlabel => ?_
    · rw [FeatureTable.size, hxrows, hlabels]
      simp [rows, labels, List.length_flatMap]
    · obtain ⟨r, hr, rfl⟩ := List.mem_map.1 hlabel
      exact d.toDataset.covered r hr
  refine ⟨.ofDataset o, ?_, howidth.trans hxwidth, ?_⟩
  · rw [standardize, hx]
    simp only [bind, Except.bind, ho]
    rfl
  · refine groups_ofDataset ?_ ?_ ?_
    · exact List.pairwise_map.2 d.ascending
    · intro g hg
      obtain ⟨g', hg', rfl⟩ := List.mem_map.1 hg
      simpa [ClassGroup.mapRows] using d.inhabited g' hg'
    · rw [horows, hxrows, hlabels]
      exact zipWith_flatMap_labels _ d.groups

end ColumnScale

end PursuitForest
