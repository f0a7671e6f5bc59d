import PursuitForest.Proofs.Dataset.Storage
/-!
Subsets and images of labels, as relations.

Neither `subset` nor `remap` ever sorts rows. What they give is nevertheless what sorting gives:
`subset` the sorted rows of the listed classes (`GroupedDataset.restrict_eq_ofDataset`), `remap` the
sorted rows with their labels replaced (`GroupedDataset.remap_eq_ofDataset`), however many classes
meet in one label and whatever the images do to the order of the labels.
-/

namespace PursuitForest

variable {F L : Type} [Label L]

/-- The rows of the listed classes, in their order. These are the classes of the result. -/
def Dataset.restrict (d : Dataset F L) (classes : LabelSet L) : Dataset F L where
  width := d.width
  rows := d.rows.filter (·.label ∈ classes)
  classes
  shaped o ho := d.shaped o (List.mem_filter.1 ho).1
  covered o ho := by simpa using (List.mem_filter.1 ho).2

namespace GroupedDataset

/-- Observations that are sorted already are grouped as they are. -/
theorem ofDataset_toDataset (d : GroupedDataset F L) : ofDataset d.toDataset = d :=
  ext rfl (groups_ofDataset d.ascending d.inhabited rfl) rfl

theorem mem_labels {d : GroupedDataset F L} {x : L} : x ∈ d.labels ↔ x ∈ d.presentClasses := by
  rw [mem_presentClasses, labels, List.mem_flatMap]
  constructor
  · rintro ⟨g, hg, hx⟩
    obtain ⟨-, -, rfl⟩ := List.mem_map.1 hx
    exact ⟨g, hg, rfl⟩
  · rintro ⟨g, hg, rfl⟩
    obtain ⟨r, hr⟩ := List.exists_mem_of_ne_nil _ (d.inhabited g hg)
    exact ⟨g, hg, List.mem_map.2 ⟨r, hr, rfl⟩⟩

/-! ### Subsets -/

omit [Label L] in
theorem filter_flatMap_groups (p : L → Bool) : ∀ gs : List (ClassGroup F L),
    (gs.flatMap fun g => g.rows.map fun r => (⟨r, g.label⟩ : Observation F L)).filter (p ·.label) =
      (gs.filter (p ·.label)).flatMap fun g => g.rows.map fun r => ⟨r, g.label⟩
  | [] => rfl
  | g :: gs => by
      rw [List.flatMap_cons, List.filter_append, filter_flatMap_groups p gs, List.filter_map]
      by_cases hg : p g.label
      · simp [hg, Function.comp_def]
      · simp [hg, Function.comp_def]

theorem toDataset_restrict (d : GroupedDataset F L) (classes : LabelSet L) :
    (d.restrict classes).toDataset = d.toDataset.restrict classes :=
  Dataset.ext rfl (filter_flatMap_groups (· ∈ classes) d.groups).symm rfl

/-- The rows of some classes are grouped as they were. -/
theorem restrict_eq_ofDataset (d : GroupedDataset F L) (classes : LabelSet L) :
    d.restrict classes = ofDataset (d.toDataset.restrict classes) := by
  rw [← toDataset_restrict, ofDataset_toDataset]

/-- A subset fails by naming a class without rows. -/
theorem subset_eq_error {d : GroupedDataset F L} {classes : LabelSet L} {x : L} (hx : x ∈ classes)
    (habsent : x ∉ d.presentClasses) :
    ∃ label, d.subset classes = .error (.parameter (.absentSubsetClass label)) := by
  unfold subset
  split
  · next label _ => exact ⟨label, rfl⟩
  · next hnone =>
    have hpresent := List.find?_eq_none.1 hnone x hx
    simp [habsent] at hpresent

/-! ### Images of labels -/

section
variable {L' : Type} [Label L']

theorem presentClasses_relabel (d : GroupedDataset F L) (f : L → L') :
    (d.toDataset.relabel f).presentClasses = d.presentClasses.map f := by
  refine LabelSet.ext_mem fun y => ?_
  have hlabels : (d.toDataset.relabel f).labels = d.labels.map f := by
    rw [← labels_toDataset, Dataset.labels, Dataset.labels, List.map_map]
    exact List.map_map
  rw [Dataset.presentClasses, LabelSet.mem_ofList, LabelSet.mem_map, hlabels, List.mem_map]
  simp only [mem_labels]

/-- The rows of all classes that go to a label, from top to bottom. -/
theorem merged_eq_groupOf (d : GroupedDataset F L) (f : L → L') (target : L') :
    merged d.groups f target = groupOf (d.toDataset.relabel f) target := by
  have hrows := filter_flatMap_eq (f · = target) d.groups
  rw [merged, groupOf, ← hrows]
  simp only [Dataset.relabel, List.filter_map, List.map_map]
  rfl

/-- Joining whole groups is replacing labels and sorting. -/
theorem remap_eq_ofDataset (d : GroupedDataset F L) (f : L → L') :
    d.remap f = ofDataset (d.toDataset.relabel f) := by
  refine ext rfl ?_ rfl
  show (d.presentClasses.map f).toList.map (merged d.groups f) =
    (d.toDataset.relabel f).presentClasses.toList.map (groupOf (d.toDataset.relabel f))
  rw [presentClasses_relabel]
  exact List.map_congr_left fun target _ => d.merged_eq_groupOf f target

end

/-- Classes that keep their labels are kept. -/
theorem remap_of_fixed {d : GroupedDataset F L} {f : L → L} (hf : ∀ x ∈ d.classes, f x = x) :
    d.remap f = d := by
  refine ext rfl (groups_remap_of_fixed fun x hx => hf x ?_) (LabelSet.ext_mem fun y => ?_)
  · obtain ⟨g, hg, rfl⟩ := mem_presentClasses.1 hx
    exact d.covered g hg
  · show y ∈ d.classes.map f ↔ y ∈ d.classes
    rw [LabelSet.mem_map]
    constructor
    · rintro ⟨x, hx, rfl⟩
      rwa [hf x hx]
    · intro hy
      exact ⟨y, hy, hf y hy⟩

/-- Subsets and images of labels against their relational definitions. -/
theorem subset_remap_eq_ofDataset (d : GroupedDataset F L) :
    (∀ f : L → L, d.remap f = ofDataset (d.toDataset.relabel f) ∧
      d.table.remap f = (d.toDataset.relabel f).table.sort ∧
      (d.remap f).toDataset.rows =
        (d.toDataset.relabel f).rows.mergeSort (labelLe (·.label))) ∧
    (∀ classes : LabelSet L,
      ((∃ p, d.subset classes = .error (.parameter p)) ↔ ∃ x ∈ classes, x ∉ d.labels) ∧
      ((∀ x ∈ classes, x ∈ d.labels) →
        d.subset classes = .ok (ofDataset (d.toDataset.restrict classes)) ∧
        d.table.subset classes = (d.toDataset.restrict classes).table.sort)) ∧
    (∀ (outer inner : LabelSet L) (e : GroupedDataset F L), (∀ x ∈ inner, x ∈ outer) →
      d.subset outer = .ok e → e.subset inner = d.subset inner) ∧
    ∀ f : L → L, (∀ x ∈ d.classes, f x = x) → d.remap f = d := by
  refine ⟨fun f => ⟨d.remap_eq_ofDataset f, ?_, ?_⟩, fun classes => ⟨⟨?_, ?_⟩, fun hpresent => ?_⟩,
    ?_, fun f => remap_of_fixed⟩
  · rw [table_remap, table_sort, remap_eq_ofDataset]
  · rw [remap_eq_ofDataset, rows_ofDataset]
  · rintro ⟨p, hp⟩
    by_contra hall
    have hok : d.subset classes = .ok (d.restrict classes) :=
      subset_eq_restrict fun x hx => mem_labels.1 (by_contra fun habsent => hall ⟨x, hx, habsent⟩)
    rw [hok] at hp
    cases hp
  · rintro ⟨x, hx, habsent⟩
    obtain ⟨label, hlabel⟩ := subset_eq_error hx fun hpresent => habsent (mem_labels.2 hpresent)
    exact ⟨_, hlabel⟩
  · have hok : d.subset classes = .ok (ofDataset (d.toDataset.restrict classes)) := by
      rw [← restrict_eq_ofDataset]
      exact subset_eq_restrict fun x hx => mem_labels.1 (hpresent x hx)
    refine ⟨hok, ?_⟩
    rw [table_sort, ← table_subset, hok]
    rfl
  · intro outer inner e hinner he
    obtain ⟨hpresent, rfl⟩ := subset_eq_ok_iff.1 he
    have hd := subset_eq_restrict fun x hx => hpresent x (hinner x hx)
    have he' : ∀ x ∈ inner, x ∈ (d.restrict outer).presentClasses := fun x hx =>
      mem_presentClasses_restrict.2 ⟨hpresent x (hinner x hx), hinner x hx⟩
    rw [hd, subset_eq_restrict he', restrict_restrict hinner]

/-- Five rows of three of four classes. -/
def fiveRows : GroupedDataset Nat Nat :=
  .ofDataset {
    width := 1
    rows := [⟨[5], 2⟩, ⟨[1], 0⟩, ⟨[4], 1⟩, ⟨[2], 0⟩, ⟨[7], 2⟩]
    classes := .ofList [0, 1, 2, 3]
    shaped := by decide
    covered := by decide }

/-- The outer classes meet in the largest label; the class without rows is no subset. -/
theorem subset_remap_fiveRows :
    (fiveRows.remap fun label => if label = 1 then 0 else 4).labels = [0, 4, 4, 4, 4] ∧
    (fiveRows.remap fun label => if label = 1 then 0 else 4) =
      ofDataset (fiveRows.toDataset.relabel fun label => if label = 1 then 0 else 4) ∧
    (∃ p, fiveRows.subset (.ofList [0, 3]) = .error (.parameter p)) ∧
    (∃ e, fiveRows.subset (.ofList [0, 2]) = .ok e ∧ e.labels = [0, 0, 2, 2] ∧
      e.subset (.singleton 2) = fiveRows.subset (.singleton 2)) ∧
    (fiveRows.remap fun label => label % 5) = fiveRows := by
  obtain ⟨hremap, hsubset, htwice, hfixed⟩ := subset_remap_eq_ofDataset fiveRows
  obtain ⟨hok, -⟩ := (hsubset (.ofList [0, 2])).2 (by decide)
  refine ⟨by decide, (hremap _).1, (hsubset (.ofList [0, 3])).1.2 ⟨3, by decide, by decide⟩, ?_,
    hfixed _ (by decide)⟩
  exact ⟨_, hok, by decide, htwice (.ofList [0, 2]) (.singleton 2) _ (by decide) hok⟩

end GroupedDataset
end PursuitForest
