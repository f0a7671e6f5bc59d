import PursuitForest.Proofs.Dataset.Layout
import PursuitForest.Proofs.Dataset.Relabelling
/-!
Labels replaced by others in the same order.

An increasing map keeps classes apart and in their order (`Increasing.toList_map`). Grouped
observations then keep their groups, each under its new label (`Increasing.groups_remap`), so whatever
is done to them may be done before or after their labels are replaced: sorting, subsets, joins of
classes, and bootstrap draws, which come to the same places.
-/

namespace PursuitForest

variable {F L L' : Type} [Label L] [Label L']

/-- A map of labels that keeps their order. -/
def Increasing (f : L → L') : Prop := ∀ a b, a < b → f a < f b

/-! ### Sets of labels -/

namespace LabelSet

variable (f : L → L')

theorem map_singleton (x : L) : (singleton x).map f = singleton (f x) := by
  refine ext_mem fun y => ?_
  simp [eq_comm]

theorem map_ofList (xs : List L) : (ofList xs).map f = ofList (xs.map f) := by
  refine ext_mem fun y => ?_
  simp [mem_map]

theorem map_union (s t : LabelSet L) : (s.union t).map f = (s.map f).union (t.map f) := by
  refine ext_mem fun y => ?_
  simp only [mem_map, mem_union, or_and_right, exists_or]

theorem map_map {L'' : Type} [Label L''] (h : L' → L'') (s : LabelSet L) :
    (s.map f).map h = s.map (h ∘ f) := by
  refine ext_mem fun z => ?_
  simp [mem_map]

end LabelSet

namespace Increasing

variable {f : L → L'}

theorem eq_iff (hf : Increasing f) {a b : L} : f a = f b ↔ a = b := by
  constructor
  · intro h
    rcases Std.lt_trichotomy a b with hlt | heq | hgt
    · exact absurd h (Label.ne_of_lt (hf a b hlt))
    · exact heq
    · exact absurd h.symm (Label.ne_of_lt (hf b a hgt))
  · rintro rfl
    rfl

theorem lt_iff (hf : Increasing f) {a b : L} : f a < f b ↔ a < b := by
  constructor
  · intro h
    rcases Std.lt_trichotomy a b with hlt | rfl | hgt
    · exact hlt
    · exact absurd h (Label.lt_irrefl _)
    · exact absurd (Label.lt_trans h (hf b a hgt)) (Label.lt_irrefl _)
  · exact hf a b

theorem mem_map_iff (hf : Increasing f) {x : L} {s : LabelSet L} : f x ∈ s.map f ↔ x ∈ s := by
  rw [LabelSet.mem_map]
  constructor
  · rintro ⟨y, hy, heq⟩
    rwa [← hf.eq_iff.1 heq]
  · intro hx
    exact ⟨x, hx, rfl⟩

/-- The image of an ascending list is ascending. -/
theorem toList_map (hf : Increasing f) (s : LabelSet L) : (s.map f).toList = s.toList.map f := by
  refine eq_of_ascending (s.map f).ascending
    (List.pairwise_map.2 (s.ascending.imp fun {a b} => hf a b)) fun y => ?_
  rw [List.mem_map]
  exact LabelSet.mem_map

theorem min?_map (hf : Increasing f) (s : LabelSet L) : (s.map f).min? = s.min?.map f := by
  rw [LabelSet.min?, LabelSet.min?, hf.toList_map, List.head?_map]

end Increasing

/-! ### Observations -/

namespace Dataset

/-- Labels may be replaced twice, or once by both. -/
theorem relabel_relabel {L'' : Type} [Label L''] (d : Dataset F L) (f : L → L') (h : L' → L'') :
    (d.relabel f).relabel h = d.relabel (h ∘ f) := by
  refine ext rfl ?_ (LabelSet.map_map f h d.classes)
  simp [relabel]

theorem gather_relabel (d : Dataset F L) (f : L → L') (places : List Nat) :
    (d.relabel f).gather places = (d.gather places).relabel f := by
  refine ext rfl ?_ rfl
  simp only [gather, relabel, List.map_filterMap]
  refine List.filterMap_congr fun i _ => ?_
  simp [List.getElem?_map]

theorem isEmpty_relabel (d : Dataset F L) (f : L → L') : (d.relabel f).isEmpty = d.isEmpty :=
  List.isEmpty_map

end Dataset

/-- A class under another label. -/
def ClassGroup.relabel (f : L → L') (c : ClassGroup F L) : ClassGroup F L' := ⟨f c.label, c.rows⟩

namespace Increasing

open GroupedDataset

variable {f : L → L'} {d : GroupedDataset F L}

/-- The rows of a class are the rows of its image. -/
theorem groups_remap (hf : Increasing f) (d : GroupedDataset F L) :
    (d.remap f).groups = d.groups.map (·.relabel f) := by
  show (d.presentClasses.map f).toList.map (merged d.groups f) = d.groups.map (·.relabel f)
  rw [hf.toList_map, presentClasses, List.map_map, List.map_map]
  refine List.map_congr_left fun c hc => ?_
  have hfilter : d.groups.filter (f ·.label = f c.label) = [c] := by
    rw [← filter_label_eq d.ascending hc]
    exact List.filter_congr fun g _ => by simp [hf.eq_iff]
  show merged d.groups f (f c.label) = c.relabel f
  rw [merged, hfilter, List.flatMap_cons, List.flatMap_nil, List.append_nil]
  rfl

theorem rows_remap (hf : Increasing f) (d : GroupedDataset F L) : (d.remap f).rows = d.rows := by
  rw [rows, rows, hf.groups_remap, List.flatMap_map]
  rfl

theorem features_remap (hf : Increasing f) (d : GroupedDataset F L) :
    (d.remap f).features = d.features :=
  FeatureTable.ext rfl (hf.rows_remap d)

theorem isEmpty_remap (hf : Increasing f) (d : GroupedDataset F L) :
    (d.remap f).isEmpty = d.isEmpty := by
  rw [isEmpty, isEmpty, hf.groups_remap, List.isEmpty_map]

theorem groupCount_remap (hf : Increasing f) (d : GroupedDataset F L) :
    (d.remap f).groupCount = d.groupCount := by
  rw [groupCount, groupCount, hf.groups_remap, List.length_map]

/-- Classes may be taken out before or after labels are replaced. -/
theorem restrict_remap (hf : Increasing f) (d : GroupedDataset F L) (classes : LabelSet L) :
    (d.remap f).restrict (classes.map f) = (d.restrict classes).remap f := by
  refine ext rfl ?_ rfl
  rw [hf.groups_remap]
  show (d.remap f).groups.filter _ = (d.groups.filter _).map _
  rw [hf.groups_remap, List.filter_map]
  refine congrArg _ (List.filter_congr fun c _ => ?_)
  simp only [Function.comp_apply, ClassGroup.relabel, hf.mem_map_iff]

section
variable {L'' : Type} [Label L'']

/-- Classes that are kept apart first are joined as the second map joins them. -/
theorem remap_remap (hf : Increasing f) (d : GroupedDataset F L) (h : L' → L'') :
    (d.remap f).remap h = d.remap (h ∘ f) := by
  refine ext rfl ?_ (LabelSet.map_map f h d.classes)
  show ((d.remap f).presentClasses.map h).toList.map (merged (d.remap f).groups h) =
    (d.presentClasses.map (h ∘ f)).toList.map (merged d.groups (h ∘ f))
  rw [presentClasses_remap, LabelSet.map_map, hf.groups_remap]
  refine List.map_congr_left fun target _ => ?_
  rw [merged, merged, List.filter_map, List.flatMap_map]
  rfl

/-- Classes that are joined first are kept apart from others. -/
theorem remap_remap_of_increasing {h : L' → L''} (hh : Increasing h) (d : GroupedDataset F L)
    (f : L → L') : (d.remap f).remap h = d.remap (h ∘ f) := by
  refine ext rfl ?_ (LabelSet.map_map f h d.classes)
  rw [hh.groups_remap]
  show ((d.presentClasses.map f).toList.map (merged d.groups f)).map _ =
    (d.presentClasses.map (h ∘ f)).toList.map (merged d.groups (h ∘ f))
  rw [← LabelSet.map_map, hh.toList_map, List.map_map, List.map_map]
  refine List.map_congr_left fun target _ => ?_
  have hfilter : d.groups.filter ((h ∘ f) ·.label = h target) = d.groups.filter (f ·.label = target) :=
    List.filter_congr fun g _ => by simp [hh.eq_iff]
  show (merged d.groups f target).relabel h = merged d.groups (h ∘ f) (h target)
  rw [merged, merged, hfilter]
  rfl

end

theorem toDataset_remap (hf : Increasing f) (d : GroupedDataset F L) :
    (d.remap f).toDataset = d.toDataset.relabel f := by
  refine Dataset.ext rfl ?_ rfl
  show (d.remap f).groups.flatMap _ = (d.groups.flatMap _).map _
  rw [hf.groups_remap, List.flatMap_map, List.map_flatMap]
  simp only [ClassGroup.relabel, List.map_map]
  rfl

/-- Observations may be sorted before or after their labels are replaced. -/
theorem ofDataset_relabel (hf : Increasing f) (d : Dataset F L) :
    ofDataset (d.relabel f) = (ofDataset d).remap f := by
  have hpresent : (d.relabel f).presentClasses = d.presentClasses.map f := by
    rw [Dataset.presentClasses, Dataset.presentClasses, LabelSet.map_ofList]
    simp [Dataset.labels, Dataset.relabel, Function.comp_def]
  refine ext rfl ?_ rfl
  rw [hf.groups_remap]
  show (d.relabel f).presentClasses.toList.map (groupOf (d.relabel f)) =
    (d.presentClasses.toList.map (groupOf d)).map _
  rw [hpresent, hf.toList_map, List.map_map, List.map_map]
  refine List.map_congr_left fun label _ => ?_
  show groupOf (d.relabel f) (f label) = (groupOf d label).relabel f
  simp [groupOf, Dataset.relabel, ClassGroup.relabel, List.filter_map, Function.comp_def, hf.eq_iff]

end Increasing

/-! ### Draws -/

/-- No row is lost where classes are joined. -/
theorem GroupedDataset.size_remap (d : GroupedDataset F L) (f : L → L') :
    (d.remap f).size = d.size := by
  rw [← length_labels, ← length_labels, ← labels_toDataset, ← labels_toDataset, remap_eq_ofDataset,
    Dataset.labels, Dataset.labels, List.length_map, List.length_map, rows_ofDataset,
    List.length_mergeSort]
  exact List.length_map _

namespace BootstrapDraw

/-- The same places of the observations with other labels. -/
def relabel (f : L → L') (b : BootstrapDraw F L) : BootstrapDraw F L' where
  full := b.full.remap f
  sample := b.sample
  inRange i hi := by
    rw [GroupedDataset.size_remap]
    exact b.inRange i hi

/-- The drawn rows are those of the other observations with other labels. -/
theorem sampleData_relabel {f : L → L'} (hf : Increasing f) (b : BootstrapDraw F L) :
    (b.relabel f).sampleData = b.sampleData.remap f := by
  show GroupedDataset.ofDataset ((b.full.remap f).toDataset.gather b.sample) = b.sampleData.remap f
  rw [hf.toDataset_remap, Dataset.gather_relabel, hf.ofDataset_relabel]
  rfl

/-- The same places are drawn. -/
theorem stratified_remap {G : Type} [RandomSource G] {f : L → L'} (hf : Increasing f)
    (d : GroupedDataset F L) (g : G) :
    stratified (d.remap f) g = ((stratified d g).1.relabel f, (stratified d g).2) := by
  have hdrawn : drawBlocks 0 (d.remap f).groups g = drawBlocks 0 d.groups g := by
    refine drawBlocks_congr 0 g ?_
    rw [hf.groups_remap, List.map_map]
    rfl
  unfold stratified relabel
  simp only [hdrawn]

end BootstrapDraw
end PursuitForest
