import PursuitForest.Dataset.Grouped
import PursuitForest.Proofs.LabelSets
/-!
Taking classes out of grouped observations, and renaming them.

`subset` answers exactly when every listed class has rows (`subset_eq_ok_iff`), and then with
`restrict`. Restricting twice is restricting to the smaller set. `remap` depends on nothing but the
images of the classes that have rows.
-/

namespace PursuitForest
namespace GroupedDataset

variable {F L : Type} [Label L] {d : GroupedDataset F L}

theorem mem_presentClasses {x : L} : x ∈ d.presentClasses ↔ ∃ g ∈ d.groups, g.label = x :=
  List.mem_map

theorem label_mem_presentClasses {g : ClassGroup F L} (h : g ∈ d.groups) :
    g.label ∈ d.presentClasses :=
  mem_presentClasses.2 ⟨g, h, rfl⟩

theorem size_presentClasses : d.presentClasses.size = d.groupCount :=
  List.length_map _

/-- Observations fall into at least one class. -/
theorem groupCount_pos (h : d.isEmpty = false) : 0 < d.groupCount := by
  rw [isEmpty, List.isEmpty_eq_false_iff] at h
  exact List.length_pos_iff.2 h

theorem isEmpty_eq_false (h : 0 < d.groupCount) : d.isEmpty = false :=
  List.isEmpty_eq_false_iff.2 (List.ne_nil_of_length_pos h)

/-- Sorting keeps the classes that have rows. -/
theorem presentClasses_ofDataset (o : Dataset F L) : (ofDataset o).presentClasses = o.presentClasses :=
  LabelSet.ext ((List.map_map).trans (List.map_id _))

/-- Sorting loses no row. -/
theorem isEmpty_ofDataset (o : Dataset F L) : (ofDataset o).isEmpty = o.isEmpty := by
  have hgroups : (ofDataset o).groups = [] ↔ o.rows = [] := by
    show o.presentClasses.toList.map (groupOf o) = [] ↔ o.rows = []
    rw [List.map_eq_nil_iff]
    constructor
    · intro h
      refine List.eq_nil_iff_forall_not_mem.2 fun r hr => ?_
      have hmem : r.label ∈ o.presentClasses := LabelSet.mem_ofList.2 (List.mem_map_of_mem hr)
      rw [LabelSet.mem_def, h] at hmem
      cases hmem
    · intro h
      rw [Dataset.presentClasses, Dataset.labels, h]
      rfl
  rw [Bool.eq_iff_iff, isEmpty, Dataset.isEmpty, List.isEmpty_iff, List.isEmpty_iff]
  exact hgroups

/-- Of groups in label order, one has a given label. -/
theorem filter_label_eq {gs : List (ClassGroup F L)} (hgs : gs.Pairwise (·.label < ·.label))
    {c : ClassGroup F L} (hc : c ∈ gs) : gs.filter (·.label = c.label) = [c] := by
  induction gs with
  | nil => simp at hc
  | cons g gs ih =>
    obtain ⟨hg, hgs⟩ := List.pairwise_cons.1 hgs
    rcases List.mem_cons.1 hc with rfl | hc
    · have hrest : gs.filter (·.label = c.label) = [] := by
        refine List.filter_eq_nil_iff.2 fun g' hg' => ?_
        simp only [decide_eq_true_eq]
        exact (Label.ne_of_lt (hg g' hg')).symm
      rw [List.filter_cons_of_pos (by simp), hrest]
    · have hne : g.label ≠ c.label := Label.ne_of_lt (hg c hc)
      rw [List.filter_cons_of_neg (by simpa using hne), ih hgs hc]

/-! ### Subsets -/

/-- A subset exists exactly when every listed class has rows. -/
theorem subset_eq_ok_iff {classes : LabelSet L} {e : GroupedDataset F L} :
    d.subset classes = .ok e ↔ (∀ x ∈ classes, x ∈ d.presentClasses) ∧ e = d.restrict classes := by
  unfold subset
  split
  · next x hx =>
    obtain ⟨hx1, hx2⟩ : x ∉ d.presentClasses ∧ x ∈ classes.toList :=
      ⟨by simpa using List.find?_some hx, List.mem_of_find?_eq_some hx⟩
    constructor
    · intro h; cases h
    · rintro ⟨h, -⟩; exact absurd (h x hx2) hx1
  · next hnone =>
    have hall : ∀ x ∈ classes, x ∈ d.presentClasses := fun x hx => by
      simpa using List.find?_eq_none.1 hnone x hx
    constructor
    · intro h; cases h; exact ⟨hall, rfl⟩
    · rintro ⟨-, rfl⟩; rfl

theorem subset_eq_restrict {classes : LabelSet L} (h : ∀ x ∈ classes, x ∈ d.presentClasses) :
    d.subset classes = .ok (d.restrict classes) :=
  subset_eq_ok_iff.2 ⟨h, rfl⟩

theorem mem_presentClasses_restrict {classes : LabelSet L} {x : L} :
    x ∈ (d.restrict classes).presentClasses ↔ x ∈ d.presentClasses ∧ x ∈ classes := by
  rw [mem_presentClasses, mem_presentClasses]
  constructor
  · rintro ⟨g, hg, rfl⟩
    obtain ⟨hg1, hg2⟩ := List.mem_filter.1 hg
    exact ⟨⟨g, hg1, rfl⟩, by simpa using hg2⟩
  · rintro ⟨⟨g, hg, rfl⟩, hx⟩
    exact ⟨g, List.mem_filter.2 ⟨hg, by simpa using hx⟩, rfl⟩

/-- The classes of a subset are the listed ones. -/
theorem presentClasses_restrict {classes : LabelSet L} (h : ∀ x ∈ classes, x ∈ d.presentClasses) :
    (d.restrict classes).presentClasses = classes := by
  refine LabelSet.ext_mem fun x => ?_
  rw [mem_presentClasses_restrict]
  exact ⟨fun hx => hx.2, fun hx => ⟨h x hx, hx⟩⟩

/-- The larger of two sets does not matter. -/
theorem restrict_restrict {outer inner : LabelSet L} (h : ∀ x ∈ inner, x ∈ outer) :
    (d.restrict outer).restrict inner = d.restrict inner := by
  refine ext rfl ?_ rfl
  show (d.groups.filter _).filter _ = d.groups.filter _
  rw [List.filter_filter]
  refine List.filter_congr fun g _ => ?_
  by_cases hg : g.label ∈ inner
  · simp [hg, h g.label hg]
  · simp [hg]

/-- All classes that have rows leave no group out. -/
theorem groups_restrict_presentClasses : (d.restrict d.presentClasses).groups = d.groups :=
  List.filter_eq_self.2 fun _ hg => by simpa using label_mem_presentClasses hg

/-! ### Images of labels -/

variable {L' : Type} [Label L']

theorem presentClasses_remap (f : L → L') : (d.remap f).presentClasses = d.presentClasses.map f := by
  refine LabelSet.ext ?_
  show ((d.presentClasses.map f).toList.map (merged d.groups f)).map (·.label) = _
  rw [List.map_map]
  exact List.map_id _

theorem groupCount_remap (f : L → L') : (d.remap f).groupCount = (d.presentClasses.map f).size := by
  rw [← size_presentClasses, presentClasses_remap]

/-- Labels that are kept leave the groups as they are. -/
theorem groups_remap_of_fixed {f : L → L} (hf : ∀ x ∈ d.presentClasses, f x = x) :
    (d.remap f).groups = d.groups := by
  have hmap : d.presentClasses.map f = d.presentClasses := by
    refine LabelSet.ext_mem fun y => ?_
    rw [LabelSet.mem_map]
    constructor
    · rintro ⟨x, hx, rfl⟩; rwa [hf x hx]
    · intro hy; exact ⟨y, hy, hf y hy⟩
  show (d.presentClasses.map f).toList.map (merged d.groups f) = d.groups
  rw [hmap]
  show (d.groups.map (·.label)).map (merged d.groups f) = d.groups
  rw [List.map_map]
  refine (List.map_congr_left fun g hg => ?_).trans (List.map_id d.groups)
  have hfilter : d.groups.filter (f ·.label = g.label) = d.groups.filter (·.label = g.label) :=
    List.filter_congr fun g' hg' => by rw [hf g'.label (label_mem_presentClasses hg')]
  show merged d.groups f g.label = g
  rw [merged, hfilter, filter_label_eq d.ascending hg, List.flatMap_cons, List.flatMap_nil,
    List.append_nil]

/-- Only the images of the classes that have rows matter for the groups. -/
theorem groups_remap_congr {e : GroupedDataset F L} {f h : L → L'} (hg : d.groups = e.groups)
    (hf : ∀ x ∈ d.presentClasses, f x = h x) : (d.remap f).groups = (e.remap h).groups := by
  have hp : d.presentClasses = e.presentClasses := LabelSet.ext (congrArg (·.map (·.label)) hg)
  have hm : d.presentClasses.map f = e.presentClasses.map h := by
    refine LabelSet.ext_mem fun y => ?_
    rw [LabelSet.mem_map, LabelSet.mem_map, ← hp]
    constructor
    · rintro ⟨x, hx, rfl⟩; exact ⟨x, hx, (hf x hx).symm⟩
    · rintro ⟨x, hx, rfl⟩; exact ⟨x, hx, hf x hx⟩
  show (d.presentClasses.map f).toList.map _ = (e.presentClasses.map h).toList.map _
  rw [hm, ← hg]
  refine List.map_congr_left fun y _ => ?_
  have hfilter : d.groups.filter (f ·.label = y) = d.groups.filter (h ·.label = y) :=
    List.filter_congr fun g hg => by rw [hf g.label (label_mem_presentClasses hg)]
  rw [merged, merged, hfilter]

end GroupedDataset
end PursuitForest
