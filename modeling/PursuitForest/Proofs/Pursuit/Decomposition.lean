import PursuitForest.Proofs.Pursuit.Scatter
/-!
The scatter of all rows in two parts.

The scatter within the classes and the scatter between them add up to the scatter of all rows around
their mean, whatever the classes are and however large. Both are symmetric and have no negative value,
and neither depends on the order of the rows of a class or on what the classes are called
(`scatter_decomposes`).
-/

namespace PursuitForest

/-! ### The same rows in other orders -/

section
variable {F L L' : Type} [Label L] [Label L']

/-- The same classes, with the rows of each in some order. -/
structure GroupedDataset.Reorders (e d : GroupedDataset F L) : Prop where
  width_eq : e.width = d.width
  groups : List.Forall₂ (fun g h => g.label = h.label ∧ g.rows.Perm h.rows) e.groups d.groups

/-- Classes under new names have the rows that they had, if no two get the same name. -/
theorem GroupedDataset.rows_remap_perm {d : GroupedDataset F L} {f : L → L'}
    (hf : ∀ x ∈ d.presentClasses, ∀ y ∈ d.presentClasses, f x = f y → x = y) :
    ((d.remap f).groups.map (·.rows)).Perm (d.groups.map (·.rows)) := by
  have hnames : (d.presentClasses.map f).toList.Perm (d.groups.map (f ·.label)) := by
    have hnodup : (d.groups.map (f ·.label)).Nodup := by
      refine List.pairwise_map.2 (d.ascending.imp_of_mem fun {g h} hg hh hlt heq => ?_)
      exact Label.ne_of_lt hlt
        (hf _ (label_mem_presentClasses hg) _ (label_mem_presentClasses hh) heq)
    refine (List.perm_ext_iff_of_nodup (LabelSet.nodup _) hnodup).2 fun y => ?_
    rw [← LabelSet.mem_def, LabelSet.mem_map, List.mem_map]
    simp only [mem_presentClasses]
    constructor
    · rintro ⟨x, ⟨g, hg, rfl⟩, rfl⟩
      exact ⟨g, hg, rfl⟩
    · rintro ⟨g, hg, rfl⟩
      exact ⟨g.label, ⟨g, hg, rfl⟩, rfl⟩
  have hrows : ∀ g ∈ d.groups, (merged d.groups f (f g.label)).rows = g.rows := fun g hg => by
    have hfilter : d.groups.filter (f ·.label = f g.label) = d.groups.filter (·.label = g.label) :=
      List.filter_congr fun h hh => decide_eq_decide.2
        ⟨hf _ (label_mem_presentClasses hh) _ (label_mem_presentClasses hg), congrArg f⟩
    rw [merged, hfilter, filter_label_eq d.ascending hg, List.flatMap_cons, List.flatMap_nil,
      List.append_nil]
  have hmap : (d.remap f).groups.map (·.rows) =
      (d.presentClasses.map f).toList.map fun y => (merged d.groups f y).rows := List.map_map
  rw [hmap, ← List.map_congr_left hrows]
  exact (hnames.map _).trans (by rw [List.map_map]; rfl)

end

/-- A scatter of vectors of order `m`, for another name of this number. -/
def Scatter.cast {F : Type} {m n : Nat} (h : m = n) (s : Scatter F m) : Scatter F n := h ▸ s

variable {K L L' : Type} [OrderedScalar K] [Label L] [Label L'] {d e : GroupedDataset K L}

theorem Scatter.ofDataset_reorders (hd : d.isEmpty = false) (h : e.Reorders d) :
    Scatter.ofDataset Scalar.mean e =
      .ok ((ofGroups Scalar.mean d.vectors).cast h.width_eq.symm) := by
  have he : e.isEmpty = false := by
    rw [GroupedDataset.isEmpty, List.isEmpty_eq_false_iff, ← List.length_pos_iff] at hd ⊢
    rwa [h.groups.length_eq]
  have hcast : ∀ (k : Nat) (hk : e.width = k), Scatter.ofDataset Scalar.mean e =
      .ok ((ofGroups Scalar.mean (e.groups.map fun g => g.rows.map (Vec.ofRow k))).cast hk.symm) := by
    rintro _ rfl
    exact (Scatter.ofDataset_eq he).1
  have hgroups : ofGroups Scalar.mean (e.groups.map fun g => g.rows.map (Vec.ofRow d.width)) =
      ofGroups Scalar.mean d.vectors :=
    ofGroups_forall₂ (List.forall₂_map_left_iff.2 (List.forall₂_map_right_iff.2
      (h.groups.imp fun g g' hg => hg.2.map _)))
  rw [hcast d.width h.width_eq, hgroups]

theorem Scatter.ofDataset_renamed (hd : d.isEmpty = false) {f : L → L'}
    (hf : ∀ x ∈ d.presentClasses, ∀ y ∈ d.presentClasses, f x = f y → x = y) :
    Scatter.ofDataset Scalar.mean (GroupedDataset.ofDataset (d.toDataset.relabel f)) =
      .ok (ofGroups Scalar.mean d.vectors) := by
  have hperm := d.rows_remap_perm hf
  rw [GroupedDataset.remap_eq_ofDataset] at hperm
  have hempty : (GroupedDataset.ofDataset (d.toDataset.relabel f)).isEmpty = false := by
    have hlength := hperm.length_eq
    rw [List.length_map, List.length_map] at hlength
    rw [GroupedDataset.isEmpty, List.isEmpty_eq_false_iff, ← List.length_pos_iff] at hd ⊢
    omega
  have hvectors : ofGroups Scalar.mean
      (GroupedDataset.ofDataset (d.toDataset.relabel f)).vectors = ofGroups Scalar.mean d.vectors := by
    refine ofGroups_perm ?_
    have hmap := hperm.map (List.map (Vec.ofRow d.width))
    rwa [List.map_map, List.map_map] at hmap
  exact (Scatter.ofDataset_eq hempty).1.trans (congrArg Except.ok hvectors)

/-! ### All rows -/

namespace GroupedDataset

/-- The mean of a column over all rows. -/
def grandMean (d : GroupedDataset K L) (j : Nat) : K :=
  (d.rows.map (·.getD j 0)).sum / d.rows.length

/-- The products of the deviations of all rows from the mean row. -/
def totalScatter (d : GroupedDataset K L) : Square K d.width :=
  Square.ofFn fun i j =>
    (d.rows.map fun r => (r.getD i 0 - d.grandMean i) * (r.getD j 0 - d.grandMean j)).sum

theorem around_flatten_vectors (d : GroupedDataset K L) :
    Scatter.around Scalar.mean d.vectors.flatten = d.totalScatter := by
  have hrows : d.vectors.flatten = d.rows.map (Vec.ofRow d.width) := by
    rw [vectors, rows, List.map_flatMap, List.flatMap]
  have hmean : ∀ i : Fin d.width,
      Scalar.mean ((d.rows.map (Vec.ofRow d.width)).map (·.get i)) = d.grandMean i := fun i => by
    rw [OrderedScalar.mean_eq, List.map_map, List.length_map, grandMean]
    simp only [Function.comp_def, Vec.get_ofRow]
  refine Square.ext fun i j => ?_
  rw [hrows, Scatter.get_around, hmean, hmean, totalScatter, Square.get_ofFn, List.map_map]
  simp only [Function.comp_def, Vec.get_ofRow]

end GroupedDataset

/-- Observations scatter within their classes and between them. Either part is symmetric and a sum of
squares, together they are the scatter of all rows around their mean, and both stay as they are when
the rows of a class change places or the classes are given other names and sorted. -/
theorem scatter_decomposes (hd : d.isEmpty = false) :
    ∃ s, Scatter.ofDataset Scalar.mean d = .ok s ∧ Scatter.ofDataset Scalar.laneMean d = .ok s ∧
      s.within.transpose = s.within ∧ s.between.transpose = s.between ∧
      s.within.add s.between = d.totalScatter ∧
      (∀ v, 0 ≤ s.within.quadratic v ∧ 0 ≤ s.between.quadratic v) ∧
      (∀ (e : GroupedDataset K L) (h : e.Reorders d),
        Scatter.ofDataset Scalar.mean e = .ok (s.cast h.width_eq.symm)) ∧
      ∀ (L' : Type) [Label L'] (f : L → L'),
        (∀ x ∈ d.presentClasses, ∀ y ∈ d.presentClasses, f x = f y → x = y) →
          Scatter.ofDataset Scalar.mean (GroupedDataset.ofDataset (d.toDataset.relabel f)) = .ok s := by
  obtain ⟨hmean, hlanes⟩ := Scatter.ofDataset_eq hd
  refine ⟨_, hmean, hlanes, Scatter.transpose_within _ _, Scatter.transpose_between _ _, ?_, fun v => ?_,
    fun e h => Scatter.ofDataset_reorders hd h, fun L' _ f hf => Scatter.ofDataset_renamed hd hf⟩
  · rw [Scatter.within_add_between, GroupedDataset.around_flatten_vectors]
  · exact ⟨Scatter.nonNegative_within _ _ v, Scatter.nonNegative_between _ _ v⟩

/-- Two classes of two rows each. -/
def fourRows : GroupedDataset ℚ Nat :=
  .ofDataset {
    width := 2
    rows := [⟨[0, 0], 0⟩, ⟨[2, 0], 0⟩, ⟨[4, 2], 1⟩, ⟨[6, 2], 1⟩]
    classes := .ofList [0, 1]
    shaped := by decide
    covered := by decide }

/-- The rows of `fourRows`, those of either class the other way round. -/
def fourRowsBack : GroupedDataset ℚ Nat :=
  .ofDataset {
    width := 2
    rows := [⟨[2, 0], 0⟩, ⟨[0, 0], 0⟩, ⟨[6, 2], 1⟩, ⟨[4, 2], 1⟩]
    classes := .ofList [0, 1]
    shaped := by decide
    covered := by decide }

theorem fourRowsBack_reorders : fourRowsBack.Reorders fourRows where
  width_eq := rfl
  groups := .cons ⟨rfl, .swap _ _ _⟩ (.cons ⟨rfl, .swap _ _ _⟩ .nil)

/-- The class means lie at (1, 0) and (5, 2), around (3, 1); names that put the second class first make
no difference. -/
theorem scatter_decomposes_fourRows : ∃ s, Scatter.ofDataset Scalar.mean fourRows = .ok s ∧
    s.within.rows.toList.map (·.toList) = [[4, 0], [0, 0]] ∧
    s.between.rows.toList.map (·.toList) = [[16, 8], [8, 4]] ∧
    s.within.add s.between = fourRows.totalScatter ∧
    Scatter.ofDataset Scalar.mean fourRowsBack = .ok s ∧
    Scatter.ofDataset Scalar.mean
      (GroupedDataset.ofDataset (fourRows.toDataset.relabel fun label => 7 - 2 * label)) = .ok s := by
  obtain ⟨s, hs, -, -, -, htotal, -, hreorders, hrenamed⟩ :=
    scatter_decomposes (d := fourRows) (by decide)
  have hentries : (Scatter.ofDataset Scalar.mean fourRows).toOption.any (fun s => decide
      (s.within.rows.toList.map (·.toList) = [[4, 0], [0, 0]] ∧
        s.between.rows.toList.map (·.toList) = [[16, 8], [8, 4]])) = true := by
    decide +kernel
  rw [hs] at hentries
  obtain ⟨hwithin, hbetween⟩ := of_decide_eq_true hentries
  exact ⟨s, hs, hwithin, hbetween, htotal, hreorders _ fourRowsBack_reorders, hrenamed Nat _ (by decide)⟩

end PursuitForest
