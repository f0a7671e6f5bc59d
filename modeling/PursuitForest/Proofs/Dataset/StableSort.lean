import PursuitForest.Dataset.Grouped
import PursuitForest.Proofs.LabelSets
/-!
Grouping is stable sorting.

A list that is sorted by label is decided by the sequences of its members of each label
(`eq_of_filter_label_eq`), and a stable sort keeps these sequences (`filter_mergeSort`). So the
observations of grouped data, class after class, are the stably sorted observations
(`GroupedDataset.rows_ofDataset`), and observations in label order stay where they are.
-/

namespace PursuitForest

section
variable {α L : Type} [Label L] {key : α → L}

/-- Sorted lists with the same members of every label, in the same order, are equal. -/
theorem eq_of_filter_label_eq : ∀ {xs ys : List α}, xs.Pairwise (key · ≤ key ·) →
    ys.Pairwise (key · ≤ key ·) → (∀ c, xs.filter (key · = c) = ys.filter (key · = c)) → xs = ys
  | [], [], _, _, _ => rfl
  | [], y :: ys, _, _, h => by simpa using h (key y)
  | x :: xs, [], _, _, h => by simpa using h (key x)
  | x :: xs, y :: ys, hx, hy, h => by
      obtain ⟨hx1, hx2⟩ := List.pairwise_cons.1 hx
      obtain ⟨hy1, hy2⟩ := List.pairwise_cons.1 hy
      have hmem : ∀ z, z ∈ x :: xs ↔ z ∈ y :: ys := fun z => by
        have hz : ∀ zs : List α, z ∈ zs ↔ z ∈ zs.filter (key · = key z) := fun zs => by simp
        rw [hz (x :: xs), h (key z), ← hz (y :: ys)]
      -- each head has the least label of its list
      have hle : key x ≤ key y := by
        rcases List.mem_cons.1 ((hmem y).2 List.mem_cons_self) with rfl | hyx
        · exact Std.le_refl _
        · exact hx1 y hyx
      have hge : key y ≤ key x := by
        rcases List.mem_cons.1 ((hmem x).1 List.mem_cons_self) with rfl | hxy
        · exact Std.le_refl _
        · exact hy1 x hxy
      have hkey : key x = key y := Std.le_antisymm hle hge
      have hheads := h (key y)
      rw [List.filter_cons_of_pos (by simpa using hkey), List.filter_cons_of_pos (by simp)] at hheads
      obtain rfl : x = y := (List.cons.inj hheads).1
      refine congrArg (x :: ·) (eq_of_filter_label_eq hx2 hy2 fun c => ?_)
      have hc := h c
      rw [List.filter_cons, List.filter_cons] at hc
      split at hc
      · exact (List.cons.inj hc).2
      · exact hc

/-- Whether a label may stand before another. -/
def labelLe (key : α → L) (a b : α) : Bool := decide (key a ≤ key b)

theorem labelLe_trans (a b c : α) (hab : labelLe key a b = true) (hbc : labelLe key b c = true) :
    labelLe key a c = true :=
  decide_eq_true (Std.le_trans (of_decide_eq_true hab) (of_decide_eq_true hbc))

theorem labelLe_total (a b : α) : (labelLe key a b || labelLe key b a) = true := by
  rcases Std.le_total (a := key a) (b := key b) with h | h
  · simp [labelLe, h]
  · simp [labelLe, h]

theorem pairwise_mergeSort_label (xs : List α) :
    (xs.mergeSort (labelLe key)).Pairwise (key · ≤ key ·) :=
  (List.pairwise_mergeSort labelLe_trans labelLe_total xs).imp of_decide_eq_true

/-- Images may be taken before or after a sort. -/
theorem map_mergeSort_label {β : Type} (key : α → L) (f : β → α) (xs : List β) :
    (xs.mergeSort (labelLe fun b => key (f b))).map f = (xs.map f).mergeSort (labelLe key) :=
  List.map_mergeSort fun _ _ _ _ => rfl

/-- A stable sort keeps the members of every label in their order. -/
theorem filter_mergeSort (xs : List α) (c : L) :
    (xs.mergeSort (labelLe key)).filter (key · = c) = xs.filter (key · = c) := by
  have hperm := List.mergeSort_perm xs (labelLe key)
  have hsorted : (xs.filter (key · = c)).Pairwise fun a b => labelLe key a b = true := by
    refine List.pairwise_of_forall_mem_list fun a ha b hb => decide_eq_true ?_
    have hka : key a = c := by simpa using (List.mem_filter.1 ha).2
    have hkb : key b = c := by simpa using (List.mem_filter.1 hb).2
    rw [hka, hkb]
    exact Std.le_refl c
  have hsub := List.sublist_mergeSort labelLe_trans labelLe_total hsorted List.filter_sublist
  have hfilter := hsub.filter (key · = c)
  rw [List.filter_filter] at hfilter
  simp only [Bool.and_self] at hfilter
  exact (hfilter.eq_of_length (hperm.filter _).length_eq.symm).symm

/-- Of the members of distinct labels, listed label after label, those of one label. -/
theorem filter_flatMap_label (xs : List α) (c : L) : ∀ {cs : List L}, cs.Nodup →
    (cs.flatMap fun label => xs.filter (key · = label)).filter (key · = c) =
      if c ∈ cs then xs.filter (key · = c) else []
  | [], _ => rfl
  | label :: cs, h => by
      obtain ⟨hlabel, hcs⟩ := List.nodup_cons.1 h
      rw [List.flatMap_cons, List.filter_append, filter_flatMap_label xs c hcs, List.filter_filter]
      by_cases hc : c = label
      · subst hc
        simp [hlabel]
      · have hnone : xs.filter (fun x => key x = c && key x = label) = [] := by
          refine List.filter_eq_nil_iff.2 fun x _ hx => hc ?_
          simp only [Bool.and_eq_true, decide_eq_true_eq] at hx
          exact hx.1.symm.trans hx.2
        simp [hnone, hc]

end

namespace GroupedDataset

variable {F L : Type} [Label L]

/-! ### Views of grouped observations -/

@[simp] theorem labels_toDataset (d : GroupedDataset F L) : d.toDataset.labels = d.labels := by
  simp only [Dataset.labels, toDataset, labels, List.map_flatMap, List.map_map]
  rfl

@[simp] theorem features_toDataset (d : GroupedDataset F L) : d.toDataset.features = d.features := by
  refine FeatureTable.ext rfl ?_
  simp only [Dataset.features, toDataset, features, rows, List.map_flatMap, List.map_map]
  exact congrArg (List.flatMap · d.groups) (funext fun g => List.map_id _)

theorem length_labels (d : GroupedDataset F L) : d.labels.length = d.size := by
  simp [labels, size, rows, List.length_flatMap]

/-- Observations stand class after class. -/
theorem pairwise_toDataset (d : GroupedDataset F L) :
    d.toDataset.rows.Pairwise (·.label ≤ ·.label) := by
  refine List.pairwise_flatMap.2 ⟨fun g _ => ?_, d.ascending.imp fun {g h} hlt o ho p hp => ?_⟩
  · exact List.pairwise_map.2 (List.pairwise_of_forall fun _ _ => Std.le_refl g.label)
  · obtain ⟨r, -, rfl⟩ := List.mem_map.1 ho
    obtain ⟨s, -, rfl⟩ := List.mem_map.1 hp
    exact Label.le_of_lt hlt

theorem pairwise_labels (d : GroupedDataset F L) : d.labels.Pairwise (· ≤ ·) := by
  rw [← labels_toDataset, Dataset.labels, List.pairwise_map]
  exact d.pairwise_toDataset

/-! ### Sorting -/

/-- The observations of one class keep their order. -/
theorem filter_rows_ofDataset (d : Dataset F L) (c : L) :
    (ofDataset d).toDataset.rows.filter (·.label = c) = d.rows.filter (·.label = c) := by
  have hgroup : ∀ label, (groupOf d label).rows.map (⟨·, label⟩) = d.rows.filter (·.label = label) :=
    fun label => by
      rw [groupOf, List.map_map]
      refine (List.map_congr_left fun o ho => ?_).trans (List.map_id _)
      obtain rfl : o.label = label := by simpa using (List.mem_filter.1 ho).2
      rfl
  have hrows : (ofDataset d).toDataset.rows =
      d.presentClasses.toList.flatMap fun label => d.rows.filter (·.label = label) := by
    show (d.presentClasses.toList.map (groupOf d)).flatMap _ = _
    rw [List.flatMap_map]
    exact congrArg (List.flatMap · _) (funext hgroup)
  rw [hrows, filter_flatMap_label _ _ d.presentClasses.nodup]
  split
  · rfl
  · next hc =>
    refine (List.filter_eq_nil_iff.2 fun o ho hlabel => hc ?_).symm
    obtain rfl : o.label = c := by simpa using hlabel
    exact LabelSet.mem_ofList.2 (List.mem_map_of_mem ho)

/-- The observations of grouped data are the stably sorted observations. -/
theorem rows_ofDataset (d : Dataset F L) :
    (ofDataset d).toDataset.rows = d.rows.mergeSort (labelLe (·.label)) :=
  eq_of_filter_label_eq (pairwise_toDataset _) (pairwise_mergeSort_label _) fun c => by
    rw [filter_rows_ofDataset, filter_mergeSort]

/-- Observations in label order stay where they are. -/
theorem rows_ofDataset_of_pairwise {d : Dataset F L} (h : d.rows.Pairwise (·.label ≤ ·.label)) :
    (ofDataset d).toDataset.rows = d.rows := by
  rw [rows_ofDataset]
  exact List.mergeSort_of_pairwise (h.imp fun hle => decide_eq_true hle)

end GroupedDataset
end PursuitForest
