import PursuitForest.Importance.Adjusted
import PursuitForest.Proofs.Dataset.RowImages
import PursuitForest.Proofs.Forest.Training
import PursuitForest.Proofs.Tree.Endings
/-!
The data of a condition, again.

The importance of a condition is measured on two groups that are put together from the sample and
the classes of the finished tree. They are the groups that the projector of the condition was fitted
on while the tree grew, with every row scaled (`nodeData_eq_fitted`), although these were reached by
subsets of subsets and named by the means of their classes.
-/

namespace PursuitForest

/-! ### Labels of sides -/

section
variable {F L : Type} [Label L] {c : Node.Condition F L} {s : LabelSet L} {x : L}

theorem LabelSet.inter_eq_left {s t : LabelSet L} (h : ∀ x ∈ s, x ∈ t) : s.inter t = s :=
  ext_mem fun x => by
    rw [mem_inter]
    exact ⟨fun hx => hx.1, fun hx => ⟨hx, h x hx⟩⟩

namespace Node.Condition

theorem sideLabel_of_mem_upper (hs : s.Splits c.lower.classes c.upper.classes)
    (hx : x ∈ c.upper.classes) : c.sideLabel s x = c.upper.classes.min?.getD x := by
  have hupper := LabelSet.inter_eq_left fun y hy => (hs.covers y).2 (.inr hy)
  unfold sideLabel
  rw [hupper, if_pos hx]

theorem sideLabel_of_mem_lower (hs : s.Splits c.lower.classes c.upper.classes)
    (hx : x ∈ c.lower.classes) : c.sideLabel s x = c.lower.classes.min?.getD x := by
  have hlower := LabelSet.inter_eq_left fun y hy => (hs.covers y).2 (.inl hy)
  have hupper := LabelSet.inter_eq_left fun y hy => (hs.covers y).2 (.inr hy)
  unfold sideLabel
  rw [hlower, hupper, if_neg (hs.disjoint x hx), if_pos hx]

end Node.Condition

end

variable {F L G : Type} [Scalar F] [Eigensolver F] [Label L] [RandomSource G]
  {settings : TreeSettings F} {sample node two : GroupedDataset F L} {g g' : G}
  {division : Division F L} {c : Node.Condition F L}

/-- Classes under the labels of their sides are the two groups of the division. -/
theorem Divides.groups_eq (h : Divides settings node g division two g')
    (hl : c.lower.classes = division.lower) (hu : c.upper.classes = division.upper) :
    (node.remap (c.sideLabel node.presentClasses)).groups = two.groups := by
  have hs := h.splits
  rw [← hl, ← hu] at hs
  have key : ∀ {f : L → L},
      (∀ y ∈ c.lower.classes, c.lower.classes.min?.getD y = f y) →
      (∀ y ∈ c.upper.classes, c.upper.classes.min?.getD y = f y) →
        ∀ y ∈ node.presentClasses, c.sideLabel node.presentClasses y = f y := by
    intro f hlower hupper y hy
    rcases (hs.covers y).1 hy with hy | hy
    · rw [Node.Condition.sideLabel_of_mem_lower hs hy, hlower y hy]
    · rw [Node.Condition.sideLabel_of_mem_upper hs hy, hupper y hy]
  cases h with
  | direct hcount hcolumns hsplit =>
    -- the only class of a side is its smallest one
    refine GroupedDataset.groups_remap_of_fixed (key (f := id) (fun y hy => ?_) fun y hy => ?_)
    · rw [hl] at hy ⊢
      exact (LabelSet.mem_singleton.1 hy).symm
    · rw [hu] at hy ⊢
      exact (LabelSet.mem_singleton.1 hy).symm
  | @regrouped columns g' r split lower upper hcount hcolumns hregroup hsplit hlower hupper =>
    have ho := of_regroup hregroup
    have hbelow : ∀ y ∈ r.below.classes, r.below.classes.min?.getD y = r.target y := fun y hy => by
      rw [ho.below_min, Regrouping.target_of_mem_below hy]
      rfl
    have habove : ∀ y ∈ r.above.classes, r.above.classes.min?.getD y = r.target y := fun y hy => by
      rw [ho.above_min, ho.target_of_mem_above hy]
      rfl
    rcases Divides.sides_eq ho hsplit hlower hupper with ⟨rfl, rfl⟩ | ⟨rfl, rfl⟩
    · refine GroupedDataset.groups_remap_congr rfl (key ?_ ?_)
      · rw [hl]; exact hbelow
      · rw [hu]; exact habove
    · refine GroupedDataset.groups_remap_congr rfl (key ?_ ?_)
      · rw [hl]; exact habove
      · rw [hu]; exact hbelow

/-! ### Agreement -/

/-- What a condition of a tree grown on a sample was fitted on, while any rows of the sample may
have been replaced since. -/
theorem nodeData_of_fitted {f : List F → List F} {d : GroupedDataset F L}
    (hc : c.classes.Splits c.lower.classes c.upper.classes)
    (hfit : Fitted settings (Builder.start sample g) c two) (hd : GroupedDataset.ImageOf f d sample) :
    ∃ e, nodeData d c = .ok e ∧ e.width = d.width ∧ GroupedDataset.ImageOf f e two ∧
      (c.present d.presentClasses).isEmpty = false ∧ e.isEmpty = false := by
  cases hfit with
  | @intro n node tasks built g₁ g₂ division reaches divides hp ht hl hu =>
    have hpart := reaches.partOf
    have hnode : node.presentClasses.Splits c.lower.classes c.upper.classes := by
      rw [hl, hu]
      exact divides.splits
    have hclasses : c.classes = node.presentClasses := hc.union_eq.symm.trans hnode.union_eq
    have hpresent : ∀ x ∈ node.presentClasses, x ∈ d.presentClasses := fun x hx => by
      rw [hd.presentClasses_eq]
      exact hpart.present x hx
    have hamong : c.present d.presentClasses = node.presentClasses := by
      rw [Node.Condition.present, hclasses]
      exact LabelSet.inter_eq_left hpresent
    have himage : GroupedDataset.ImageOf f
        ((d.restrict node.presentClasses).remap (c.sideLabel node.presentClasses)) two := by
      have hrestrict := (hd.restrict node.presentClasses).remap (c.sideLabel node.presentClasses)
      have hgroups := GroupedDataset.groups_remap_congr (f := c.sideLabel node.presentClasses)
        hpart.groups_eq fun _ _ => rfl
      rw [GroupedDataset.ImageOf, ← divides.groups_eq hl hu, hgroups]
      exact hrestrict
    obtain ⟨x, hx⟩ := hnode.lower_inhabited
    refine ⟨(d.restrict node.presentClasses).remap (c.sideLabel node.presentClasses), ?_, rfl, himage,
      ?_, ?_⟩
    · rw [nodeData, hamong, GroupedDataset.subset_eq_restrict hpresent]
      rfl
    · rw [hamong]
      exact LabelSet.isEmpty_eq_false ((hnode.covers x).2 (.inl hx))
    · rw [himage.isEmpty_eq]
      exact GroupedDataset.isEmpty_eq_false (by rw [divides.groupCount_two]; omega)

omit [Eigensolver F] in
/-- Separability can be measured along any vector as long as the rows are wide. -/
theorem Discriminant.exists_index {d : GroupedDataset F L} {projector : List F} (p : Discriminant F)
    (hd : d.isEmpty = false) (hlength : projector.length = d.width) :
    ∃ v, p.index d projector = .ok v := by
  unfold Discriminant.index
  rw [if_neg (not_not_intro hlength), Scatter.ofDataset, hd]
  simp only [Bool.false_eq_true, if_false, bind, Except.bind, pure, Except.pure]
  split <;> exact ⟨_, rfl⟩

omit [Eigensolver F] [Label L] in
/-- A projector can be scaled by as many deviations. -/
theorem exists_scaledProjector {projector : List F} {scale : ColumnScale F}
    (h : projector.length = scale.deviation.length) :
    ∃ p, scaledProjector (L := L) projector scale = .ok p ∧ p.length = projector.length := by
  have hlength : commonLength projector.length scale.deviation.length = some projector.length :=
    if_pos h
  rw [scaledProjector, broadcast, hlength]
  exact ⟨_, rfl, by rw [List.length_map, List.length_range]⟩

omit [Eigensolver F] in
/-- The share of a condition whose classes are present. -/
theorem conditionImportance_eq_ok {lambda index : F} {d e : GroupedDataset F L}
    {scale : ColumnScale F} {c : Node.Condition F L} {projector : List F}
    (hpresent : (c.present d.presentClasses).isEmpty = false) (hnode : nodeData d c = .ok e)
    (hprojector : scaledProjector (L := L) c.projector scale = .ok projector)
    (hindex : (Discriminant.mk lambda).index e projector = .ok index) :
    conditionImportance lambda d scale c =
      .ok (some (projector.map fun a => index * Scalar.abs a)) := by
  unfold conditionImportance
  rw [hpresent, hnode]
  simp only [Bool.false_eq_true, if_false, bind, Except.bind, hprojector, hindex]
  rfl

omit [Eigensolver F] [Label L] in
theorem length_of_fit {x : FeatureTable F} {scale : ColumnScale F}
    (h : ColumnScale.fit (L := L) x = .ok scale) :
    scale.mean.length = x.width ∧ scale.deviation.length = x.width := by
  unfold ColumnScale.fit at h
  split at h
  · cases h
  · cases h
    exact ⟨by rw [columnMeans, List.length_map, List.length_range],
      by rw [List.length_map, List.length_range]⟩

omit [Scalar F] [Eigensolver F] in
theorem width_of_checkWidth {t : Tree F L} {width : Nat} (h : t.checkWidth width = .ok ())
    (hpos : 0 < t.width) : width = t.width := by
  unfold Tree.checkWidth at h
  split at h
  · cases h
  · next hne => exact Decidable.byContradiction fun hw => hne ⟨hw, hpos⟩

/-- For every condition of a trained tree, the data that its importance is measured on are the two
groups that its projector was fitted on, with scaled rows. No condition is left out, and none fails.
-/
theorem nodeData_eq_fitted {settings : ForestSettings F} {data : GroupedDataset F L} {index : Nat}
    {m : Member F L} {x : FeatureTable F} {scale : ColumnScale F}
    (hm : Forest.trainTree G settings data index = .ok m)
    (hscale : ColumnScale.fit (L := L) x = .ok scale)
    (hwidth : m.tree.checkWidth scale.deviation.length = .ok ()) :
    ∃ draw g, BootstrapDraw.stratified data (RandomSource.ofSeed m.seed : G) = (draw, g) ∧
      m.draw = some draw ∧ (∃ g', grow settings.tree draw.sampleData g = (.ok m.tree.root, g')) ∧
      ∀ c ∈ m.tree.root.conditions,
        ∃ standardized, scale.standardize draw.sampleData = .ok standardized ∧
          (∃ two, Fitted settings.tree (Builder.start draw.sampleData g) c two) ∧
          ∀ two, Fitted settings.tree (Builder.start draw.sampleData g) c two →
            ∃ rebuilt share, nodeData standardized c = .ok rebuilt ∧
              rebuilt.rows = two.rows.map (scale.scaleRow draw.sampleData.width) ∧
              rebuilt.labels = two.labels ∧ rebuilt.blocks = two.blocks ∧
              conditionImportance m.tree.settings.lambda standardized scale c =
                .ok (some share) := by
  have htrained := Forest.trained_of_trainTree hm
  obtain ⟨draw, g, hdraw⟩ :
      ∃ draw g, BootstrapDraw.stratified data (RandomSource.ofSeed m.seed : G) = (draw, g) :=
    ⟨_, _, rfl⟩
  obtain ⟨hdrawn, hwidthTree, g', hgrow⟩ := htrained
  have hwidthSample : draw.sampleData.width = m.tree.width := by
    rw [hwidthTree]
    exact congrArg (·.1.full.width) hdraw.symm
  rw [hdraw] at hdrawn hgrow
  refine ⟨draw, g, hdraw, hdrawn, ⟨g', hgrow⟩, fun c hc => ?_⟩
  obtain ⟨two, hfit⟩ := exists_fitted hgrow hc
  have hsplits := (spans_of_grow hgrow).splits hc
  obtain ⟨hlength, hpos⟩ := hfit.length_projector (count_le_of_checkWidth (checkWidth_of_grow hgrow))
  -- the scale has the width of the tree, which is that of the sample
  have hdeviation : scale.deviation.length = draw.sampleData.width := by
    rw [hwidthSample]
    exact width_of_checkWidth hwidth (by rw [← hwidthSample]; exact hpos)
  have hmean : scale.mean.length = draw.sampleData.width := by
    rw [(length_of_fit hscale).1, ← (length_of_fit hscale).2, hdeviation]
  obtain ⟨standardized, hstandardized, hstandardizedWidth, himage⟩ :=
    ColumnScale.standardize_eq_ok hmean
  refine ⟨standardized, hstandardized, ⟨two, hfit⟩, fun two hfit => ?_⟩
  obtain ⟨rebuilt, hrebuilt, hrebuiltWidth, hagree, hpresent, hempty⟩ :=
    nodeData_of_fitted hsplits hfit himage
  obtain ⟨projector, hprojector, hprojectorLength⟩ :=
    exists_scaledProjector (L := L) (hlength.trans hdeviation.symm)
  obtain ⟨index, hindex⟩ := (Discriminant.mk m.tree.settings.lambda).exists_index hempty
    (hprojectorLength.trans (hlength.trans (hrebuiltWidth.trans hstandardizedWidth).symm))
  refine ⟨rebuilt, projector.map fun a => index * Scalar.abs a, hrebuilt, hagree.rows_eq,
    hagree.labels_eq, hagree.blocks_eq, ?_⟩
  unfold conditionImportance
  rw [hpresent, hrebuilt]
  simp only [Bool.false_eq_true, if_false, bind, Except.bind, hprojector, hindex]
  rfl

/-- A tree is trained on three classes, and what its first condition was fitted on is put together
again. -/
theorem nodeData_eq_fitted_threeClasses : ∃ m scale,
    Forest.trainTree Xoshiro ⟨1, 0, none, 3, ⟨0, .random 1, 0⟩⟩ Exact.threeClasses 0 = .ok m ∧
      ColumnScale.fit (L := Nat) Exact.threeClasses.features = .ok scale ∧
      m.tree.checkWidth scale.deviation.length = .ok () ∧
      ∃ c ∈ m.tree.root.conditions, ∃ draw standardized rebuilt, m.draw = some draw ∧
        scale.standardize draw.sampleData = .ok standardized ∧
        nodeData standardized c = .ok rebuilt := by
  have hshape : (Forest.trainTree Xoshiro ⟨1, 0, none, 3, ⟨0, .random 1, 0⟩⟩ Exact.threeClasses
      0).toOption.map (fun m => (m.tree.root.conditions.length, m.tree.width)) = some (2, 2) := by
    decide +kernel
  cases hm : Forest.trainTree Xoshiro ⟨1, 0, none, 3, ⟨0, .random 1, 0⟩⟩ Exact.threeClasses 0 with
  | error e => rw [hm] at hshape; cases hshape
  | ok m =>
    rw [hm] at hshape
    obtain ⟨hcount, hwidth⟩ := Prod.mk.inj (Option.some.inj hshape)
    have hscale : ColumnScale.fit (L := Nat) Exact.threeClasses.features = .ok _ := rfl
    have hfits : m.tree.checkWidth (ColumnScale.mk
        (columnMeans 2 Exact.threeClasses.features.rows) ((List.range 2).map fun j =>
          ColumnScale.spread (Exact.threeClasses.features.column j))).deviation.length = .ok () := by
      rw [Tree.checkWidth, hwidth]
      rfl
    obtain ⟨c, hc⟩ := List.exists_mem_of_length_pos (by rw [hcount]; exact Nat.two_pos)
    obtain ⟨draw, g, -, hdraw, -, hall⟩ := nodeData_eq_fitted hm hscale hfits
    obtain ⟨standardized, hstandardized, ⟨two, hfit⟩, hrebuild⟩ := hall c hc
    obtain ⟨rebuilt, share, hrebuilt, -⟩ := hrebuild two hfit
    exact ⟨m, _, rfl, hscale, hfits, c, hc, draw, standardized, rebuilt, hdraw, hstandardized,
      hrebuilt⟩

end PursuitForest
