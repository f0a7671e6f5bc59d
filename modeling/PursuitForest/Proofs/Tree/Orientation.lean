import PursuitForest.Proofs.OrderedScalar
import PursuitForest.Proofs.Dataset.RowImages
import PursuitForest.Proofs.Tree.Endings
import PursuitForest.Random.Xoshiro
/-!
On which side the rows lie.

A condition is fitted on two groups, and these are the training rows of the classes below either
child, however deep the condition lies and whatever labels the groups had (`Divides.rows_eq`). In
an ordered field the mean projections of the two groups therefore lie on either side of the
threshold, at the same distance, and the mean row of a group is sent to the child that the group
belongs to (`grow_oriented`).
-/

namespace PursuitForest

/-! ### The rows below a condition -/

/-- The training rows below a condition whose classes are answered below one of its children. -/
def Node.Condition.rowsBelow {F L : Type} [Label L] (c : Node.Condition F L) (child : Node F L)
    (d : GroupedDataset F L) : List (List F) :=
  ((d.restrict c.classes).toDataset.rows.filter (child.responses.contains ·.label)).map (·.features)

section
variable {F L : Type} [Label L]

theorem GroupedDataset.rows_restrict (d : GroupedDataset F L) (classes : LabelSet L) :
    (d.restrict classes).rows = (d.groups.filter (·.label ∈ classes)).flatMap (·.rows) := rfl

/-- A part has the rows that the whole has of its classes. -/
theorem GroupedDataset.PartOf.rows_restrict {part whole : GroupedDataset F L} (h : part.PartOf whole)
    {classes : LabelSet L} (hc : ∀ x ∈ classes, x ∈ part.presentClasses) :
    (part.restrict classes).rows = (whole.restrict classes).rows := by
  rw [← GroupedDataset.restrict_restrict (d := whole) hc, GroupedDataset.rows_restrict,
    GroupedDataset.rows_restrict, h.groups_eq]

/-- The rows below a child are those of its classes. -/
theorem Node.Condition.rowsBelow_eq {c : Node.Condition F L} {child : Node F L}
    {d : GroupedDataset F L} (hsub : ∀ x ∈ child.classes, x ∈ c.classes)
    (hchild : ∀ x, x ∈ child.responses ↔ x ∈ child.classes) :
    c.rowsBelow child d = (d.restrict child.classes).rows := by
  have hrows := GroupedDataset.filter_flatMap_eq (· ∈ child.responses) (d.restrict c.classes).groups
  simp only [Node.Condition.rowsBelow, List.contains_eq_mem]
  rw [GroupedDataset.toDataset, hrows, ← GroupedDataset.restrict_restrict (d := d) hsub,
    GroupedDataset.rows_restrict]
  simp only [hchild]

end

/-! ### The groups of a division -/

section
variable {F L G : Type} [Scalar F] [Eigensolver F] [Label L] [RandomSource G]
  {settings : TreeSettings F} {d two : GroupedDataset F L} {g g' : G} {division : Division F L}

omit [Scalar F] [Eigensolver F] in
/-- A class goes under the label of its side. -/
theorem Regrouping.Of.target_eq_iff {r : Regrouping L} {s side : LabelSet L} (ho : r.Of s)
    {label x : L} (hside : r.side (F := F) label = .ok side) (hx : x ∈ s) :
    r.target x = label ↔ x ∈ side := by
  have hne := ho.below_ne_above
  rcases (ho.splits.covers x).1 hx with hb | ha
  · have hnot : x ∉ r.above.classes := ho.splits.disjoint x hb
    rw [target_of_mem_below hb]
    rcases ho.side_eq_ok_iff.1 hside with ⟨rfl, rfl⟩ | ⟨rfl, rfl⟩ <;> simp [hb, hnot, hne]
  · have hnot : x ∉ r.below.classes := fun hb => ho.splits.disjoint x hb ha
    rw [ho.target_of_mem_above ha]
    rcases ho.side_eq_ok_iff.1 hside with ⟨rfl, rfl⟩ | ⟨rfl, rfl⟩ <;> simp [ha, hnot, hne.symm]

/-- The two groups of a division have the rows of its sides. -/
theorem Divides.rows_eq (h : Divides settings d g division two g') {c : ClassGroup F L}
    (hc : c ∈ two.groups) :
    (c.label = division.split.lower → c.rows = (d.restrict division.lower).rows) ∧
      (c.label = division.split.upper → c.rows = (d.restrict division.upper).rows) := by
  cases h with
  | direct hcount hcolumns hsplit =>
    have hrows : c.rows = (d.restrict (.singleton c.label)).rows := by
      rw [GroupedDataset.rows_restrict]
      simp only [LabelSet.mem_singleton]
      rw [GroupedDataset.filter_label_eq d.ascending hc, List.flatMap_cons, List.flatMap_nil,
        List.append_nil]
    exact ⟨fun hl => by rwa [hl] at hrows, fun hu => by rwa [hu] at hrows⟩
  | @regrouped columns g' r split lower upper hcount hcolumns hregroup hsplit hlower hupper =>
    have ho := of_regroup hregroup
    obtain ⟨label, -, rfl⟩ := List.mem_map.1 hc
    have hrows : ∀ {side : LabelSet L}, r.side (F := F) label = .ok side →
        (GroupedDataset.merged d.groups r.target label).rows = (d.restrict side).rows := by
      intro side hside
      -- a merged group takes the classes of its side in the order of the data
      have hgroups : d.groups.filter (r.target ·.label = label) = d.groups.filter (·.label ∈ side) :=
        List.filter_congr fun k hk => decide_eq_decide.2
          (ho.target_eq_iff hside (GroupedDataset.label_mem_presentClasses hk))
      rw [GroupedDataset.rows_restrict, GroupedDataset.merged, hgroups]
    constructor
    · rintro rfl
      exact hrows hlower
    · rintro rfl
      exact hrows hupper

end

/-! ### Routes -/

section
variable {F L : Type} [Scalar F] [Label L]

/-- A row as wide as all projectors goes all the way down. -/
theorem Node.exists_route {row : List F} : ∀ {node : Node F L},
    (∀ c : Condition F L, c.toNode ∈ node.subtrees → row.length = c.projector.length) →
      ∃ sides, node.route row = .ok sides
  | .response _, _ => ⟨[], rfl⟩
  | .condition projector threshold classes lower upper, h => by
      have hself : row.length = projector.length :=
        h ⟨projector, threshold, classes, lower, upper⟩ List.mem_cons_self
      obtain ⟨below, hbelow⟩ : ∃ sides, lower.route row = .ok sides :=
        exists_route fun c hc => h c (List.mem_cons_of_mem _ (List.mem_append_left _ hc))
      obtain ⟨above, habove⟩ : ∃ sides, upper.route row = .ok sides :=
        exists_route fun c hc => h c (List.mem_cons_of_mem _ (List.mem_append_right _ hc))
      simp only [route, project, if_pos hself, bind, Except.bind]
      cases side threshold (Scalar.dot row projector) with
      | lower => exact ⟨_, by rw [hbelow]; rfl⟩
      | upper => exact ⟨_, by rw [habove]; rfl⟩

/-- The first side that a row takes is decided by its projection. -/
theorem Node.Condition.side_of_route {c : Condition F L} {row : List F} {sides : List Side}
    (hrow : row.length = c.projector.length) (h : c.toNode.route row = .ok sides) :
    ∃ rest, sides = side c.threshold (Scalar.dot row c.projector) :: rest := by
  simp only [toNode, route, project, if_pos hrow, bind, Except.bind] at h
  cases hside : side c.threshold (Scalar.dot row c.projector) with
  | lower =>
    rw [hside] at h
    obtain ⟨rest, -, h⟩ := bind_eq_ok_iff.1 h
    cases h
    exact ⟨rest, rfl⟩
  | upper =>
    rw [hside] at h
    obtain ⟨rest, -, h⟩ := bind_eq_ok_iff.1 h
    cases h
    exact ⟨rest, rfl⟩

end

/-! ### Orientation -/

variable {K L G : Type} [OrderedScalar K] [Label L]

/-- The rows below a condition lie on either side of its threshold: on the average those of its
lower child below and those of its upper child above, at the same distance. Their mean rows are sent
to these children. -/
structure Node.Condition.Oriented (c : Node.Condition K L) (d : GroupedDataset K L) : Prop where
  rows_lower : c.rowsBelow c.lower d ≠ []
  rows_upper : c.rowsBelow c.upper d ≠ []
  lower_lt : meanProjection c.projector (c.rowsBelow c.lower d) < c.threshold
  lt_upper : c.threshold < meanProjection c.projector (c.rowsBelow c.upper d)
  threshold_eq : c.threshold = (meanProjection c.projector (c.rowsBelow c.lower d) +
    meanProjection c.projector (c.rowsBelow c.upper d)) / 2
  route_lower : ∃ sides,
    c.toNode.route (columnMeans d.width (c.rowsBelow c.lower d)) = .ok (.lower :: sides)
  route_upper : ∃ sides,
    c.toNode.route (columnMeans d.width (c.rowsBelow c.upper d)) = .ok (.upper :: sides)

/-- A threshold halfway between the mean projections of two lists of rows, of which the first one
projects below the second. -/
structure Halfway (projector : List K) (threshold : K) (below above : List (List K)) : Prop where
  lt : meanProjection projector below < meanProjection projector above
  threshold_eq : threshold = (meanProjection projector below + meanProjection projector above) / 2

namespace Halfway

variable {projector : List K} {threshold : K} {below above : List (List K)}

theorem below_lt (h : Halfway projector threshold below above) :
    meanProjection projector below < threshold := by
  rw [h.threshold_eq]
  exact left_lt_add_div_two.2 h.lt

theorem lt_above (h : Halfway projector threshold below above) :
    threshold < meanProjection projector above := by
  rw [h.threshold_eq]
  exact add_div_two_lt_right.2 h.lt

end Halfway

omit [Label L] in
/-- A split lies halfway between two different means, the smaller one below. -/
theorem orient_eq_ok_between {projector : List K} {means : List (L × K)} {split : Split K L}
    (h : orient projector means = .ok split) : split.projector = projector ∧
      ∃ below above, (split.lower, below) ∈ means ∧ (split.upper, above) ∈ means ∧
        below < above ∧ split.threshold = (below + above) / 2 := by
  unfold orient at h
  split at h
  · next a meanA b meanB =>
    dsimp only at h
    split at h
    · cases h
    · next hapart =>
      -- equal means would have been refused as too close, for the bound is not negative
      have hne : meanA ≠ meanB := by
        rintro rfl
        refine hapart ?_
        have hscale : (0 : K) ≤ max (max 1 |meanA|) |meanA| :=
          zero_le_one.trans ((le_max_left _ _).trans (le_max_left _ _))
        rw [OrderedScalar.larger_eq_max, OrderedScalar.larger_eq_max, sub_self]
        show |(0 : K)| ≤ _
        rw [abs_zero]
        exact mul_nonneg OrderedScalar.epsilon_pos.le hscale
      rw [OrderedScalar.two_eq] at h
      split at h
      · next hlt =>
        cases h
        exact ⟨rfl, meanA, meanB, by simp, by simp, hlt, rfl⟩
      · next hge =>
        cases h
        have hlt : meanB < meanA := lt_of_le_of_ne (not_lt.1 hge) hne.symm
        exact ⟨rfl, meanB, meanA, by simp, by simp, hlt, by rw [add_comm]⟩
  · cases h

variable [Eigensolver K]

/-- The threshold of a split of two groups lies halfway between their mean projections. -/
theorem splitGroups_eq_ok_between {lambda : K} {two : GroupedDataset K L} {s : ColumnSelection}
    {split : Split K L} (h : splitGroups lambda two s = .ok split) :
    ∃ below ∈ two.groups, ∃ above ∈ two.groups, below.label = split.lower ∧
      above.label = split.upper ∧
      Halfway split.projector split.threshold below.rows above.rows := by
  obtain ⟨projector, -, h⟩ := bind_eq_ok_iff.1 h
  obtain ⟨rfl, meanBelow, meanAbove, hb, ha, hlt, hthreshold⟩ := orient_eq_ok_between h
  obtain ⟨below, hbelow, hlower⟩ := List.mem_map.1 hb
  obtain ⟨above, habove, hupper⟩ := List.mem_map.1 ha
  rw [Prod.mk.injEq, OrderedScalar.laneMean_dot] at hlower hupper
  obtain ⟨hlower, rfl⟩ := hlower
  obtain ⟨hupper, rfl⟩ := hupper
  exact ⟨below, hbelow, above, habove, hlower, hupper, ⟨hlt, hthreshold⟩⟩

variable [RandomSource G] {settings : TreeSettings K} {d two : GroupedDataset K L} {g g' : G}

/-- The threshold of a division lies halfway between the mean projections of its sides, each of
which has rows. -/
theorem Divides.between {division : Division K L} (h : Divides settings d g division two g') :
    (d.restrict division.lower).rows ≠ [] ∧ (d.restrict division.upper).rows ≠ [] ∧
      Halfway division.split.projector division.split.threshold
        (d.restrict division.lower).rows (d.restrict division.upper).rows := by
  obtain ⟨lambda, s, hsplit⟩ : ∃ lambda s, splitGroups lambda two s = .ok division.split := by
    cases h with
    | direct _ _ hsplit => exact ⟨_, _, hsplit⟩
    | regrouped _ _ _ hsplit _ _ => exact ⟨_, _, hsplit⟩
  obtain ⟨below, hb, above, ha, hbelow, habove, hhalf⟩ := splitGroups_eq_ok_between hsplit
  have hlower := (h.rows_eq hb).1 hbelow
  have hupper := (h.rows_eq ha).2 habove
  rw [← hlower, ← hupper]
  exact ⟨two.inhabited below hb, two.inhabited above ha, hhalf⟩

/-- The threshold of a fitted condition lies halfway between the mean projections of the rows of
its sides. -/
theorem Fitted.between {c : Node.Condition K L} (h : Fitted settings (Builder.start d g) c two) :
    (d.restrict c.lower.classes).rows ≠ [] ∧ (d.restrict c.upper.classes).rows ≠ [] ∧
      Halfway c.projector c.threshold (d.restrict c.lower.classes).rows
        (d.restrict c.upper.classes).rows := by
  cases h with
  | @intro n node tasks built g₁ g₂ division reaches divides hp ht hl hu =>
    have hpart := reaches.partOf
    have hcovers := divides.splits.covers
    rw [hp, ht, hl, hu, ← hpart.rows_restrict fun x hx => (hcovers x).2 (.inl hx),
      ← hpart.rows_restrict fun x hx => (hcovers x).2 (.inr hx)]
    exact divides.between

/-- The rows below a child are those of its classes in all data. -/
theorem rowsBelow_of_grow {root : Node K L} (h : grow settings d g = (.ok root, g'))
    {c : Node.Condition K L} (hc : c ∈ root.conditions) :
    c.rowsBelow c.lower d = (d.restrict c.lower.classes).rows ∧
      c.rowsBelow c.upper d = (d.restrict c.upper.classes).rows := by
  have hspans := spans_of_grow h
  have hmem := Node.mem_conditions.1 hc
  have hcovers := (hspans.splits hc).covers
  have hlower := hspans.of_mem_subtrees _ (Node.mem_subtrees_trans c.lower_mem_subtrees hmem)
  have hupper := hspans.of_mem_subtrees _ (Node.mem_subtrees_trans c.upper_mem_subtrees hmem)
  constructor
  · exact Node.Condition.rowsBelow_eq (fun x hx => (hcovers x).2 (.inl hx)) fun _ => hlower.mem_responses
  · exact Node.Condition.rowsBelow_eq (fun x hx => (hcovers x).2 (.inr hx)) fun _ => hupper.mem_responses

/-- A condition sends the mean of some rows to the side that their mean projection is on. -/
theorem route_columnMeans_of_grow {root : Node K L} (h : grow settings d g = (.ok root, g'))
    {c : Node.Condition K L} (hc : c ∈ root.conditions) {rows : List (List K)}
    (hrows : ∀ r ∈ rows, r.length = d.width) : ∃ sides,
      c.toNode.route (columnMeans d.width rows) =
        .ok (Node.side c.threshold (meanProjection c.projector rows) :: sides) := by
  have hmem := Node.mem_conditions.1 hc
  have hwidth : (columnMeans d.width rows).length = d.width := by
    rw [columnMeans, List.length_map, List.length_range]
  have hlength : ∀ b : Node.Condition K L, b.toNode ∈ c.toNode.subtrees →
      (columnMeans d.width rows).length = b.projector.length := fun b hb => by
    rw [hwidth, length_projector_of_grow h (Node.mem_conditions.2 (Node.mem_subtrees_trans hb hmem))]
  obtain ⟨sides, hsides⟩ := Node.exists_route hlength
  obtain ⟨rest, rfl⟩ :=
    Node.Condition.side_of_route (hlength c (Node.self_mem_subtrees _)) hsides
  rw [OrderedScalar.dot_columnMeans (length_projector_of_grow h hc) hrows] at hsides
  exact ⟨rest, hsides⟩

/-- Every condition of a grown tree is oriented by the data that the tree was grown on. -/
theorem grow_oriented {root : Node K L} (h : grow settings d g = (.ok root, g'))
    {c : Node.Condition K L} (hc : c ∈ root.conditions) : c.Oriented d := by
  obtain ⟨hlower, hupper⟩ := rowsBelow_of_grow h hc
  obtain ⟨two, hfit⟩ := exists_fitted h hc
  obtain ⟨hlowerRows, hupperRows, hhalf⟩ := hfit.between
  have hshaped : ∀ classes, ∀ r ∈ (d.restrict classes).rows, r.length = d.width :=
    fun classes => (d.restrict classes).features.shaped
  obtain ⟨lowerSides, hlowerRoute⟩ := route_columnMeans_of_grow h hc (hshaped c.lower.classes)
  obtain ⟨upperSides, hupperRoute⟩ := route_columnMeans_of_grow h hc (hshaped c.upper.classes)
  refine ⟨?_, ?_, ?_, ?_, ?_, ⟨lowerSides, ?_⟩, ⟨upperSides, ?_⟩⟩
  · rwa [hlower]
  · rwa [hupper]
  · rw [hlower]
    exact hhalf.below_lt
  · rw [hupper]
    exact hhalf.lt_above
  · rw [hlower, hupper]
    exact hhalf.threshold_eq
  · rw [hlower]
    rwa [Node.side, if_pos hhalf.below_lt] at hlowerRoute
  · rw [hupper]
    rwa [Node.side, if_neg hhalf.lt_above.not_gt] at hupperRoute

/-! ### An example of rational scalars -/

/-- Three classes of two rows each; the first column tells the last class apart, the second one the
other two. -/
def threeCorners : Dataset ℚ Nat where
  width := 2
  rows := [⟨[0, 0], 0⟩, ⟨[1, 1], 0⟩, ⟨[2, 9], 1⟩, ⟨[0, 8], 1⟩, ⟨[30, 4], 2⟩, ⟨[33, 5], 2⟩]
  classes := .ofList [0, 1, 2]
  shaped := by decide
  covered := by decide

/-- A tree of two conditions is grown on three classes, and both are oriented. -/
theorem grow_oriented_threeCorners : ∃ root g',
    grow ⟨0, .all, 0⟩ (.ofDataset threeCorners) (Xoshiro.ofSeed 0) = (.ok root, g') ∧
      root.conditions.length = 2 ∧ ∀ c ∈ root.conditions, c.Oriented (.ofDataset threeCorners) := by
  have hcount : (grow ⟨0, .all, 0⟩ (.ofDataset threeCorners) (Xoshiro.ofSeed 0)).1.toOption.map
      (·.conditions.length) = some 2 := by
    decide +kernel
  cases h : grow ⟨0, .all, 0⟩ (.ofDataset threeCorners) (Xoshiro.ofSeed 0) with
  | mk outcome g' =>
    rw [h] at hcount
    cases outcome with
    | error e => cases hcount
    | ok root => exact ⟨root, g', rfl, Option.some.inj hcount, fun c hc => grow_oriented h hc⟩

end PursuitForest
