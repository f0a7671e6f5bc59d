import PursuitForest.Proofs.Dataset.Classes
import PursuitForest.Proofs.Outcomes
import PursuitForest.Proofs.Tree.Cut
import PursuitForest.Tree.Split
/-!
What a division does to the classes of a node.

`Divides` lists the ways in which a node is divided, with the two groups that the projector is
fitted on: the node itself where it has two classes, and its rows regrouped otherwise. However the
means compare, the sides of a division split the classes of the node (`Divides.splits`).
-/

namespace PursuitForest

variable {F L G : Type} [Scalar F] [Label L]

/-! ### Regroupings -/

namespace Regrouping

variable {r : Regrouping L} {s : LabelSet L}

omit [Scalar F] in
theorem target_of_mem_below {c : L} (h : c ∈ r.below.classes) : r.target c = r.below.label :=
  if_pos h

omit [Scalar F] in
theorem Of.target_of_mem_above (ho : r.Of s) {c : L} (h : c ∈ r.above.classes) :
    r.target c = r.above.label := by
  have hb : c ∉ r.below.classes := fun hb => ho.splits.disjoint c hb h
  rw [target, if_neg hb, if_pos h]

omit [Scalar F] in
theorem Of.below_ne_above (ho : r.Of s) : r.below.label ≠ r.above.label := fun h =>
  ho.splits.disjoint _ (LabelSet.min?_mem ho.below_min) (h ▸ LabelSet.min?_mem ho.above_min)

omit [Scalar F] in
/-- All classes go under one of two labels. -/
theorem Of.mem_map_target (ho : r.Of s) {x : L} :
    x ∈ s.map r.target ↔ x = r.below.label ∨ x = r.above.label := by
  rw [LabelSet.mem_map]
  constructor
  · rintro ⟨c, hc, rfl⟩
    rcases (ho.splits.covers c).1 hc with h | h
    · exact .inl (target_of_mem_below h)
    · exact .inr (ho.target_of_mem_above h)
  · rintro (rfl | rfl)
    · have hb := LabelSet.min?_mem ho.below_min
      exact ⟨_, (ho.splits.covers _).2 (.inl hb), target_of_mem_below hb⟩
    · have ha := LabelSet.min?_mem ho.above_min
      exact ⟨_, (ho.splits.covers _).2 (.inr ha), ho.target_of_mem_above ha⟩

omit [Scalar F] in
/-- Classes under one of two labels are two groups. -/
theorem Of.groupCount_remap {d : GroupedDataset F L} (ho : r.Of d.presentClasses) :
    (d.remap r.target).groupCount = 2 := by
  have hs : (d.presentClasses.map r.target).Splits (.singleton r.below.label)
      (.singleton r.above.label) := by
    refine ⟨⟨_, LabelSet.mem_singleton.2 rfl⟩, ⟨_, LabelSet.mem_singleton.2 rfl⟩, ?_, fun x => ?_⟩
    · intro x hx hx'
      rw [LabelSet.mem_singleton] at hx hx'
      exact ho.below_ne_above (hx.symm.trans hx')
    · rw [ho.mem_map_target, LabelSet.mem_singleton, LabelSet.mem_singleton]
  rw [GroupedDataset.groupCount_remap, ← hs.size_eq]
  rfl

omit [Scalar F] in
/-- A side is the union whose label it has. -/
theorem Of.side_eq_ok_iff (ho : r.Of s) {x : L} {classes : LabelSet L} :
    r.side (F := F) x = .ok classes ↔
      x = r.below.label ∧ classes = r.below.classes ∨
        x = r.above.label ∧ classes = r.above.classes := by
  have hne := ho.below_ne_above
  unfold side classesOf?
  by_cases hb : x = r.below.label
  · subst hb
    simp [hne, eq_comm]
  · by_cases ha : x = r.above.label
    · subst ha
      simp [hb, eq_comm]
    · simp [hb, ha]

end Regrouping

/-! ### Splits of two groups -/

theorem map_label_projectedMeans (d : GroupedDataset F L) (projector : List F) :
    (projectedMeans d projector).map (·.1) = d.presentClasses.toList := by
  rw [projectedMeans, List.map_map]
  rfl

theorem length_projectedMeans (d : GroupedDataset F L) (projector : List F) :
    (projectedMeans d projector).length = d.groupCount :=
  List.length_map _

omit [Label L] in
/-- A split is between two groups: it names both. -/
theorem orient_eq_ok {projector : List F} {means : List (L × F)} {split : Split F L}
    (h : orient projector means = .ok split) :
    means.map (·.1) = [split.lower, split.upper] ∨ means.map (·.1) = [split.upper, split.lower] := by
  unfold orient at h
  split at h
  · dsimp only at h
    split at h
    · cases h
    · split at h
      · cases h; exact .inl rfl
      · cases h; exact .inr rfl
  · cases h

variable [Eigensolver F]

theorem splits_of_splitGroups {lambda : F} {d : GroupedDataset F L} {s : ColumnSelection}
    {split : Split F L} (h : splitGroups lambda d s = .ok split) :
    d.presentClasses.Splits (.singleton split.lower) (.singleton split.upper) := by
  obtain ⟨projector, -, h⟩ := bind_eq_ok_iff.1 h
  have hlist : d.presentClasses.toList = [split.lower, split.upper] ∨
      d.presentClasses.toList = [split.upper, split.lower] := by
    rw [← map_label_projectedMeans d projector]
    exact orient_eq_ok h
  have hne : split.lower ≠ split.upper := by
    have hn := d.presentClasses.nodup
    rintro heq
    rcases hlist with hl | hl <;> rw [hl, heq] at hn <;> simp at hn
  refine ⟨⟨_, LabelSet.mem_singleton.2 rfl⟩, ⟨_, LabelSet.mem_singleton.2 rfl⟩, ?_, ?_⟩
  · intro x hx hx'
    exact hne ((LabelSet.mem_singleton.1 hx).symm.trans (LabelSet.mem_singleton.1 hx'))
  · intro x
    rw [LabelSet.mem_singleton, LabelSet.mem_singleton, LabelSet.mem_def]
    rcases hlist with hl | hl <;> rw [hl] <;> simp [or_comm]

/-! ### Divisions -/

/-- The classes of data are regrouped by their means. -/
theorem of_regroup {lambda : F} {d : GroupedDataset F L} {s : ColumnSelection} {r : Regrouping L}
    (h : regroup lambda d s = .ok r) : r.Of d.presentClasses := by
  obtain ⟨projector, -, h⟩ := bind_eq_ok_iff.1 h
  have hlabels := map_label_projectedMeans d projector
  have ho := Regrouping.of_ofMeans (by rw [hlabels]; exact d.presentClasses.nodup) h
  have hset : LabelSet.ofList ((projectedMeans d projector).map (·.1)) = d.presentClasses := by
    refine LabelSet.ext_mem fun x => ?_
    rw [LabelSet.mem_ofList, hlabels]
    exact LabelSet.mem_def.symm
  rwa [hset] at ho

variable [RandomSource G]

/-- How a node is divided: the division, the two groups that its projector is fitted on, and the
generator that is left behind. -/
inductive Divides (settings : TreeSettings F) (d : GroupedDataset F L) (g : G) :
    Division F L → GroupedDataset F L → G → Prop
  | direct {columns : ColumnSelection} {g' : G} {split : Split F L}
      (hcount : d.groupCount = 2)
      (hcolumns : settings.columns.select (F := F) (L := L) d.width g = .ok (columns, g'))
      (hsplit : splitGroups settings.lambda d columns = .ok split) :
      Divides settings d g ⟨split, .singleton split.lower, .singleton split.upper⟩ d g'
  | regrouped {columns : ColumnSelection} {g' : G} {r : Regrouping L} {split : Split F L}
      {lower upper : LabelSet L}
      (hcount : d.groupCount ≠ 2)
      (hcolumns : settings.columns.select (F := F) (L := L) d.width g = .ok (columns, g'))
      (hregroup : regroup settings.lambda d columns = .ok r)
      (hsplit : splitGroups settings.lambda (d.remap r.target) columns = .ok split)
      (hlower : r.side (F := F) split.lower = .ok lower)
      (hupper : r.side (F := F) split.upper = .ok upper) :
      Divides settings d g ⟨split, lower, upper⟩ (d.remap r.target) g'

variable {settings : TreeSettings F} {d : GroupedDataset F L} {g g' : G} {division : Division F L}

/-- A division that succeeds is one of the listed ones. -/
theorem divide_eq_ok_iff :
    divide settings d g = (.ok division, g') ↔ ∃ two, Divides settings d g division two g' := by
  constructor
  · intro h
    unfold divide at h
    split at h
    · cases h
    · next columns g₁ hcolumns =>
      rw [Prod.mk.injEq] at h
      obtain ⟨h, rfl⟩ := h
      split at h
      · next hcount =>
        obtain ⟨split, hsplit, h⟩ := bind_eq_ok_iff.1 h
        cases h
        exact ⟨d, .direct hcount hcolumns hsplit⟩
      · next hcount =>
        obtain ⟨r, hr, h⟩ := bind_eq_ok_iff.1 h
        obtain ⟨split, hsplit, h⟩ := bind_eq_ok_iff.1 h
        obtain ⟨lower, hlower, h⟩ := bind_eq_ok_iff.1 h
        obtain ⟨upper, hupper, h⟩ := bind_eq_ok_iff.1 h
        cases h
        exact ⟨d.remap r.target, .regrouped hcount hcolumns hr hsplit hlower hupper⟩
  · rintro ⟨two, h⟩
    cases h with
    | direct hcount hcolumns hsplit =>
      rw [divide, hcolumns]
      simp only [if_pos hcount, divideTwo, hsplit]
      rfl
    | regrouped hcount hcolumns hregroup hsplit hlower hupper =>
      rw [divide, hcolumns]
      simp only [if_neg hcount, divideMany, hregroup]
      simp only [bind, Except.bind, hsplit, hlower, hupper]
      rfl

namespace Divides

variable {two : GroupedDataset F L}

/-- The sides of a regrouped division are the unions, one way round or the other. -/
theorem sides_eq {r : Regrouping L} {split : Split F L} {columns : ColumnSelection}
    {lower upper : LabelSet L} (ho : r.Of d.presentClasses)
    (hsplit : splitGroups settings.lambda (d.remap r.target) columns = .ok split)
    (hlower : r.side (F := F) split.lower = .ok lower)
    (hupper : r.side (F := F) split.upper = .ok upper) :
    lower = r.below.classes ∧ upper = r.above.classes ∨
      lower = r.above.classes ∧ upper = r.below.classes := by
  have hs := splits_of_splitGroups hsplit
  have hne : split.lower ≠ split.upper := fun h =>
    hs.disjoint _ (LabelSet.mem_singleton.2 rfl) (LabelSet.mem_singleton.2 h)
  rcases ho.side_eq_ok_iff.1 hlower with ⟨hl, rfl⟩ | ⟨hl, rfl⟩ <;>
    rcases ho.side_eq_ok_iff.1 hupper with ⟨hu, rfl⟩ | ⟨hu, rfl⟩
  · exact absurd (hl.trans hu.symm) hne
  · exact .inl ⟨rfl, rfl⟩
  · exact .inr ⟨rfl, rfl⟩
  · exact absurd (hl.trans hu.symm) hne

/-- Every class of a divided node is on one side, and both sides have classes. -/
theorem splits (h : Divides settings d g division two g') :
    d.presentClasses.Splits division.lower division.upper := by
  cases h with
  | direct _ _ hsplit => exact splits_of_splitGroups hsplit
  | regrouped _ _ hregroup hsplit hlower hupper =>
    have ho := of_regroup hregroup
    rcases sides_eq ho hsplit hlower hupper with ⟨rfl, rfl⟩ | ⟨rfl, rfl⟩
    · exact ho.splits
    · exact ho.splits.symm

/-- Projectors are fitted on two groups. -/
theorem groupCount_two (h : Divides settings d g division two g') : two.groupCount = 2 := by
  cases h with
  | direct hcount _ _ => exact hcount
  | regrouped _ _ hregroup _ _ _ => exact (of_regroup hregroup).groupCount_remap

end Divides

theorem splits_of_divide (h : divide settings d g = (.ok division, g')) :
    d.presentClasses.Splits division.lower division.upper := by
  obtain ⟨two, h⟩ := divide_eq_ok_iff.1 h
  exact h.splits

end PursuitForest
