import PursuitForest.Proofs.Dataset.Relabelling
import PursuitForest.Proofs.Exact
import PursuitForest.Proofs.Tree.Recursion
import PursuitForest.Random.Xoshiro
/-!
Two classes without a case of their own.

Whatever their means are, two classes that are regrouped come out as they were: a union holds one of them
under its own label (`Regrouping.Of.unions_of_two`). So a node of two classes that is divided like one of
more classes is divided as it is (`divideByRegrouping_eq`), and a builder that branches at it comes to
the node that it builds in one round, over two responses (`branchesAlike_of_two`). Without a case for
two classes trees are the same (`Grows.growByRegrouping_eq`).
-/

namespace PursuitForest

variable {F L G : Type} [Scalar F] [Label L]

/-! ### Regrouping two classes -/

namespace Regrouping.Of

variable {r : Regrouping L} {s : LabelSet L}

omit [Scalar F] in
/-- Of two classes each is a union. -/
theorem unions_of_two (ho : r.Of s) (hs : s.size = 2) :
    r.below.classes = .singleton r.below.label ∧ r.above.classes = .singleton r.above.label := by
  have hsize := ho.splits.size_eq
  have hlower := ho.splits.size_lower_pos
  have hupper := ho.splits.size_upper_pos
  have hsingle : ∀ u : ClassUnion L, u.classes.min? = some u.label → u.classes.size = 1 →
      u.classes = .singleton u.label := fun u hmin hone => by
    obtain ⟨x, hx⟩ := List.length_eq_one_iff.1 hone
    obtain rfl : x = u.label := by simpa [LabelSet.min?, hx] using hmin
    exact LabelSet.ext hx
  exact ⟨hsingle _ ho.below_min (by omega), hsingle _ ho.above_min (by omega)⟩

omit [Scalar F] in
/-- Of two classes each keeps its label. -/
theorem target_of_two (ho : r.Of s) (hs : s.size = 2) (c : L) : r.target c = c := by
  obtain ⟨hbelow, habove⟩ := ho.unions_of_two hs
  by_cases hb : c ∈ r.below.classes
  · rw [target_of_mem_below hb]
    rw [hbelow, LabelSet.mem_singleton] at hb
    exact hb.symm
  · by_cases ha : c ∈ r.above.classes
    · rw [ho.target_of_mem_above ha]
      rw [habove, LabelSet.mem_singleton] at ha
      exact ha.symm
    · rw [target, if_neg hb, if_neg ha]

omit [Scalar F] in
/-- Each of two classes is a side of its own. -/
theorem side_of_two (ho : r.Of s) (hs : s.size = 2) {c : L} (hc : c ∈ s) :
    r.side (F := F) c = .ok (.singleton c) := by
  obtain ⟨hbelow, habove⟩ := ho.unions_of_two hs
  rcases (ho.splits.covers c).1 hc with hb | ha
  · rw [hbelow, LabelSet.mem_singleton] at hb
    exact ho.side_eq_ok_iff.2 (.inl ⟨hb, by rw [hb, hbelow]⟩)
  · rw [habove, LabelSet.mem_singleton] at ha
    exact ho.side_eq_ok_iff.2 (.inr ⟨ha, by rw [ha, habove]⟩)

end Regrouping.Of

/-! ### Dividing two classes -/

variable [Eigensolver F] {d : GroupedDataset F L}

/-- Two classes can be regrouped along any projector. -/
theorem exists_regroup_of_two (hd : d.groupCount = 2) {lambda : F} {s : ColumnSelection}
    {projector : List F} (hp : fitProjector lambda d s = .ok projector) :
    ∃ r, regroup lambda d s = .ok r := by
  have hlength : (projectedMeans d projector).length = 2 := (length_projectedMeans d projector).trans hd
  have hregroup : regroup lambda d s = Regrouping.ofMeans (projectedMeans d projector) := by
    rw [regroup, hp]
    rfl
  rw [hregroup]
  refine (Regrouping.ofMeans_cases (Nat.le_of_eq hlength.symm)).resolve_right fun ⟨hsort, _⟩ => ?_
  -- so few means are sorted whatever they are
  have := (sortMeans_eq_none hsort).1
  omega

/-- Two classes are divided alike with and without regrouping them first. -/
theorem divideMany_of_two (hd : d.groupCount = 2) (lambda : F) (s : ColumnSelection) :
    divideMany lambda d s = divideTwo lambda d s := by
  have hsize : d.presentClasses.size = 2 := GroupedDataset.size_presentClasses.trans hd
  unfold divideMany divideTwo
  cases hp : fitProjector lambda d s with
  | error e =>
    have hregroup : regroup lambda d s = .error e := by rw [regroup, hp]; rfl
    have hsplit : splitGroups lambda d s = .error e := by rw [splitGroups, hp]; rfl
    rw [hregroup, hsplit]
    rfl
  | ok projector =>
    obtain ⟨r, hr⟩ := exists_regroup_of_two hd hp
    have ho := of_regroup hr
    have hremap : d.remap r.target = d :=
      GroupedDataset.remap_of_fixed fun x _ => ho.target_of_two hsize x
    simp only [hr, bind, Except.bind, hremap]
    cases hsplit : splitGroups lambda d s with
    | error e => rfl
    | ok split =>
      have hcovers := (splits_of_splitGroups hsplit).covers
      have hlower := (hcovers split.lower).2 (.inl (LabelSet.mem_singleton.2 rfl))
      have hupper := (hcovers split.upper).2 (.inr (LabelSet.mem_singleton.2 rfl))
      simp only [ho.side_of_two hsize hlower, ho.side_of_two hsize hupper]

variable [RandomSource G]

/-- Divides a node of any number of classes by regrouping them. -/
def divideByRegrouping (settings : TreeSettings F) (d : GroupedDataset F L) (g : G) :
    Except (Error F L) (Division F L) × G :=
  match settings.columns.select d.width g with
  | .error e => (.error e, g)
  | .ok (columns, g) => (divideMany settings.lambda d columns, g)

/-- There is no difference to how nodes are divided. -/
theorem divideByRegrouping_eq (settings : TreeSettings F) (d : GroupedDataset F L) (g : G) :
    divideByRegrouping settings d g = divide settings d g := by
  unfold divideByRegrouping divide
  cases settings.columns.select (F := F) (L := L) d.width g with
  | error e => rfl
  | ok drawn =>
    dsimp only
    split
    · next hd => rw [divideMany_of_two hd]
    · rfl

/-! ### Growing two classes -/

/-- Divides a node of any number of classes by regrouping them, and its data. -/
def branchByRegrouping (settings : TreeSettings F) (d : GroupedDataset F L) (g : G) :
    Except (Error F L) (Branching F L) × G :=
  let (division, g) := divideByRegrouping settings d g
  (do
    let division ← division
    return ⟨division.split, ← d.subset division.lower, ← d.subset division.upper⟩, g)

theorem branchByRegrouping_eq (settings : TreeSettings F) (d : GroupedDataset F L) (g : G) :
    branchByRegrouping settings d g = branch settings d g := by
  unfold branchByRegrouping branch
  rw [divideByRegrouping_eq]

/-- Grows a node without a case for two classes: as soon as there is more than one class, the node
branches, its lower side is grown before its upper side, and both are put under the split. -/
def growByRegrouping (settings : TreeSettings F) (d : GroupedDataset F L) (g : G) :
    Except (Error F L) (Node F L) × G :=
  match d.groups with
  | [] => (.error (.parameter .nodeWithoutClasses), g)
  | [c] => (.ok (.response c.label), g)
  | _ =>
    match _h : branchByRegrouping settings d g with
    | (.error e, g) => (.error e, g)
    | (.ok b, g) =>
      match growByRegrouping settings b.lower g with
      | (.error e, g) => (.error e, g)
      | (.ok lower, g) =>
        match growByRegrouping settings b.upper g with
        | (.error e, g) => (.error e, g)
        | (.ok upper, g) => (.ok (.join b.split.projector b.split.threshold lower upper), g)
termination_by d.groupCount
decreasing_by
  all_goals
    have := groupCount_of_branch ((branchByRegrouping_eq settings d _).symm.trans _h)
    omega

omit [Scalar F] [Eigensolver F] in
/-- The data of one class. -/
theorem exists_groups_restrict_singleton {x : L} (hx : x ∈ d.presentClasses) :
    ∃ c, (d.restrict (.singleton x)).groups = [c] ∧ c.label = x := by
  obtain ⟨c, hc, rfl⟩ := GroupedDataset.mem_presentClasses.1 hx
  refine ⟨c, ?_, rfl⟩
  simp only [GroupedDataset.restrict, LabelSet.mem_singleton]
  exact GroupedDataset.filter_label_eq d.ascending hc

/-- A node of two classes branches into the data of one class each. -/
theorem branch_of_two {settings : TreeSettings F} {g g' : G} {b : Branching F L}
    (hd : d.groupCount = 2) (h : branch settings d g = (.ok b, g')) :
    ∃ division below above, divide settings d g = (.ok division, g') ∧ b.split = division.split ∧
      b.lower.groups = [below] ∧ below.label = b.split.lower ∧
      b.upper.groups = [above] ∧ above.label = b.split.upper := by
  obtain ⟨division, hdivide, rfl⟩ := branch_eq_ok_iff.1 h
  obtain ⟨two, hdivides⟩ := divide_eq_ok_iff.1 hdivide
  have hcovers := hdivides.splits.covers
  cases hdivides with
  | regrouped hcount => exact absurd hd hcount
  | direct hcount hcolumns hsplit =>
    obtain ⟨below, hbelow, hlower⟩ :=
      exists_groups_restrict_singleton ((hcovers _).2 (.inl (LabelSet.mem_singleton.2 rfl)))
    obtain ⟨above, habove, hupper⟩ :=
      exists_groups_restrict_singleton ((hcovers _).2 (.inr (LabelSet.mem_singleton.2 rfl)))
    exact ⟨_, below, above, hdivide, rfl, hbelow, hlower, habove, hupper⟩

/-- The tasks that a branching leads to. -/
def Branching.tasks (b : Branching F L) : List (Task F L) :=
  [.grow b.lower, .grow b.upper, .assemble b.split.projector b.split.threshold]

/-- What a builder does at a node and what it would do by branching there: both fail alike, or three
rounds after branching both have come to the same. -/
def BranchesAlike (settings : TreeSettings F) (d : GroupedDataset F L) (g : G)
    (tasks : List (Task F L)) (built : List (Node F L)) : Prop :=
  match branchByRegrouping settings d g with
  | (.error e, g') => Builder.round settings ⟨.grow d :: tasks, built, g⟩ = .done (.error e) g'
  | (.ok b, g') => ∃ node,
    Builder.round settings ⟨.grow d :: tasks, built, g⟩ = .next ⟨tasks, node :: built, g'⟩ ∧
      Reaches settings 3 ⟨b.tasks ++ tasks, built, g'⟩ ⟨tasks, node :: built, g'⟩

theorem branchesAlike_of_two (settings : TreeSettings F) (hd : d.groupCount = 2) (g : G)
    (tasks : List (Task F L)) (built : List (Node F L)) :
    BranchesAlike settings d g tasks built := by
  unfold BranchesAlike
  rw [branchByRegrouping_eq, round_of_two hd]
  cases h : branch settings d g with
  | mk outcome g' =>
    cases outcome with
    | error e => simp only [branch_eq_error_iff.1 h]
    | ok b =>
      obtain ⟨division, below, above, hdivide, hsplit, hlower, hbelow, hupper, habove⟩ :=
        branch_of_two hd h
      simp only [hdivide]
      refine ⟨_, rfl, .next (round_of_one hlower) (.next (round_of_one hupper) (.single ?_))⟩
      refine round_assemble.trans ?_
      rw [hbelow, habove, hsplit]
      rfl

theorem growByRegrouping_of_one {settings : TreeSettings F} {c : ClassGroup F L} (hd : d.groups = [c])
    (g : G) : growByRegrouping settings d g = (.ok (.response c.label), g) := by
  rw [growByRegrouping, hd]

/-- Nodes of more than one class are treated alike. -/
theorem growByRegrouping_of_more {settings : TreeSettings F} (hd : 2 ≤ d.groupCount) (g : G) :
    growByRegrouping settings d g =
      match branch settings d g with
      | (.error e, g) => (.error e, g)
      | (.ok b, g) =>
        match growByRegrouping settings b.lower g with
        | (.error e, g) => (.error e, g)
        | (.ok lower, g) =>
          match growByRegrouping settings b.upper g with
          | (.error e, g) => (.error e, g)
          | (.ok upper, g) => (.ok (.join b.split.projector b.split.threshold lower upper), g) := by
  obtain ⟨a, b, rest, hgroups⟩ : ∃ a b rest, d.groups = a :: b :: rest := by
    unfold GroupedDataset.groupCount at hd
    match hg : d.groups with
    | [] | [_] => simp [hg] at hd
    | a :: b :: rest => exact ⟨a, b, rest, rfl⟩
  rw [growByRegrouping, hgroups, ← branchByRegrouping_eq]
  dsimp only
  cases branchByRegrouping settings d g with
  | mk outcome g' => cases outcome <;> rfl

/-- Growing without a case for two classes comes to the same. -/
theorem Grows.growByRegrouping_eq {settings : TreeSettings F} {g g' : G}
    {outcome : Except (Error F L) (Node F L)} (h : Grows settings d g outcome g') :
    growByRegrouping settings d g = (outcome, g') := by
  induction h with
  | none hd => rw [growByRegrouping, hd]
  | one hd => exact growByRegrouping_of_one hd _
  | @two d g g' division hd hdivide =>
    have hbranch := branch_eq_ok_iff.2 ⟨division, hdivide, rfl⟩
    obtain ⟨division', below, above, hdivide', hsplit, hlower, hbelow, hupper, habove⟩ :=
      branch_of_two hd hbranch
    obtain rfl : division = division' := by
      rw [hdivide] at hdivide'
      cases hdivide'
      rfl
    rw [growByRegrouping_of_more (Nat.le_of_eq hd.symm), hbranch]
    simp only [growByRegrouping_of_one hlower, growByRegrouping_of_one hupper, hbelow, habove]
    rfl
  | twoFails hd hdivide =>
    rw [growByRegrouping_of_more (Nat.le_of_eq hd.symm), branch_eq_error_iff.2 hdivide]
  | many hd hbranch _ _ ihl ihu =>
    simp only [growByRegrouping_of_more (Nat.le_of_lt hd), hbranch, ihl, ihu]
  | branchFails hd hbranch =>
    simp only [growByRegrouping_of_more (Nat.le_of_lt hd), hbranch]
  | lowerFails hd hbranch _ ihl =>
    simp only [growByRegrouping_of_more (Nat.le_of_lt hd), hbranch, ihl]
  | upperFails hd hbranch _ _ ihl ihu =>
    simp only [growByRegrouping_of_more (Nat.le_of_lt hd), hbranch, ihl, ihu]

/-- The case for two classes only saves work: such a node is divided as if there were more classes, a
builder comes to the same as if it branched there, and whole trees grow as without the case. -/
theorem two_classes_alike (settings : TreeSettings F) (d : GroupedDataset F L) (g : G) :
    (d.groupCount = 2 → divide settings d g = divideByRegrouping settings d g ∧
      ∀ tasks built, BranchesAlike settings d g tasks built) ∧
    grow settings d g =
      match checkGrowth settings d with
      | .error e => (.error e, g)
      | .ok () => growByRegrouping settings d g := by
  refine ⟨fun hd => ⟨(divideByRegrouping_eq settings d g).symm,
    fun tasks built => branchesAlike_of_two settings hd g tasks built⟩, ?_⟩
  rw [grow_eq_growRec, growRec]
  cases checkGrowth settings d with
  | error e => rfl
  | ok _ => exact (growNode_grows settings d g).growByRegrouping_eq.symm

/-- Two classes of two rows each. The second column spoils the projected mean of one of them, even where
its coefficient is zero. -/
def Exact.spoiledClass : GroupedDataset Exact Nat :=
  let row (a : Rat) (b : Exact) (label : Nat) : Observation Exact Nat := ⟨[.number a, b], label⟩
  .ofDataset {
    width := 2
    rows := [row 1 (.number 5) 0, row 3 .undefined 0, row 9 (.number 4) 1, row 8 (.number 6) 1]
    classes := .ofList [0, 1]
    shaped := by decide
    covered := by decide }

/-- Two classes of incomparable means are divided, and regrouping them first comes to the same. -/
theorem two_classes_alike_incomparable :
    Exact.spoiledClass.groupCount = 2 ∧ ∃ division g',
      divide ⟨0, .random 1, 0⟩ Exact.spoiledClass (Xoshiro.ofSeed 0) = (.ok division, g') ∧
      division.split.threshold = .undefined ∧
      divideByRegrouping ⟨0, .random 1, 0⟩ Exact.spoiledClass (Xoshiro.ofSeed 0) =
        (.ok division, g') := by
  have hcount : Exact.spoiledClass.groupCount = 2 := by decide +kernel
  have hthreshold : (divide ⟨0, .random 1, 0⟩ Exact.spoiledClass (Xoshiro.ofSeed 0)).1.toOption.map
      (·.split.threshold) = some .undefined := by
    decide +kernel
  have halike := (two_classes_alike ⟨0, .random 1, 0⟩ Exact.spoiledClass (Xoshiro.ofSeed 0)).1 hcount
  refine ⟨hcount, ?_⟩
  rw [← halike.1]
  cases h : divide ⟨0, .random 1, 0⟩ Exact.spoiledClass (Xoshiro.ofSeed 0) with
  | mk outcome g' =>
    rw [h] at hthreshold
    cases outcome with
    | error e => cases hthreshold
    | ok division => exact ⟨division, g', rfl, Option.some.inj hthreshold, rfl⟩

end PursuitForest
