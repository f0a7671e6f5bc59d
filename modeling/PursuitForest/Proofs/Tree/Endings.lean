import PursuitForest.Proofs.Pursuit.Projector
import PursuitForest.Proofs.Tree.Fitting
/-!
How growing can end.

Growing on data with rows and enough columns ends with a tree, for want of a split, or because the
means of some node cannot be put in order (`grow_ends`). The last happens exactly when the builder
comes to such a node (`grow_eq_inconsistentOrder_iff`), which has more than twenty classes and a
mean that differs from itself.
-/

namespace PursuitForest

/-- The ends of growing other than a tree. -/
def Error.EndsGrowth {F L : Type} (e : Error F L) : Prop :=
  e.isDegenerate = true ∨ e = .misuse .inconsistentOrder

variable {F L G : Type} [Scalar F] [Label L]

/-! ### Steps -/

omit [Label L] in
/-- Two means are put on two sides unless they are equal. -/
theorem orient_ends {projector : List F} {means : List (L × F)} (h : means.length = 2) :
    Ends (·.isDegenerate = true) (fun split => split.projector = projector)
      (orient projector means) := by
  match means with
  | [] | [_] | _ :: _ :: _ :: _ => simp at h
  | [(a, meanA), (b, meanB)] =>
    refine .ite (fun _ => .error rfl) fun _ => ?_
    exact .ite (fun _ => .ok rfl) fun _ => .ok rfl

variable [Eigensolver F]

/-- Two groups are split unless they are not separated. -/
theorem splitGroups_ends {d : GroupedDataset F L} {s : ColumnSelection} (hs : s.Suits d.width)
    (hd : d.groupCount = 2) (lambda : F) :
    Ends (·.isDegenerate = true) (fun split => split.projector.length = d.width ∧ 0 < d.width)
      (splitGroups lambda d s) := by
  have hempty := GroupedDataset.isEmpty_eq_false (d := d) (by omega)
  refine (fitProjector_ends hs hempty lambda).bind fun projector hp => ?_
  refine (orient_ends ((length_projectedMeans d projector).trans hd)).mono (fun _ he => he) ?_
  rintro split rfl
  exact hp

/-- The means of the classes along their best projector cannot be put in order. -/
def Unsortable (lambda : F) (d : GroupedDataset F L) (s : ColumnSelection) : Prop :=
  ∃ projector, fitProjector lambda d s = .ok projector ∧ sortMeans (projectedMeans d projector) = none

/-- There are many classes then, and some mean compares as different from itself. -/
theorem Unsortable.large {lambda : F} {d : GroupedDataset F L} {s : ColumnSelection}
    (h : Unsortable lambda d s) : 20 < d.groupCount ∧ ∃ projector, ∃ m ∈ projectedMeans d projector,
      (m.2 == m.2) = false := by
  obtain ⟨projector, -, hsort⟩ := h
  obtain ⟨hlength, hm⟩ := sortMeans_eq_none hsort
  rw [length_projectedMeans] at hlength
  exact ⟨hlength, projector, hm⟩

theorem Unsortable.regroup_eq {lambda : F} {d : GroupedDataset F L} {s : ColumnSelection}
    (h : Unsortable lambda d s) : regroup lambda d s = .error (.misuse .inconsistentOrder) := by
  obtain ⟨projector, hp, hsort⟩ := h
  rw [regroup, hp]
  show Regrouping.ofMeans (projectedMeans d projector) = _
  rw [Regrouping.ofMeans, hsort]

/-- Two or more classes are regrouped unless they are not separated or cannot be put in order. -/
theorem regroup_ends {lambda : F} {d : GroupedDataset F L} {s : ColumnSelection}
    (hs : s.Suits d.width) (hd : 2 ≤ d.groupCount) :
    Ends (fun e => e.isDegenerate = true ∨ e = .misuse .inconsistentOrder ∧ Unsortable lambda d s)
      (fun r => r.Of d.presentClasses) (regroup lambda d s) := by
  have hempty := GroupedDataset.isEmpty_eq_false (d := d) (by omega)
  rcases (fitProjector_ends hs hempty lambda).cases with ⟨projector, hp, -⟩ | ⟨e, he, hdeg⟩
  · have hlength : 2 ≤ (projectedMeans d projector).length := by rwa [length_projectedMeans]
    rcases Regrouping.ofMeans_cases hlength with ⟨r, hr⟩ | ⟨hsort, herror⟩
    · have hregroup : regroup lambda d s = .ok r := by
        rw [regroup, hp]
        exact hr
      rw [hregroup]
      exact .ok (of_regroup hregroup)
    · have hun : Unsortable lambda d s := ⟨projector, hp, hsort⟩
      rw [hun.regroup_eq]
      exact .error (.inr ⟨rfl, hun⟩)
  · rw [regroup, he]
    exact .error (.inl hdeg)

variable [RandomSource G] {settings : TreeSettings F} {d whole : GroupedDataset F L} {g g' : G}

/-! ### Divisions -/

/-- The columns that are drawn for a node admit a projector, along which the means of its more than
two classes cannot be put in order. -/
def NodeUnsortable (settings : TreeSettings F) (d : GroupedDataset F L) (g : G) : Prop :=
  2 < d.groupCount ∧ ∃ columns g', settings.columns.select (F := F) (L := L) d.width g =
    .ok (columns, g') ∧ Unsortable settings.lambda d columns

theorem NodeUnsortable.divide_eq (h : NodeUnsortable settings d g) :
    (divide settings d g).1 = .error (.misuse .inconsistentOrder) := by
  obtain ⟨hcount, columns, g', hselect, hun⟩ := h
  rw [divide, hselect]
  simp only [if_neg (Nat.ne_of_gt hcount), divideMany, hun.regroup_eq]
  rfl

/-- A node is divided unless it has no split or its means cannot be put in order. The projector is
as long as the rows are wide. -/
theorem divide_ends (hwidth : settings.columns.count d.width ≤ d.width) (hd : 2 ≤ d.groupCount)
    (g : G) :
    Ends (fun e => e.isDegenerate = true ∨ e = .misuse .inconsistentOrder ∧ NodeUnsortable settings d g)
      (fun division => division.split.projector.length = d.width ∧ 0 < d.width)
      (divide settings d g).1 := by
  obtain ⟨columns, g', hselect⟩ := exists_select (F := F) (L := L) (g := g) hwidth
  have hs := suits_of_select hselect
  rw [divide, hselect]
  refine .ite (fun htwo => ?_) fun hmany => ?_
  · refine ((splitGroups_ends hs htwo settings.lambda).mono
      (fun _ he => .inl he) fun _ hp => hp).bind ?_
    exact fun split hp => .ok hp
  · have hcount : 2 < d.groupCount := by omega
    refine ((regroup_ends hs hd).mono (fun e he => ?_) fun _ hr => hr).bind fun r ho => ?_
    · rcases he with hdeg | ⟨heq, hun⟩
      · exact .inl hdeg
      · exact .inr ⟨heq, hcount, columns, g', hselect, hun⟩
    · have hends := splitGroups_ends (d := d.remap r.target) hs ho.groupCount_remap settings.lambda
      cases hsplit : splitGroups settings.lambda (d.remap r.target) columns with
      | error e =>
        rw [hsplit] at hends
        exact .error (.inl hends)
      | ok split =>
        rw [hsplit] at hends
        -- both labels of the split are those of unions
        have hlabels := splits_of_splitGroups hsplit
        rw [GroupedDataset.presentClasses_remap] at hlabels
        have hside : ∀ x, x = split.lower ∨ x = split.upper →
            ∃ classes, r.side (F := F) x = .ok classes := fun x hx => by
          have hmem : x ∈ d.presentClasses.map r.target := by
            rw [hlabels.covers, LabelSet.mem_singleton, LabelSet.mem_singleton]
            exact hx
          rcases ho.mem_map_target.1 hmem with hx | hx
          · exact ⟨_, ho.side_eq_ok_iff.2 (.inl ⟨hx, rfl⟩)⟩
          · exact ⟨_, ho.side_eq_ok_iff.2 (.inr ⟨hx, rfl⟩)⟩
        obtain ⟨lower, hlower⟩ := hside split.lower (.inl rfl)
        obtain ⟨upper, hupper⟩ := hside split.upper (.inr rfl)
        simp only [bind, Except.bind, hlower, hupper]
        exact .ok hends

/-! ### Growing -/

/-- Growing a node of data with rows and enough columns ends in one of the expected ways. -/
theorem Grows.ends {outcome : Except (Error F L) (Node F L)} (h : Grows settings d g outcome g')
    (hpos : 0 < d.groupCount) (hwidth : settings.columns.count d.width ≤ d.width) :
    Ends Error.EndsGrowth (fun _ => True) outcome := by
  induction h with
  | none hd => simp [GroupedDataset.groupCount, hd] at hpos
  | one | two | many => exact .ok trivial
  | @twoFails d g g' e hd hdivide =>
    have hends := divide_ends hwidth (Nat.le_of_eq hd.symm) g
    rw [hdivide] at hends
    exact .error (hends.imp id And.left)
  | @branchFails d g g' e hd hbranch =>
    have hends := divide_ends hwidth (Nat.le_of_lt hd) g
    rw [branch_eq_error_iff.1 hbranch] at hends
    exact .error (hends.imp id And.left)
  | lowerFails hd hbranch _ ihl =>
    have hcount := groupCount_of_branch hbranch
    exact ihl hcount.2.1 (by rwa [(width_of_branch hbranch).1])
  | upperFails hd hbranch _ _ _ ihu =>
    have hcount := groupCount_of_branch hbranch
    exact ihu hcount.2.2 (by rwa [(width_of_branch hbranch).2])

theorem grow_eq_growNode (hd : d.isEmpty = false)
    (hwidth : settings.checkWidth (F := F) (L := L) d.width = .ok ()) :
    grow settings d g = growNode settings d g := by
  rw [grow_eq_growRec, growRec, checkGrowth, hd]
  simp only [Bool.false_eq_true, if_false, hwidth]

/-- A tree is grown on enough columns only. -/
theorem checkWidth_of_grow {root : Node F L} (h : grow settings d g = (.ok root, g')) :
    settings.checkWidth (F := F) (L := L) d.width = .ok () := by
  unfold grow at h
  split at h
  · cases h
  · next hcheck =>
    unfold checkGrowth at hcheck
    split at hcheck
    · cases hcheck
    · exact hcheck

theorem grow_ends (hd : d.isEmpty = false)
    (hwidth : settings.checkWidth (F := F) (L := L) d.width = .ok ()) :
    Ends Error.EndsGrowth (fun _ => True) (grow settings d g).1 := by
  rw [grow_eq_growNode hd hwidth]
  exact (growNode_grows settings d g).ends (d.groupCount_pos hd) (count_le_of_checkWidth hwidth)

/-- A fitted projector is as long as the rows are wide, which are not empty. -/
theorem Fitted.length_projector {c : Node.Condition F L} {two : GroupedDataset F L}
    (hfit : Fitted settings (Builder.start d g) c two)
    (hwidth : settings.columns.count d.width ≤ d.width) :
    c.projector.length = d.width ∧ 0 < d.width := by
  cases hfit with
  | @intro n node tasks built g₁ g₂ division reaches divides hp ht hl hu =>
    have hnode := reaches.partOf.width_eq
    have hcount : 2 ≤ node.groupCount := by
      have hsize := divides.splits.size_eq
      have hlower := divides.splits.size_lower_pos
      have hupper := divides.splits.size_upper_pos
      rw [GroupedDataset.size_presentClasses] at hsize
      omega
    have hends := divide_ends (by rwa [hnode]) hcount g₁
    rw [divide_eq_ok_iff.2 ⟨two, divides⟩] at hends
    rw [hp, ← hnode]
    exact hends

/-- Projectors are as long as the rows of the data are wide. -/
theorem length_projector_of_grow {root : Node F L} (h : grow settings d g = (.ok root, g'))
    {c : Node.Condition F L} (hc : c ∈ root.conditions) : c.projector.length = d.width := by
  obtain ⟨two, hfit⟩ := exists_fitted h hc
  exact (hfit.length_projector (count_le_of_checkWidth (checkWidth_of_grow h))).1

/-! ### Means that cannot be put in order -/

/-- A builder comes to a node whose means cannot be put in order. -/
def ComesToUnsortable (settings : TreeSettings F) (d : GroupedDataset F L) (g : G) : Prop :=
  ∃ n node tasks built g', Reaches settings n (Builder.start d g) ⟨.grow node :: tasks, built, g'⟩ ∧
    NodeUnsortable settings node g'

/-- A task that fails for the order of some values is a node whose division does. -/
theorem divide_of_perform {task : Task F L} {built : List (Node F L)}
    (h : perform settings task built g = (.error (.misuse .inconsistentOrder), g')) :
    ∃ node, task = .grow node ∧ 2 ≤ node.groupCount ∧
      divide settings node g = (.error (.misuse .inconsistentOrder), g') := by
  cases task with
  | assemble projector threshold =>
    simp only [perform] at h
    split at h <;> cases h
  | grow d =>
    simp only [perform] at h
    split at h
    · cases h
    · cases h
    · next a b hd =>
      cases hdivide : divide settings d g with
      | mk outcome g₁ =>
        rw [hdivide] at h
        cases outcome with
        | error e => cases h; exact ⟨d, rfl, by simp [GroupedDataset.groupCount, hd], hdivide⟩
        | ok division => cases h
    · next h0 h1 h2 =>
      cases hbranch : branch settings d g with
      | mk outcome g₁ =>
        rw [hbranch] at h
        cases outcome with
        | error e =>
          cases h
          have hcount := two_lt_groupCount h0 h1 h2
          exact ⟨d, rfl, Nat.le_of_lt hcount, branch_eq_error_iff.1 hbranch⟩
        | ok b => cases h

/-- A round that ends for the order of some values is about a node whose means have none. -/
theorem nodeUnsortable_of_round {b : Builder F L G} (hb : b.Within whole)
    (hwidth : settings.columns.count whole.width ≤ whole.width)
    (h : b.round settings = .done (.error (.misuse .inconsistentOrder)) g') :
    ∃ node tasks, b.tasks = .grow node :: tasks ∧ NodeUnsortable settings node b.source := by
  unfold Builder.round at h
  split at h
  · split at h <;> cases h
  · next task tasks htasks =>
    split at h
    · cases h
    · next e g₁ hperform =>
      cases h
      obtain ⟨node, rfl, hcount, hdivide⟩ := divide_of_perform hperform
      have hpart : node.PartOf whole := hb node (by rw [htasks]; exact List.mem_cons_self)
      have hnode : settings.columns.count node.width ≤ node.width := by rwa [hpart.width_eq]
      have hends := divide_ends hnode hcount b.source
      rw [hdivide] at hends
      rcases hends with hdeg | ⟨-, hun⟩
      · cases hdeg
      · exact ⟨node, tasks, htasks, hun⟩

/-- Growing fails for the order of some values exactly when it comes to a node whose means have
none. -/
theorem grow_eq_inconsistentOrder_iff (hd : d.isEmpty = false)
    (hwidth : settings.checkWidth (F := F) (L := L) d.width = .ok ()) :
    (grow settings d g).1 = .error (.misuse .inconsistentOrder) ↔
      ComesToUnsortable settings d g := by
  rw [grow_eq_growNode hd hwidth]
  constructor
  · intro h
    obtain ⟨n, b, -, hreach, hend⟩ :=
      (growNode_grows settings d g).fails h (d.groupCount_pos hd) [] []
    obtain ⟨node, tasks, htasks, hun⟩ := nodeUnsortable_of_round
      (hreach.within (within_start d g)) (count_le_of_checkWidth hwidth) hend
    obtain ⟨_, built, g₁⟩ := b
    cases htasks
    exact ⟨n, node, tasks, built, g₁, hreach, hun⟩
  · rintro ⟨n, node, tasks, built, g₁, hreach, hun⟩
    have hround : Builder.round settings ⟨.grow node :: tasks, built, g₁⟩ =
        .done (.error (.misuse .inconsistentOrder)) (divide settings node g₁).2 := by
      rw [round_of_many hun.1, branch_eq_error_iff.2 (Prod.ext hun.divide_eq rfl)]
    have henough : 3 * d.groupCount ≤ 3 * d.groupCount + 1 + n := by omega
    have hrun := run_start settings g hd henough
    rw [hreach.run_eq, Builder.run, hround] at hrun
    rw [← Option.some.inj hrun]

end PursuitForest
