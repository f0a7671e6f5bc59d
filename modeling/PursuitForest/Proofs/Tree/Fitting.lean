import PursuitForest.Proofs.Tree.Shape
/-!
The data that projectors are fitted on.

Whatever node a builder comes to, its data are the rows of some classes of all data, as if these
classes had been taken at once (`Reaches.partOf`). Every condition of a grown tree was divided off
at one of these nodes (`exists_fitted`), where its projector was fitted on two groups.
-/

namespace PursuitForest

/-! ### Parts -/

section
variable {F L : Type} [Label L] {whole part : GroupedDataset F L}

/-- The rows of some classes that have rows. -/
structure GroupedDataset.PartOf (part whole : GroupedDataset F L) : Prop where
  width_eq : part.width = whole.width
  groups_eq : part.groups = (whole.restrict part.presentClasses).groups
  present : ∀ x ∈ part.presentClasses, x ∈ whole.presentClasses

namespace GroupedDataset.PartOf

theorem refl (whole : GroupedDataset F L) : whole.PartOf whole :=
  ⟨rfl, groups_restrict_presentClasses.symm, fun _ hx => hx⟩

/-- A part of a part is a part of the whole. -/
theorem restrict (h : part.PartOf whole) {classes : LabelSet L}
    (hc : ∀ x ∈ classes, x ∈ part.presentClasses) : (part.restrict classes).PartOf whole := by
  have hp := presentClasses_restrict hc
  refine ⟨h.width_eq, ?_, fun x hx => ?_⟩
  · rw [hp, ← restrict_restrict (d := whole) hc]
    show part.groups.filter _ = (whole.restrict part.presentClasses).groups.filter _
    rw [← h.groups_eq]
  · rw [hp] at hx
    exact h.present x (hc x hx)

theorem groupCount_le (h : part.PartOf whole) : part.groupCount ≤ whole.groupCount := by
  rw [groupCount, h.groups_eq]
  exact List.length_filter_le _ _

end GroupedDataset.PartOf

end

variable {F L G : Type} [Scalar F] [Eigensolver F] [Label L] [RandomSource G]
  {settings : TreeSettings F} {d whole : GroupedDataset F L} {g g' : G}

/-- Both sides of a node that is part of the data are parts of the data. -/
theorem partOf_of_branch {b : Branching F L} (h : branch settings d g = (.ok b, g'))
    (hd : d.PartOf whole) : b.lower.PartOf whole ∧ b.upper.PartOf whole := by
  obtain ⟨division, hdivide, rfl⟩ := branch_eq_ok_iff.1 h
  have hs := splits_of_divide hdivide
  exact ⟨hd.restrict fun x hx => (hs.covers x).2 (.inl hx),
    hd.restrict fun x hx => (hs.covers x).2 (.inr hx)⟩

/-! ### Nodes that a builder comes to -/

/-- A task that leads to nodes to grow is a node that branches into them. -/
theorem branch_of_perform {task : Task F L} {more : List (Task F L)} {built built' : List (Node F L)}
    (h : perform settings task built g = (.ok (more, built'), g')) {part : GroupedDataset F L}
    (hpart : .grow part ∈ more) : ∃ d b, task = .grow d ∧ branch settings d g = (.ok b, g') ∧
      (part = b.lower ∨ part = b.upper) := by
  cases task with
  | assemble projector threshold =>
    simp only [perform] at h
    split at h <;> cases h
    simp at hpart
  | grow d =>
    simp only [perform] at h
    split at h
    · cases h
    · cases h
      simp at hpart
    · cases hdivide : divide settings d g with
      | mk outcome g₁ =>
        rw [hdivide] at h
        cases outcome with
        | error e => cases h
        | ok division =>
          cases h
          simp at hpart
    · cases hbranch : branch settings d g with
      | mk outcome g₁ =>
        rw [hbranch] at h
        cases outcome with
        | error e => cases h
        | ok b =>
          cases h
          exact ⟨d, b, rfl, hbranch, by simpa using hpart⟩

theorem round_eq_next_iff {b b' : Builder F L G} : b.round settings = .next b' ↔
    ∃ task tasks more built g', b.tasks = task :: tasks ∧
      perform settings task b.built b.source = (.ok (more, built), g') ∧
        b' = ⟨more ++ tasks, built, g'⟩ := by
  unfold Builder.round
  constructor
  · intro h
    split at h
    · split at h <;> cases h
    · next task tasks htasks =>
      split at h
      · next more built g' hperform =>
        cases h
        exact ⟨task, tasks, more, built, g', htasks, hperform, rfl⟩
      · cases h
  · rintro ⟨task, tasks, more, built, g', htasks, hperform, rfl⟩
    rw [htasks]
    simp only [hperform]

/-- All nodes still to grow are parts of the data. -/
def Builder.Within (whole : GroupedDataset F L) (b : Builder F L G) : Prop :=
  ∀ part, .grow part ∈ b.tasks → part.PartOf whole

omit [Scalar F] [Eigensolver F] [RandomSource G] in
theorem within_start (d : GroupedDataset F L) (g : G) : (Builder.start d g).Within d := by
  intro part hpart
  rw [Builder.start, List.mem_singleton] at hpart
  cases hpart
  exact .refl d

theorem Builder.Within.round {b b' : Builder F L G} (hb : b.Within whole)
    (h : b.round settings = .next b') : b'.Within whole := by
  obtain ⟨task, tasks, more, built, g', htasks, hperform, rfl⟩ := round_eq_next_iff.1 h
  intro part hpart
  -- a node was there before the round, or the round has branched into it
  rcases List.mem_append.1 hpart with hmore | hrest
  · obtain ⟨d, br, rfl, hbranch, hpart⟩ := branch_of_perform hperform hmore
    have hd : d.PartOf whole := hb d (by rw [htasks]; exact List.mem_cons_self)
    rcases hpart with rfl | rfl
    · exact (partOf_of_branch hbranch hd).1
    · exact (partOf_of_branch hbranch hd).2
  · exact hb part (by rw [htasks]; exact List.mem_cons_of_mem _ hrest)

theorem Reaches.within {n : Nat} {b b' : Builder F L G} (h : Reaches settings n b b')
    (hb : b.Within whole) : b'.Within whole := by
  induction h with
  | refl => exact hb
  | next hround _ ih => exact ih (hb.round hround)

/-- A builder comes to parts of its data only. -/
theorem Reaches.partOf {n : Nat} {tasks : List (Task F L)} {built : List (Node F L)}
    (h : Reaches settings n (Builder.start whole g) ⟨.grow d :: tasks, built, g'⟩) :
    d.PartOf whole :=
  h.within (within_start whole g) d List.mem_cons_self

/-! ### Where conditions come from -/

/-- From some builder on, the projector of a condition is fitted on two groups: the builder comes to
a node whose division has the projector, the threshold and the sides of the condition. -/
inductive Fitted (settings : TreeSettings F) (b : Builder F L G) (c : Node.Condition F L)
    (two : GroupedDataset F L) : Prop
  | intro {n : Nat} {node : GroupedDataset F L} {tasks : List (Task F L)}
      {built : List (Node F L)} {g g' : G} {division : Division F L}
      (reaches : Reaches settings n b ⟨.grow node :: tasks, built, g⟩)
      (divides : Divides settings node g division two g')
      (projector_eq : c.projector = division.split.projector)
      (threshold_eq : c.threshold = division.split.threshold)
      (classes_lower : c.lower.classes = division.lower)
      (classes_upper : c.upper.classes = division.upper)

omit [Scalar F] [Eigensolver F] in
theorem toNode_eq_join {c : Node.Condition F L} {projector : List F} {threshold : F}
    {lower upper : Node F L} (h : c.toNode = .join projector threshold lower upper) :
    c.projector = projector ∧ c.threshold = threshold ∧ c.lower = lower ∧ c.upper = upper := by
  cases c
  rw [Node.Condition.toNode, Node.join, Node.condition.injEq] at h
  exact ⟨h.1, h.2.1, h.2.2.2.1, h.2.2.2.2⟩

theorem Reaches.fitted {n : Nat} {b b' : Builder F L G} {c : Node.Condition F L}
    {two : GroupedDataset F L} (h : Reaches settings n b b') (hc : Fitted settings b' c two) :
    Fitted settings b c two := by
  cases hc with
  | intro reaches divides hp ht hl hu => exact .intro (h.trans reaches) divides hp ht hl hu

/-- Every condition below a node that is grown was fitted while growing it. -/
theorem Grows.exists_fitted {outcome : Except (Error F L) (Node F L)} {root : Node F L}
    (h : Grows settings d g outcome g') (ho : outcome = .ok root) {c : Node.Condition F L}
    (hc : c.toNode ∈ root.subtrees) (tasks : List (Task F L)) (built : List (Node F L)) :
    ∃ two, Fitted settings ⟨.grow d :: tasks, built, g⟩ c two := by
  induction h generalizing root tasks built with
  | none | twoFails | branchFails | lowerFails | upperFails => cases ho
  | one hd =>
    cases ho
    rw [Node.subtrees, List.mem_singleton] at hc
    cases hc
  | @two d g g' division hd hdivide =>
    cases ho
    obtain ⟨two, hdivides⟩ := divide_eq_ok_iff.1 hdivide
    have hcond : c.toNode = division.split.toNode := by
      simpa [Split.toNode, Node.join, Node.subtrees, Node.Condition.toNode] using hc
    obtain ⟨hp, ht, hl, hu⟩ := toNode_eq_join hcond
    cases hdivides with
    | direct hcount hcolumns hsplit =>
      exact ⟨d, .intro .refl (.direct hcount hcolumns hsplit) hp ht (by rw [hl]; rfl)
        (by rw [hu]; rfl)⟩
    | regrouped hcount => exact absurd hd hcount
  | @many d g g₁ g₂ g₃ b lower upper hd hbranch hlower hupper ihl ihu =>
    cases ho
    have hround : Reaches settings 1 ⟨.grow d :: tasks, built, g⟩ _ :=
      .single (by rw [round_of_many hd, hbranch])
    rw [Node.join, Node.subtrees, List.mem_cons, List.mem_append] at hc
    rcases hc with hc | hc | hc
    · obtain ⟨hp, ht, rfl, rfl⟩ := toNode_eq_join hc
      have hl := (hlower.spans rfl).classes_eq
      have hu := (hupper.spans rfl).classes_eq
      obtain ⟨division, hdivide, rfl⟩ := branch_eq_ok_iff.1 hbranch
      obtain ⟨two, hdivides⟩ := divide_eq_ok_iff.1 hdivide
      have hs := splits_of_divide hdivide
      refine ⟨two, .intro .refl hdivides hp ht (hl.trans ?_) (hu.trans ?_)⟩
      · exact GroupedDataset.presentClasses_restrict fun x hx => (hs.covers x).2 (.inl hx)
      · exact GroupedDataset.presentClasses_restrict fun x hx => (hs.covers x).2 (.inr hx)
    · obtain ⟨two, hfit⟩ := ihl rfl hc _ built
      exact ⟨two, hround.fitted hfit⟩
    · obtain ⟨m, -, hreach⟩ := hlower.reaches rfl _ built
      obtain ⟨two, hfit⟩ := ihu rfl hc _ (lower :: built)
      exact ⟨two, hround.fitted (hreach.fitted hfit)⟩

/-- Every condition of a grown tree was fitted while growing it. -/
theorem exists_fitted {root : Node F L} (h : grow settings d g = (.ok root, g'))
    {c : Node.Condition F L} (hc : c ∈ root.conditions) :
    ∃ two, Fitted settings (Builder.start d g) c two := by
  rw [grow_eq_growRec, growRec] at h
  split at h
  · cases h
  · have hg := growNode_grows settings d g
    rw [h] at hg
    exact hg.exists_fitted rfl (Node.mem_conditions.1 hc) [] []

end PursuitForest
