import PursuitForest.Proofs.Tree.Endings
/-!
Where the coefficients of a projector lie.

The search for a split sees the columns that were drawn for its node only, and what it finds is carried
back to the full width with zeros elsewhere. So every condition of a grown tree goes back to a draw of
as many columns as the settings ask for, outside of which all its coefficients are zero
(`drawnFor_of_grow`).
-/

namespace PursuitForest

variable {F L G : Type}

/-! ### Coefficients outside of the columns -/

/-- A projector of data of some width, with coefficients other than zero in the given columns at most.
-/
structure Confined [Zero F] (width : Nat) (columns : List Nat) (projector : List F) : Prop where
  length_eq : projector.length = width
  ascending : columns.Pairwise (· < ·)
  lt_width : ∀ j ∈ columns, j < width
  zero_elsewhere : ∀ j < width, j ∉ columns → projector[j]? = some 0

/-- Coefficients that are not zero are no more than the columns. -/
theorem Confined.length_le [Zero F] {width : Nat} {columns places : List Nat} {projector : List F}
    (h : Confined width columns projector) (hnodup : places.Nodup)
    (hplaces : ∀ j ∈ places, ∃ a, projector[j]? = some a ∧ a ≠ 0) :
    places.length ≤ columns.length := by
  refine hnodup.length_le_of_subset fun j hj => Decidable.byContradiction fun hout => ?_
  obtain ⟨a, ha, hne⟩ := hplaces j hj
  have hlt : j < width := h.length_eq ▸ (List.getElem?_eq_some_iff.1 ha).1
  rw [h.zero_elsewhere j hlt hout, Option.some.injEq] at ha
  exact hne ha.symm

variable [Scalar F]

variable [Label L]

omit [Label L] in
/-- A split keeps the projector that it was oriented along. -/
theorem projector_of_orient {projector : List F} {means : List (L × F)} {split : Split F L}
    (h : orient projector means = .ok split) : split.projector = projector := by
  unfold orient at h
  split at h
  · dsimp only at h
    split at h
    · cases h
    · split at h <;> cases h <;> rfl
  · cases h

variable [Eigensolver F] [RandomSource G] {settings : TreeSettings F} {d node : GroupedDataset F L}
  {g g' : G} {division : Division F L} {two : GroupedDataset F L}

omit [RandomSource G] in
theorem zero_of_splitGroups {lambda : F} {d : GroupedDataset F L} {s : ColumnSelection}
    {split : Split F L} (h : splitGroups lambda d s = .ok split) {j : Nat} (hlt : j < s.width)
    (hj : j ∉ s.columns) : split.projector[j]? = some 0 := by
  obtain ⟨projector, hprojector, horient⟩ := bind_eq_ok_iff.1 h
  obtain ⟨e, -, hsearch⟩ := bind_eq_ok_iff.1 hprojector
  obtain ⟨reduced, -, hexpand⟩ := bind_eq_ok_iff.1 hsearch
  unfold ColumnSelection.expand at hexpand
  split at hexpand
  · cases hexpand
  · cases hexpand
    rw [projector_of_orient horient]
    exact getElem?_widen_of_notMem hlt hj

/-- The columns that a division was searched on. -/
theorem Divides.exists_columns (h : Divides settings node g division two g') :
    ∃ s : ColumnSelection, settings.columns.select (F := F) (L := L) node.width g = .ok (s, g') ∧
      ∀ j < node.width, j ∉ s.columns → division.split.projector[j]? = some 0 := by
  cases h with
  | direct _ hcolumns hsplit =>
    have hsuits := suits_of_select hcolumns
    exact ⟨_, hcolumns, fun j hlt hj => zero_of_splitGroups hsplit (hsuits.width_eq ▸ hlt) hj⟩
  | regrouped _ hcolumns _ hsplit _ _ =>
    have hsuits := suits_of_select hcolumns
    exact ⟨_, hcolumns, fun j hlt hj => zero_of_splitGroups hsplit (hsuits.width_eq ▸ hlt) hj⟩

/-! ### Conditions -/

/-- The draw of columns that a condition goes back to: from some builder on there comes a node to grow,
these columns are drawn for it, and its division has the projector, the threshold and the sides of the
condition. -/
inductive SearchedOn (settings : TreeSettings F) (b : Builder F L G) (c : Node.Condition F L)
    (columns : List Nat) : Prop
  | intro {n : Nat} {node : GroupedDataset F L} {tasks : List (Task F L)}
      {built : List (Node F L)} {g g' : G} {s : ColumnSelection} {division : Division F L}
      (reaches : Reaches settings n b ⟨.grow node :: tasks, built, g⟩)
      (drawn : settings.columns.select (F := F) (L := L) node.width g = .ok (s, g'))
      (columns_eq : columns = s.columns)
      (divided : divide settings node g = (.ok division, g'))
      (projector_eq : c.projector = division.split.projector)
      (threshold_eq : c.threshold = division.split.threshold)
      (classes_lower : c.lower.classes = division.lower)
      (classes_upper : c.upper.classes = division.upper)

/-- What is known of the coefficients of a condition: there is one for each column, and they are
confined to a draw of as many columns as the settings ask for, so no more of them differ from zero. -/
def DrawnFor (settings : TreeSettings F) (b : Builder F L G) (width : Nat) (c : Node.Condition F L) :
    Prop :=
  ∃ columns, SearchedOn settings b c columns ∧ columns.length = settings.columns.count width ∧
    Confined width columns c.projector ∧
    ∀ places : List Nat, places.Nodup → (∀ j ∈ places, ∃ a, c.projector[j]? = some a ∧ a ≠ 0) →
      places.length ≤ settings.columns.count width

theorem Fitted.drawnFor {c : Node.Condition F L} (hfit : Fitted settings (Builder.start d g) c two)
    (hwidth : settings.columns.count d.width ≤ d.width) :
    DrawnFor settings (Builder.start d g) d.width c := by
  have hlength := (hfit.length_projector hwidth).1
  cases hfit with
  | @intro n node tasks built g₁ g₂ division reaches divides hp ht hl hu =>
    have hnode := reaches.partOf.width_eq
    obtain ⟨s, hselect, hzero⟩ := divides.exists_columns
    obtain ⟨hascending, hcount⟩ := ascending_of_select hselect
    rw [hnode] at hcount
    have hconfined : Confined d.width s.columns c.projector := by
      refine ⟨hlength, hascending, fun j hj => ?_, fun j hlt hj => ?_⟩
      · rw [← hnode]
        exact (suits_of_select hselect).lt_width j hj
      · rw [hp]
        exact hzero j (hnode ▸ hlt) hj
    refine ⟨s.columns, .intro reaches hselect rfl (divide_eq_ok_iff.2 ⟨two, divides⟩) hp ht hl hu,
      hcount, hconfined, fun places hnodup hplaces => ?_⟩
    rw [← hcount]
    exact hconfined.length_le hnodup hplaces

/-- Every condition of a grown tree goes back to a draw of columns. -/
theorem drawnFor_of_grow {root : Node F L} (h : grow settings d g = (.ok root, g'))
    {c : Node.Condition F L} (hc : c ∈ root.conditions) :
    DrawnFor settings (Builder.start d g) d.width c := by
  obtain ⟨two, hfit⟩ := exists_fitted h hc
  exact hfit.drawnFor (count_le_of_checkWidth (checkWidth_of_grow h))

end PursuitForest
