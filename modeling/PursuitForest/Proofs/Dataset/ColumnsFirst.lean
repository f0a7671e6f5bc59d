import PursuitForest.Proofs.Dataset.Calls
/-!
Columns may be taken before or after rows are moved.

Taking columns replaces every row by a part of it, and nothing that moves rows looks at more than their
labels. So each call on rows may be made on the columns or on the whole (`Call.perform_keepColumns`), with
the same success or failure, and so may any sequence of them (`Calls.run_keepColumns`). The same holds of
what is stored, where taking columns leaves the index as it is while the calls on rows read it anew
(`columns_first`).
-/

namespace PursuitForest

variable {F L : Type} [Label L]

/-! ### Each call on rows -/

namespace Dataset

theorem select_keepColumns (d : Dataset F L) (columns places : List Nat) :
    (d.keepColumns columns).select places = (d.select places).map (·.keepColumns columns) := by
  have hsize : (d.keepColumns columns).size = d.size := List.length_map _
  unfold select
  rw [hsize]
  split
  · refine congrArg Except.ok (Dataset.ext rfl ?_ rfl)
    show ((d.keepColumns columns).gather places).rows = (d.gather places).rows.map _
    rw [rows_gather, rows_gather, List.map_filterMap]
    exact List.filterMap_congr fun i _ => List.getElem?_map
  · rfl

end Dataset

namespace GroupedDataset

theorem ofDataset_keepColumns (d : Dataset F L) (columns : List Nat) :
    ofDataset (d.keepColumns columns) = (ofDataset d).keepColumns columns := by
  have hlabels : (d.keepColumns columns).labels = d.labels := by
    simp [Dataset.labels, Dataset.keepColumns]
  have hclasses : (d.keepColumns columns).presentClasses = d.presentClasses := by
    rw [Dataset.presentClasses, hlabels, Dataset.presentClasses]
  refine GroupedDataset.ext rfl ?_ rfl
  show (d.keepColumns columns).presentClasses.toList.map _ =
    (d.presentClasses.toList.map (groupOf d)).map _
  rw [hclasses, List.map_map]
  refine List.map_congr_left fun label _ => ?_
  simp only [Function.comp_apply, groupOf, Dataset.keepColumns, List.filter_map, List.map_map]
  rfl

theorem subset_keepColumns (d : GroupedDataset F L) (columns : List Nat) (classes : LabelSet L) :
    (d.keepColumns columns).subset classes = (d.subset classes).map (·.keepColumns columns) := by
  have himage := d.imageOf_keepColumns columns
  unfold subset
  rw [himage.presentClasses_eq]
  split
  · rfl
  · exact congrArg Except.ok (GroupedDataset.ext rfl (himage.restrict classes) rfl)

end GroupedDataset

/-! ### Sequences of calls -/

namespace Form

/-- Number of features of observations of either form. -/
def width : {form : Form} → form.Data F L → Nat
  | loose, d => Dataset.width d
  | grouped, d => GroupedDataset.width d

/-- The given columns of observations of either form. -/
def keepColumns (columns : List Nat) : {form : Form} → form.Data F L → form.Data F L
  | loose, d => Dataset.keepColumns d columns
  | grouped, d => GroupedDataset.keepColumns d columns

end Form

namespace Call

variable {first last : Form}

/-- The call that takes columns of observations of a form. -/
def takeColumns (columns : List Nat) : (form : Form) → Call F L form form
  | .loose => selectColumns columns
  | .grouped => selectGroupedColumns columns

theorem perform_takeColumns {columns : List Nat} : ∀ {form : Form} {d : form.Data F L},
    (∀ c ∈ columns, c < Form.width d) →
      (takeColumns columns form).perform d = .ok (Form.keepColumns columns d)
  | .loose, _, h => if_pos h
  | .grouped, _, h => if_pos h

/-- Columns may be taken before or after a step that leaves rows as wide as they are and may be made on
some of their columns. -/
theorem takeColumns_bind {columns : List Nat} {d : first.Data F L}
    {step : first.Data F L → Except (Error F L) (last.Data F L)}
    (hkeep : step (Form.keepColumns columns d) = (step d).map (Form.keepColumns columns))
    (hwidth : ∀ {e}, step d = .ok e → Form.width e = Form.width d)
    (h : ∀ c ∈ columns, c < Form.width d) :
    ((takeColumns columns first).perform d >>= step) =
      (step d >>= (takeColumns columns last).perform) := by
  rw [perform_takeColumns h]
  refine hkeep.trans ?_
  cases hstep : step d with
  | error e => rfl
  | ok e => exact (perform_takeColumns ((hwidth hstep).symm ▸ h)).symm

/-- Whether a call moves whole rows. -/
def OnRows : Call F L first last → Prop
  | select _ | sort | forget | subset _ | remap _ => True
  | selectColumns _ | withFeatures _ | selectGroupedColumns _ => False

/-- A call on rows may be made on some columns. -/
theorem perform_keepColumns {c : Call F L first last} (hc : c.OnRows) (columns : List Nat)
    (d : first.Data F L) :
    c.perform (Form.keepColumns columns d) = (c.perform d).map (Form.keepColumns columns) := by
  cases c with
  | select places => exact Dataset.select_keepColumns d columns places
  | sort => exact congrArg Except.ok (GroupedDataset.ofDataset_keepColumns d columns)
  | forget => exact congrArg Except.ok (GroupedDataset.toDataset_keepColumns d columns)
  | subset classes => exact GroupedDataset.subset_keepColumns d columns classes
  | remap f => exact congrArg Except.ok (GroupedDataset.keepColumns_remap d f columns).symm
  | selectColumns | withFeatures | selectGroupedColumns => exact hc.elim

/-- A call on rows leaves them as wide as they are. -/
theorem width_of_perform {c : Call F L first last} (hc : c.OnRows) {d : first.Data F L}
    {e : last.Data F L} (h : c.perform d = .ok e) : Form.width e = Form.width d := by
  cases c with
  | select places =>
    have hselect : Dataset.select d places = .ok e := h
    unfold Dataset.select at hselect
    split at hselect
    · cases hselect
      rfl
    · cases hselect
  | sort => cases h; rfl
  | forget => cases h; rfl
  | subset classes =>
    have hsubset : GroupedDataset.subset d classes = .ok e := h
    unfold GroupedDataset.subset at hsubset
    split at hsubset
    · cases hsubset
    · cases hsubset
      rfl
  | remap f => cases h; rfl
  | selectColumns | withFeatures | selectGroupedColumns => exact hc.elim

/-- Columns may be taken before or after a call on rows. -/
theorem takeColumns_perform {c : Call F L first last} (hc : c.OnRows) {columns : List Nat}
    {d : first.Data F L} (h : ∀ c ∈ columns, c < Form.width d) :
    ((takeColumns columns first).perform d >>= c.perform) =
      (c.perform d >>= (takeColumns columns last).perform) :=
  takeColumns_bind (perform_keepColumns hc columns d) (width_of_perform hc) h

end Call

namespace Calls

variable {first last : Form}

/-- Whether every call moves whole rows. -/
def OnRows : {first last : Form} → Calls F L first last → Prop
  | _, _, done => True
  | _, _, call c rest => c.OnRows ∧ rest.OnRows

/-- Calls on rows may be made on some columns. -/
theorem run_keepColumns {cs : Calls F L first last} (hcs : cs.OnRows) (columns : List Nat) :
    ∀ d, cs.run (Form.keepColumns columns d) = (cs.run d).map (Form.keepColumns columns) := by
  induction cs with
  | done => exact fun _ => rfl
  | call c rest ih =>
    intro d
    rw [run, run, Call.perform_keepColumns hcs.1]
    exact (map_bind_of_commutes (fun e => (ih hcs.2 e).symm) _).symm

theorem width_of_run {cs : Calls F L first last} (hcs : cs.OnRows) :
    ∀ {d e}, cs.run d = .ok e → Form.width e = Form.width d := by
  induction cs with
  | done => rintro d _ ⟨⟩; rfl
  | call c rest ih =>
    intro d e h
    obtain ⟨next, hc, hrest⟩ := bind_eq_ok_iff.1 h
    exact (ih hcs.2 hrest).trans (Call.width_of_perform hcs.1 hc)

/-- Columns may be taken before or after calls on rows. -/
theorem run_takeColumns {cs : Calls F L first last} (hcs : cs.OnRows) {columns : List Nat}
    {d : first.Data F L} (h : ∀ c ∈ columns, c < Form.width d) :
    ((Call.takeColumns columns first).perform d >>= cs.run) =
      (cs.run d >>= (Call.takeColumns columns last).perform) :=
  Call.takeColumns_bind (run_keepColumns hcs columns d) (width_of_run hcs) h

theorem run_perform_stored {next : Form} (cs : Calls F L first last) (c : Call F L last next)
    (d : first.Data F L) : (cs.run d >>= c.perform).map Form.table =
      (cs.runStored (Form.table d) >>= c.performStored) := by
  rw [map_bind_of_commutes c.perform_stored, run_stored]

/-- The same of what is stored. -/
theorem runStored_takeColumns {cs : Calls F L first last} (hcs : cs.OnRows) {columns : List Nat}
    {d : first.Data F L} (h : ∀ c ∈ columns, c < Form.width d) :
    ((Call.takeColumns columns first).performStored (Form.table d) >>= cs.runStored) =
      (cs.runStored (Form.table d) >>= (Call.takeColumns columns last).performStored) := by
  rw [← Call.perform_stored, ← map_bind_of_commutes cs.run_stored, run_takeColumns hcs h,
    run_perform_stored]

end Calls

/-- An index that is kept is the one that would be read off the columns. -/
theorem GroupedDataset.table_selectColumns_eq_index (d : GroupedDataset F L) (columns : List Nat) :
    d.table.selectColumns columns =
      (d.toDataset.table.selectColumns columns >>= LabelledTable.index) := by
  have hwidth : d.toDataset.width = d.width := rfl
  rw [← d.table_selectColumns, ← Dataset.table_selectColumns, selectColumns, Dataset.selectColumns,
    hwidth]
  split
  · rw [← d.toDataset_keepColumns]
    exact (index_toDataset _).symm
  · rfl

/-- Taking columns and moving rows give the same in either order, and succeed or fail alike: selecting
rows, sorting, subsets and images of labels, and any sequence of these, of observations and of what is
stored of them. In store the index of grouped observations is kept when columns are taken, and is the one
that a scan of their labels finds. -/
theorem columns_first (columns : List Nat) :
    (∀ d : Dataset F L, (∀ c ∈ columns, c < d.width) →
      (∀ places, (d.selectColumns columns >>= (·.select places)) =
        (d.select places >>= (·.selectColumns columns))) ∧
      (d.selectColumns columns).map GroupedDataset.ofDataset =
        (GroupedDataset.ofDataset d).selectColumns columns) ∧
    (∀ d : GroupedDataset F L, (∀ c ∈ columns, c < d.width) →
      (∀ classes, (d.selectColumns columns >>= (·.subset classes)) =
        (d.subset classes >>= (·.selectColumns columns))) ∧
      (∀ f : L → L, (d.selectColumns columns).map (·.remap f) = (d.remap f).selectColumns columns) ∧
      d.table.selectColumns columns =
        (d.toDataset.table.selectColumns columns >>= LabelledTable.index)) ∧
    ∀ {first last : Form} (cs : Calls F L first last), cs.OnRows → ∀ d : first.Data F L,
      (∀ c ∈ columns, c < Form.width d) →
        ((Call.takeColumns columns first).perform d >>= cs.run) =
          (cs.run d >>= (Call.takeColumns columns last).perform) ∧
        ((Call.takeColumns columns first).performStored (Form.table d) >>= cs.runStored) =
          (cs.runStored (Form.table d) >>= (Call.takeColumns columns last).performStored) := by
  refine ⟨fun d h => ⟨fun places => ?_, ?_⟩, fun d h => ⟨fun classes => ?_, fun f => ?_, ?_⟩,
    fun cs hcs d h => ⟨cs.run_takeColumns hcs h, cs.runStored_takeColumns hcs h⟩⟩
  · have hrows : (Call.select places : Call F L .loose .loose).OnRows := trivial
    exact Call.takeColumns_perform hrows h
  · have hwide : ∀ c ∈ columns, c < (GroupedDataset.ofDataset d).width := h
    rw [Dataset.selectColumns, if_pos h, GroupedDataset.selectColumns, if_pos hwide,
      ← GroupedDataset.ofDataset_keepColumns]
    rfl
  · have hrows : (Call.subset classes : Call F L .grouped .grouped).OnRows := trivial
    exact Call.takeColumns_perform hrows h
  · have hwide : ∀ c ∈ columns, c < (d.remap f).width := h
    rw [GroupedDataset.selectColumns, if_pos h, GroupedDataset.selectColumns, if_pos hwide,
      d.keepColumns_remap]
    rfl
  · exact d.table_selectColumns_eq_index columns

/-- Four observations of three classes. -/
def threeColumns : Dataset Nat Nat where
  width := 3
  rows := [⟨[5, 50, 7], 2⟩, ⟨[1, 10, 7], 0⟩, ⟨[4, 40, 7], 1⟩, ⟨[2, 20, 7], 0⟩]
  classes := .ofList [0, 1, 2]
  shaped := by decide
  covered := by decide

/-- The second column, the first, and the second again, of rows whose outer classes are merged; no column of
a row that is selected twice; and a subset of a class without rows, which is refused either way. -/
theorem columns_first_threeColumns :
    (∃ s : IndexedTable Nat Nat,
      ((Call.takeColumns [1, 0, 1] .loose).performStored threeColumns.table >>=
        Calls.mergeOuter.runStored) = .ok s ∧
      (Calls.mergeOuter.runStored threeColumns.table >>=
        (Call.takeColumns [1, 0, 1] .grouped).performStored) = .ok s ∧
      s.features.rows = [[10, 1, 10], [20, 2, 20], [50, 5, 50]] ∧ s.blocks.toList = [⟨0, 0, 3⟩]) ∧
    (threeColumns.selectColumns [] >>= (·.select [2, 2])) =
      (threeColumns.select [2, 2] >>= (·.selectColumns [])) ∧
    ((GroupedDataset.ofDataset threeColumns).selectColumns [1, 0, 1] >>= (·.subset (.ofList [0, 3]))) =
      .error (.parameter (.absentSubsetClass 3)) := by
  obtain ⟨-, hgrouped, hcalls⟩ := columns_first (F := Nat) (L := Nat) [1, 0, 1]
  obtain ⟨hloose, -, -⟩ := columns_first (F := Nat) (L := Nat) []
  have hrows : Calls.mergeOuter.OnRows := ⟨trivial, trivial, trivial, trivial, trivial, trivial⟩
  obtain ⟨-, hstored⟩ := hcalls Calls.mergeOuter hrows threeColumns (by decide)
  have hlast := Calls.run_perform_stored Calls.mergeOuter (Call.takeColumns [1, 0, 1] .grouped)
    threeColumns
  refine ⟨⟨_, hstored.trans hlast.symm, hlast.symm, by decide, by decide⟩,
    (hloose threeColumns (by simp)).1 [2, 2], ?_⟩
  rw [(hgrouped (.ofDataset threeColumns) (by decide)).1]
  rfl

end PursuitForest
