import PursuitForest.Proofs.Dataset.Storage
/-!
Sequences of calls on observations.

A `Call` takes observations of one form, loose or grouped, to observations of a form. Every call
does the same to observations and to their tables (`Call.perform_stored`), so a whole sequence does
(`Calls.run_stored`), and what it leaves in store is the table of some observations. The stored
parts, which nothing ties together, are therefore consistent after any calls whatever
(`Calls.made_stored`).
-/

namespace PursuitForest

/-- How observations are kept: in any order, or class after class with an index. -/
inductive Form
  | loose
  | grouped

namespace Form

variable {F L : Type} [Label L]

/-- Observations of a form. -/
def Data (F L : Type) [Label L] : Form → Type
  | loose => Dataset F L
  | grouped => GroupedDataset F L

/-- Tables of a form. -/
def Stored (F L : Type) [Label L] : Form → Type
  | loose => LabelledTable F L
  | grouped => IndexedTable F L

/-- The table of observations of either form. -/
def table : {form : Form} → form.Data F L → form.Stored F L
  | loose, d => Dataset.table d
  | grouped, d => GroupedDataset.table d

/-- What a consistent table of a form is. -/
def Sound : {form : Form} → form.Stored F L → Prop
  | loose, t => LabelledTable.Sound t
  | grouped, t => IndexedTable.Sound t

theorem sound_table : ∀ {form : Form} (d : form.Data F L), Sound (table d)
  | loose, d => Dataset.sound_table d
  | grouped, d => GroupedDataset.sound_table d

end Form

/-- A call on observations of one form that gives observations of a form. -/
inductive Call (F L : Type) [Label L] : Form → Form → Type
  | select (places : List Nat) : Call F L .loose .loose
  | selectColumns (columns : List Nat) : Call F L .loose .loose
  | withFeatures (x : FeatureTable F) : Call F L .loose .loose
  | sort : Call F L .loose .grouped
  | forget : Call F L .grouped .loose
  | subset (classes : LabelSet L) : Call F L .grouped .grouped
  | remap (f : L → L) : Call F L .grouped .grouped
  | selectGroupedColumns (columns : List Nat) : Call F L .grouped .grouped

namespace Call

variable {F L : Type} [Label L] {first last : Form}

/-- A call on observations. -/
def perform : Call F L first last → first.Data F L → Except (Error F L) (last.Data F L)
  | select places, d => Dataset.select d places
  | selectColumns columns, d => Dataset.selectColumns d columns
  | withFeatures x, d => Dataset.withFeatures d x
  | sort, d => .ok (GroupedDataset.ofDataset d)
  | forget, d => .ok (GroupedDataset.toDataset d)
  | subset classes, d => GroupedDataset.subset d classes
  | remap f, d => .ok (GroupedDataset.remap d f)
  | selectGroupedColumns columns, d => GroupedDataset.selectColumns d columns

/-- The call on stored observations. -/
def performStored : Call F L first last → first.Stored F L → Except (Error F L) (last.Stored F L)
  | select places, t => LabelledTable.select t places
  | selectColumns columns, t => LabelledTable.selectColumns t columns
  | withFeatures x, t => LabelledTable.withFeatures t x
  | sort, t => LabelledTable.sort t
  | forget, t => .ok (IndexedTable.toLabelledTable t)
  | subset classes, t => IndexedTable.subset t classes
  | remap f, t => IndexedTable.remap t f
  | selectGroupedColumns columns, t => IndexedTable.selectColumns t columns

/-- A call does to tables what it does to observations. -/
theorem perform_stored (c : Call F L first last) (d : first.Data F L) :
    (c.perform d).map Form.table = c.performStored (Form.table d) := by
  cases c with
  | select places => exact Dataset.table_select d places
  | selectColumns columns => exact Dataset.table_selectColumns d columns
  | withFeatures x => exact Dataset.table_withFeatures d x
  | sort => exact (GroupedDataset.table_sort d).symm
  | forget => rfl
  | subset classes => exact GroupedDataset.table_subset d classes
  | remap f => exact (GroupedDataset.table_remap d f).symm
  | selectGroupedColumns columns => exact GroupedDataset.table_selectColumns d columns

end Call

/-- Calls one after the other. -/
inductive Calls (F L : Type) [Label L] : Form → Form → Type
  | done {form : Form} : Calls F L form form
  | call {first next last : Form} (c : Call F L first next) (rest : Calls F L next last) :
      Calls F L first last

namespace Calls

variable {F L : Type} [Label L] {first last : Form}

/-- Calls on observations, up to the first that fails. -/
def run : {first last : Form} → Calls F L first last → first.Data F L →
    Except (Error F L) (last.Data F L)
  | _, _, done, d => .ok d
  | _, _, call c rest, d => c.perform d >>= rest.run

/-- The calls on stored observations. -/
def runStored : {first last : Form} → Calls F L first last → first.Stored F L →
    Except (Error F L) (last.Stored F L)
  | _, _, done, t => .ok t
  | _, _, call c rest, t => c.performStored t >>= rest.runStored

/-- Calls do to tables what they do to observations. -/
theorem run_stored (cs : Calls F L first last) :
    ∀ d, (cs.run d).map Form.table = cs.runStored (Form.table d) := by
  induction cs with
  | done => exact fun _ => rfl
  | call c rest ih =>
    intro d
    rw [run, runStored, ← c.perform_stored d]
    exact map_bind_of_commutes ih _

/-- Observations of checked features, labels and classes, after some calls. -/
def made (x : FeatureTable F) (y : List L) (classes : LabelSet L) (cs : Calls F L .loose last) :
    Except (Error F L) (last.Data F L) := do
  cs.run (← Dataset.withClasses x y classes)

/-- Checked features, labels and classes in store, after the calls. -/
def madeStored (x : FeatureTable F) (y : List L) (classes : LabelSet L)
    (cs : Calls F L .loose last) : Except (Error F L) (last.Stored F L) := do
  cs.runStored (← LabelledTable.withClasses x y classes)

/-- Whatever calls are made, what is stored is the table of the observations, and consistent. -/
theorem made_stored (x : FeatureTable F) (y : List L) (classes : LabelSet L)
    (cs : Calls F L .loose last) : cs.madeStored x y classes = (cs.made x y classes).map Form.table ∧
      ∀ s, cs.madeStored x y classes = .ok s → Form.Sound s := by
  have hstored : cs.madeStored x y classes = (cs.made x y classes).map Form.table := by
    have htable := Dataset.table_withClasses x y classes
    rw [madeStored, made, ← htable]
    cases Dataset.withClasses x y classes with
    | error e => rfl
    | ok d => exact (cs.run_stored d).symm
  refine ⟨hstored, fun s hs => ?_⟩
  rw [hstored] at hs
  cases hmade : cs.made x y classes with
  | error e => rw [hmade] at hs; cases hs
  | ok d =>
    rw [hmade] at hs
    obtain rfl : Form.table d = s := Except.ok.inj hs
    exact Form.sound_table d

/-- Sorting, moving the last class into the first, leaving out the class between, and forgetting
the order and sorting anew. -/
def mergeOuter : Calls Nat Nat .loose .grouped :=
  .call .sort <| .call (.remap fun label => if label = 2 then 0 else label) <|
    .call (.subset (.singleton 0)) <| .call .forget <| .call .sort .done

theorem made_stored_mergeOuter : ∃ s : IndexedTable Nat Nat,
    mergeOuter.madeStored ⟨1, [[5], [1], [4], [2]], by decide⟩ [2, 0, 1, 0]
      (.ofList [0, 1, 2, 3]) = .ok s ∧
    s.Sound ∧ s.features.rows = [[1], [2], [5]] ∧ s.blocks.toList = [⟨0, 0, 3⟩] := by
  obtain ⟨hstored, hsound⟩ := made_stored ⟨1, [[5], [1], [4], [2]], by decide⟩ [2, 0, 1, 0]
    (.ofList [0, 1, 2, 3]) mergeOuter
  exact ⟨_, hstored, hsound _ hstored, by decide, by decide⟩

end Calls
end PursuitForest
