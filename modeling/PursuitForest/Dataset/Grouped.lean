import PursuitForest.Dataset.Basic
import PursuitForest.Dataset.Blocks
/-!
Observations sorted into class blocks.

A `GroupedDataset` keeps the rows of every class together, the classes in label order and the rows
of a class in their given order: a stable sort by label. It is stored as the list of its groups, so
the blocks (`GroupedDataset.blocks`) cannot disagree with the rows. `subset` and `remap` move whole
groups and never sort rows.
-/

namespace PursuitForest

/-- The rows of one class. -/
structure ClassGroup (F L : Type) where
  label : L
  rows : List (List F)

/-- The mean of every column. -/
def columnMeans {F : Type} [Scalar F] (width : Nat) (rows : List (List F)) : List F :=
  (List.range width).map fun j => Scalar.mean (rows.filterMap (·[j]?))

/-- Non-empty groups of rows in ascending label order, with the classes they are about. -/
structure GroupedDataset (F L : Type) [Label L] where
  width : Nat
  groups : List (ClassGroup F L)
  classes : LabelSet L
  ascending : groups.Pairwise (·.label < ·.label)
  inhabited : ∀ g ∈ groups, g.rows ≠ []
  shaped : ∀ g ∈ groups, ∀ r ∈ g.rows, r.length = width
  covered : ∀ g ∈ groups, g.label ∈ classes

namespace GroupedDataset

variable {F L : Type} [Label L]

@[ext] theorem ext {d e : GroupedDataset F L} (hw : d.width = e.width) (hg : d.groups = e.groups)
    (hc : d.classes = e.classes) : d = e := by
  cases d; cases e; cases hw; cases hg; cases hc; rfl

/-- The classes that have rows. -/
def presentClasses (d : GroupedDataset F L) : LabelSet L :=
  ⟨d.groups.map (·.label), List.pairwise_map.2 d.ascending⟩

/-- Number of classes that have rows. -/
def groupCount (d : GroupedDataset F L) : Nat := d.groups.length

/-- The feature rows, class after class. -/
def rows (d : GroupedDataset F L) : List (List F) := d.groups.flatMap (·.rows)

/-- Number of observations. -/
def size (d : GroupedDataset F L) : Nat := d.rows.length

/-- Whether there is no observation. -/
def isEmpty (d : GroupedDataset F L) : Bool := d.groups.isEmpty

/-- The label of every row. -/
def labels (d : GroupedDataset F L) : List L :=
  d.groups.flatMap fun g => g.rows.map fun _ => g.label

/-- The features without the labels. -/
def features (d : GroupedDataset F L) : FeatureTable F where
  width := d.width
  rows := d.rows
  shaped r hr := by
    obtain ⟨g, hg, hr⟩ := List.mem_flatMap.1 hr
    exact d.shaped g hg r hr

/-- Blocks of consecutive groups, the first starting at `start`. -/
def blocksFrom (start : Nat) : List (ClassGroup F L) → List (ClassBlock L)
  | [] => []
  | g :: gs => ⟨g.label, start, g.rows.length⟩ :: blocksFrom (start + g.rows.length) gs

omit [Label L] in
theorem map_label_blocksFrom : ∀ (start : Nat) (gs : List (ClassGroup F L)),
    (blocksFrom start gs).map (·.label) = gs.map (·.label)
  | _, [] => rfl
  | start, g :: gs => by simp [blocksFrom, map_label_blocksFrom]

/-- Where the rows of every class stand. -/
def blocks (d : GroupedDataset F L) : ClassBlocks L where
  toList := blocksFrom 0 d.groups
  ascending := by
    rw [← List.pairwise_map (R := (· < ·)), map_label_blocksFrom]
    exact d.presentClasses.ascending

/-- The observations in block order. -/
def toDataset (d : GroupedDataset F L) : Dataset F L where
  width := d.width
  rows := d.groups.flatMap fun g => g.rows.map fun r => ⟨r, g.label⟩
  classes := d.classes
  shaped o ho := by
    obtain ⟨g, hg, ho⟩ := List.mem_flatMap.1 ho
    obtain ⟨r, hr, rfl⟩ := List.mem_map.1 ho
    exact d.shaped g hg r hr
  covered o ho := by
    obtain ⟨g, hg, ho⟩ := List.mem_flatMap.1 ho
    obtain ⟨r, hr, rfl⟩ := List.mem_map.1 ho
    exact d.covered g hg

/-- The rows of `d` that carry `label`, as a group. -/
def groupOf (d : Dataset F L) (label : L) : ClassGroup F L :=
  ⟨label, (d.rows.filter (·.label = label)).map (·.features)⟩

/-- The observations of `d` sorted by label; rows of one class keep their order. -/
def ofDataset (d : Dataset F L) : GroupedDataset F L where
  width := d.width
  groups := d.presentClasses.toList.map (groupOf d)
  classes := d.classes
  ascending := List.pairwise_map.2 d.presentClasses.ascending
  inhabited g hg := by
    obtain ⟨label, hl, rfl⟩ := List.mem_map.1 hg
    obtain ⟨o, ho, hol⟩ := List.mem_map.1 (LabelSet.mem_ofList.1 (LabelSet.mem_def.2 hl))
    intro h
    have := List.filter_eq_nil_iff.1 (List.map_eq_nil_iff.1 h) o ho
    simp [hol] at this
  shaped g hg r hr := by
    obtain ⟨label, -, rfl⟩ := List.mem_map.1 hg
    obtain ⟨o, ho, rfl⟩ := List.mem_map.1 hr
    exact d.shaped o (List.mem_filter.1 ho).1
  covered g hg := by
    obtain ⟨label, hl, rfl⟩ := List.mem_map.1 hg
    obtain ⟨o, ho, hol⟩ := List.mem_map.1 (LabelSet.mem_ofList.1 (LabelSet.mem_def.2 hl))
    exact hol ▸ d.covered o ho

/-- The rows of a class. -/
def group (d : GroupedDataset F L) (label : L) : Except (Error F L) (List (List F)) :=
  match d.groups.find? (·.label = label) with
  | some g => .ok g.rows
  | none => .error (.parameter (.absentClass label))

/-- The mean of the rows of a class. -/
def groupMean [Scalar F] (d : GroupedDataset F L) (label : L) : Except (Error F L) (List F) := do
  return columnMeans d.width (← d.group label)

/-- The rows of the listed classes. -/
def restrict (d : GroupedDataset F L) (classes : LabelSet L) : GroupedDataset F L where
  width := d.width
  groups := d.groups.filter (·.label ∈ classes)
  classes
  ascending := d.ascending.filter _
  inhabited g hg := d.inhabited g (List.mem_filter.1 hg).1
  shaped g hg := d.shaped g (List.mem_filter.1 hg).1
  covered g hg := by simpa using (List.mem_filter.1 hg).2

/-- The rows of the listed classes, each of which must have rows. The first class without rows is
reported. -/
def subset (d : GroupedDataset F L) (classes : LabelSet L) :
    Except (Error F L) (GroupedDataset F L) :=
  match classes.toList.find? fun label => decide (label ∉ d.presentClasses) with
  | some label => .error (.parameter (.absentSubsetClass label))
  | none => .ok (d.restrict classes)

/-- The rows of the groups that `f` sends to `target`, as one group. -/
def merged {L' : Type} [Label L'] (gs : List (ClassGroup F L)) (f : L → L') (target : L') :
    ClassGroup F L' :=
  ⟨target, (gs.filter (f ·.label = target)).flatMap (·.rows)⟩

/-- Every label replaced by its image. Groups that meet in one label are joined in the order of
their old labels. -/
def remap {L' : Type} [Label L'] (d : GroupedDataset F L) (f : L → L') : GroupedDataset F L' where
  width := d.width
  groups := (d.presentClasses.map f).toList.map (merged d.groups f)
  classes := d.classes.map f
  ascending := List.pairwise_map.2 (d.presentClasses.map f).ascending
  inhabited g hg := by
    obtain ⟨target, ht, rfl⟩ := List.mem_map.1 hg
    obtain ⟨label, hl, rfl⟩ := LabelSet.mem_map.1 (LabelSet.mem_def.2 ht)
    obtain ⟨h, hh, rfl⟩ := List.mem_map.1 hl
    intro hnil
    exact d.inhabited h hh (List.flatMap_eq_nil_iff.1 hnil h (by simp [hh]))
  shaped g hg r hr := by
    obtain ⟨target, -, rfl⟩ := List.mem_map.1 hg
    obtain ⟨h, hh, hr⟩ := List.mem_flatMap.1 hr
    exact d.shaped h (List.mem_filter.1 hh).1 r hr
  covered g hg := by
    obtain ⟨target, ht, rfl⟩ := List.mem_map.1 hg
    obtain ⟨label, hl, rfl⟩ := LabelSet.mem_map.1 (LabelSet.mem_def.2 ht)
    obtain ⟨h, hh, rfl⟩ := List.mem_map.1 hl
    exact LabelSet.mem_map.2 ⟨h.label, d.covered h hh, rfl⟩

/-- The given columns in the given order; columns beyond the width are left out. The blocks
stay. -/
def keepColumns (d : GroupedDataset F L) (columns : List Nat) : GroupedDataset F L where
  width := (columns.filter (· < d.width)).length
  groups := d.groups.map fun g =>
    { g with rows := g.rows.map fun r => columns.filterMap (r[·]?) }
  classes := d.classes
  ascending := List.pairwise_map.2 d.ascending
  inhabited g hg := by
    obtain ⟨h, hh, rfl⟩ := List.mem_map.1 hg
    simpa using d.inhabited h hh
  shaped g hg r hr := by
    obtain ⟨h, hh, rfl⟩ := List.mem_map.1 hg
    obtain ⟨s, hs, rfl⟩ := List.mem_map.1 hr
    rw [length_filterMap_getElem?, d.shaped h hh s hs]
  covered g hg := by
    obtain ⟨h, hh, rfl⟩ := List.mem_map.1 hg
    exact d.covered h hh

/-- The given columns, all of which must exist. -/
def selectColumns (d : GroupedDataset F L) (columns : List Nat) :
    Except (Error F L) (GroupedDataset F L) :=
  if ∀ c ∈ columns, c < d.width then .ok (d.keepColumns columns)
  else .error (.misuse .columnOutOfBounds)

end GroupedDataset

end PursuitForest
