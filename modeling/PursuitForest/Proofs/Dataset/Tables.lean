import PursuitForest.Proofs.Dataset.BlockIndex
import PursuitForest.Proofs.Dataset.StableSort
/-!
Observations as they are stored.

A `LabelledTable` keeps features, labels and classes beside one another, and an `IndexedTable` has
an index of class blocks as well. Nothing in these types ties the parts together: a table may have
more rows than labels, and an index may name rows of another class. What keeps them consistent is
how they are built. Rows are gathered by their places, in the features and in the labels; the index
is read off the labels, but where only columns are taken, which leaves it as it is.
`LabelledTable.Sound` and `IndexedTable.Sound` say what consistent tables are.
-/

namespace PursuitForest

/-- A feature table, labels, and the classes they are about. -/
@[ext] structure LabelledTable (F L : Type) [Label L] where
  features : FeatureTable F
  labels : List L
  classes : LabelSet L

/-- A labelled table with an index of class blocks. -/
structure IndexedTable (F L : Type) [Label L] extends LabelledTable F L where
  blocks : ClassBlocks L

/-- The rows at the given places, all of which must exist. -/
def FeatureTable.select {F L : Type} (t : FeatureTable F) (places : List Nat) :
    Except (Error F L) (FeatureTable F) :=
  if ∀ i ∈ places, i < t.size then .ok (t.gather places) else .error (.misuse .rowOutOfBounds)

namespace LabelledTable

variable {F L : Type} [Label L]

/-- A table of as many labels as rows, all of them declared. -/
def withClasses (x : FeatureTable F) (y : List L) (classes : LabelSet L) :
    Except (Error F L) (LabelledTable F L) :=
  if x.size ≠ y.length then .error (.shapeMismatch .labelledData x.size y.length)
  else match y.find? fun label => decide (label ∉ classes) with
    | some label => .error (.parameter (.undeclaredLabel label))
    | none => .ok ⟨x, y, classes⟩

/-- Rows and labels at the given places, all of which must exist in both. -/
def select (t : LabelledTable F L) (places : List Nat) : Except (Error F L) (LabelledTable F L) := do
  let features ← t.features.select places
  if ∀ i ∈ places, i < t.labels.length then
    return ⟨features, places.filterMap (t.labels[·]?), t.classes⟩
  else throw (.misuse .rowOutOfBounds)

/-- The given columns, all of which must exist. -/
def selectColumns (t : LabelledTable F L) (columns : List Nat) :
    Except (Error F L) (LabelledTable F L) :=
  if ∀ c ∈ columns, c < t.features.width then
    .ok { t with features := t.features.keepColumns columns }
  else .error (.misuse .columnOutOfBounds)

/-- Other features for the same labels and classes. -/
def withFeatures (t : LabelledTable F L) (x : FeatureTable F) :
    Except (Error F L) (LabelledTable F L) :=
  withClasses x t.labels t.classes

/-- The table with the index that is read off its labels. -/
def index (t : LabelledTable F L) : Except (Error F L) (IndexedTable F L) :=
  (ClassBlocks.scan t.labels).map fun blocks => ⟨t, blocks⟩

/-- The places of the labels in label order, those of one label ascending. -/
def sortedPlaces (labels : List L) : List Nat := (labels.zipIdx.mergeSort (labelLe (·.1))).map (·.2)

/-- The table in label order. A table that is in order already is not gathered anew. -/
def sort (t : LabelledTable F L) : Except (Error F L) (IndexedTable F L) :=
  let places := sortedPlaces t.labels
  (if places = List.range t.features.size then .ok t else t.select places) >>= index

/-- As many labels as rows, all of them declared. -/
structure Sound (t : LabelledTable F L) : Prop where
  size_eq : t.features.size = t.labels.length
  declared : ∀ label ∈ t.labels, label ∈ t.classes

end LabelledTable

namespace IndexedTable

variable {F L : Type} [Label L]

/-- The places of the rows of a class. -/
def placesOf (t : IndexedTable F L) (label : L) : Except (Error F L) (List Nat) :=
  match t.blocks.find? label with
  | some b => .ok b.places
  | none => .error (.parameter (.absentSubsetClass label))

/-- The rows of the listed classes, gathered class after class. -/
def subset (t : IndexedTable F L) (classes : LabelSet L) :
    Except (Error F L) (IndexedTable F L) := do
  let places ← classes.toList.mapM t.placesOf
  let rows ← t.select places.flatten
  (← LabelledTable.withClasses rows.features rows.labels classes).index

/-- Whether a block may stand before another: by first row, then by last. -/
def startsLe (b c : ClassBlock L) : Bool :=
  decide (b.start < c.start ∨ b.start = c.start ∧ b.stop ≤ c.stop)

variable {L' : Type} [Label L']

/-- The blocks whose labels go to `target`, from top to bottom. -/
def blocksTo (t : IndexedTable F L) (f : L → L') (target : L') : List (ClassBlock L) :=
  (t.blocks.toList.filter (f ·.label = target)).mergeSort startsLe

/-- Every label replaced by its image. Whole blocks are moved: for every image, in label order, the
blocks that go to it, from top to bottom. -/
def remap (t : IndexedTable F L) (f : L → L') : Except (Error F L') (IndexedTable F L') := do
  let targets := (t.blocks.labels.map f).toList
  let features ← t.features.select (targets.flatMap fun target =>
    (t.blocksTo f target).flatMap (·.places))
  let labels := targets.flatMap fun target =>
    (t.blocksTo f target).flatMap fun b => List.replicate b.size target
  (← LabelledTable.withClasses features labels (t.classes.map f)).index

/-- The given columns, all of which must exist, under the same index. -/
def selectColumns (t : IndexedTable F L) (columns : List Nat) :
    Except (Error F L) (IndexedTable F L) :=
  (t.toLabelledTable.selectColumns columns).map fun u => ⟨u, t.blocks⟩

/-- A consistent table in label order, with an index of blocks that have rows, follow one another
from the first row to the last, and are made of the rows that carry their label. -/
structure Sound (t : IndexedTable F L) : Prop extends t.toLabelledTable.Sound where
  ascending : t.labels.Pairwise (· ≤ ·)
  inhabited : ∀ b ∈ t.blocks.toList, 0 < b.size
  stop_eq : ∀ b ∈ t.blocks.toList, b.stop = b.start + b.size
  follow : ClassBlock.Follow 0 t.blocks.toList t.features.size
  mem_places_iff : ∀ b ∈ t.blocks.toList, ∀ i, i ∈ b.places ↔ t.labels[i]? = some b.label

end IndexedTable
end PursuitForest
