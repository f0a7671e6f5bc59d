import PursuitForest.Dataset.Grouped
import PursuitForest.Pursuit.Discriminant
import PursuitForest.Random.Choice
/-!
The columns a split is searched on.

A `ColumnPolicy` is applied anew for every split: either all columns take part or a random choice
of them. A `ColumnSelection` restricts data to its columns and carries vectors over these columns
back to the full width, with zeros elsewhere.
-/

namespace PursuitForest

/-- Which columns take part in a split. -/
inductive ColumnPolicy where
  | all
  /-- This many columns, drawn at random. -/
  | random (count : Nat)
deriving DecidableEq

/-- Ascending columns of data of a given width. -/
structure ColumnSelection where
  columns : List Nat
  width : Nat
deriving DecidableEq

namespace ColumnPolicy

variable {F L G : Type} [RandomSource G]

/-- Number of columns that a selection from `width` columns keeps. -/
def count (p : ColumnPolicy) (width : Nat) : Nat :=
  match p with
  | .all => width
  | .random n => n

/-- Draws the columns for a split of data of the given width. -/
def select (p : ColumnPolicy) (width : Nat) (g : G) : Except (Error F L) (ColumnSelection × G) :=
  match p with
  | .all => .ok (⟨List.range width, width⟩, g)
  | .random n =>
    if width < n then .error (.parameter (.choiceTooLarge n width))
    else
      let (columns, g) := choose width n g
      .ok (⟨columns, width⟩, g)

end ColumnPolicy

namespace ColumnSelection

variable {F L : Type}

/-- Whether every column is selected. -/
def isAll (s : ColumnSelection) : Bool := s.columns.length == s.width

/-- The data with the selected columns only. -/
def reduce [Label L] (s : ColumnSelection) (d : GroupedDataset F L) :
    Except (Error F L) (GroupedDataset F L) :=
  if s.isAll then .ok d else d.selectColumns s.columns

/-- A vector over the selected columns, carried back to the full width. -/
def expand [Scalar F] (s : ColumnSelection) (reduced : List F) : Except (Error F L) (List F) :=
  if reduced.length ≠ s.columns.length then
    .error (.shapeMismatch .reducedProjector s.columns.length reduced.length)
  else .ok (widen s.width s.columns reduced)

end ColumnSelection

end PursuitForest
