import PursuitForest.Dataset.Grouped
import PursuitForest.Linear.Square
/-!
Scatter of grouped observations.

The rows of each class scatter around the mean of the class, and the class means, each counted
once per row, scatter around the mean of all rows. Together they are the scatter of all rows. How
means are rounded is left open: `average` is the mean of the values of a column.
-/

namespace PursuitForest

/-- Scatter within the classes and between them. -/
structure Scatter (F : Type) (n : Nat) where
  within : Square F n
  between : Square F n

namespace Scatter

variable {F L : Type} [Scalar F] {n : Nat}

/-- Sum of the products of every vector with itself. -/
def gram (vs : List (Vec F n)) : Square F n :=
  let columns : Vector (List F) n := Vector.ofFn fun i => vs.map (·.get i)
  Square.ofFn fun i j => Scalar.fusedDot (columns.get i) (columns.get j)

/-- Scatter of vectors around their mean. -/
def around (average : List F → F) (vs : List (Vec F n)) : Square F n :=
  let mean := Vec.mean average vs
  gram (vs.map fun v => Vec.sub v mean)

/-- Scatter of the mean of some vectors around `center`, once per vector. -/
def ofMean (average : List F → F) (center : Vec F n) (vs : List (Vec F n)) : Square F n :=
  let offset := Vec.sub (Vec.mean average vs) center
  Square.ofFn fun i j => Scalar.ofNat vs.length * (offset.get i * offset.get j)

/-- Scatter of groups of vectors. -/
def ofGroups (average : List F → F) (groups : List (List (Vec F n))) : Scatter F n :=
  let center := Vec.mean average groups.flatten
  { within := groups.foldl (fun w vs => w.add (around average vs)) Square.zero
    between := groups.foldl (fun b vs => b.add (ofMean average center vs)) Square.zero }

/-- Scatter of the class blocks of observations. -/
def ofDataset [Label L] (average : List F → F) (d : GroupedDataset F L) :
    Except (Error F L) (Scatter F d.width) :=
  if d.isEmpty then .error (.parameter .scatterWithoutRows)
  else .ok (ofGroups average (d.groups.map fun g => g.rows.map (Vec.ofRow d.width)))

end Scatter

end PursuitForest
