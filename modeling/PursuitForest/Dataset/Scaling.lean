import PursuitForest.Broadcast
import PursuitForest.Dataset.Grouped
/-!
Centring and scaling of columns.

A `ColumnScale` holds the mean and the sample standard deviation of every column. The deviation is
accumulated in one pass over the rows, each product rounded together with the sum it goes into, which
gives exactly zero for a constant column; a column without spread is scaled by one.
-/

namespace PursuitForest

/-- Mean and deviation of every column. -/
structure ColumnScale (F : Type) where
  mean : List F
  deviation : List F

namespace ColumnScale

variable {F L : Type} [Scalar F]

/-- Running mean and sum of squared distances from it. -/
structure Moments (F : Type) where
  count : Nat
  mean : F
  squares : F

/-- The moments with one more value. -/
def Moments.add (m : Moments F) (x : F) : Moments F :=
  let delta := x - m.mean
  let mean := m.mean + delta / Scalar.ofNat (m.count + 1)
  ⟨m.count + 1, mean, Scalar.mulAdd (x - mean) delta m.squares⟩

/-- The moments of a column. -/
def Moments.of (xs : List F) : Moments F := xs.foldl Moments.add ⟨0, 0, 0⟩

/-- Sample standard deviation, or one where there is no spread. -/
def spread (xs : List F) : F :=
  if xs.length < 2 then 1
  else
    let s := Scalar.sqrt ((Moments.of xs).squares / (Scalar.ofNat xs.length - 1))
    if (0 : F) < s then s else 1

/-- The scale of the columns of a table with rows. -/
def fit (x : FeatureTable F) : Except (Error F L) (ColumnScale F) :=
  if x.rows.isEmpty then .error (.parameter .standardizeWithoutRows)
  else .ok ⟨columnMeans x.width x.rows, (List.range x.width).map fun j => spread (x.column j)⟩

/-- The first `width` values of a row, each less its column's mean, in units of its column's
deviation. -/
def scaleRow (s : ColumnScale F) (width : Nat) (r : List F) : List F :=
  (List.range width).map fun j => (component r j - component s.mean j) / component s.deviation j

/-- Every value less its column's mean, in units of its column's deviation. -/
def transform (s : ColumnScale F) (x : FeatureTable F) : Except (Error F L) (FeatureTable F) :=
  match commonLength x.width s.mean.length with
  | none => .error (.misuse .broadcast)
  | some width => .ok {
      width
      rows := x.rows.map (s.scaleRow width)
      shaped := fun r hr => by
        obtain ⟨t, -, rfl⟩ := List.mem_map.1 hr
        simp [scaleRow] }

/-- Grouped observations in the units of the scale. -/
def standardize [Label L] (s : ColumnScale F) (d : GroupedDataset F L) :
    Except (Error F L) (GroupedDataset F L) := do
  return .ofDataset (← d.toDataset.withFeatures (← s.transform d.features))

end ColumnScale

end PursuitForest
