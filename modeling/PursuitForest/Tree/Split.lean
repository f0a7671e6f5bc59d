import PursuitForest.Tree.Regrouping
import PursuitForest.Tree.Settings
/-!
The split of a node.

Two classes are split along the projection that separates them best. More classes are first
divided into two groups by their projected means, and the split is that of the groups; the columns
are drawn once for both. The threshold lies halfway between the projected means of the groups.
-/

namespace PursuitForest

variable {F L G : Type} [Scalar F] [Label L]

/-- A projector, a threshold, and the label on either side of it. -/
structure Split (F L : Type) where
  projector : List F
  threshold : F
  lower : L
  upper : L

/-- A split and the classes on either side of it. -/
structure Division (F L : Type) [Label L] where
  split : Split F L
  lower : LabelSet L
  upper : LabelSet L

/-- The mean projection of every class, in label order. -/
def projectedMeans (d : GroupedDataset F L) (projector : List F) : List (L × F) :=
  d.groups.map fun g => (g.label, Scalar.laneMean (g.rows.map fun r => Scalar.dot r projector))

omit [Label L] in
/-- Puts the group of smaller mean below a threshold halfway between the means. The means must
differ by more than rounding. -/
def orient (projector : List F) (means : List (L × F)) : Except (Error F L) (Split F L) :=
  match means with
  | [(a, meanA), (b, meanB)] =>
    let scale := Scalar.larger (Scalar.larger 1 (Scalar.abs meanA)) (Scalar.abs meanB)
    if Scalar.abs (meanA - meanB) ≤ Scalar.epsilon * scale then
      .error (.degenerate (.equalMeans a b meanA))
    else
      let threshold := (meanA + meanB) / Scalar.two
      if meanA < meanB then .ok ⟨projector, threshold, a, b⟩
      else .ok ⟨projector, threshold, b, a⟩
  | _ => .error (.parameter (.splitGroups means.length))

/-- The best projector on the selected columns, over all columns. -/
def fitProjector [Eigensolver F] (lambda : F) (d : GroupedDataset F L) (s : ColumnSelection) :
    Except (Error F L) (List F) := do
  let reduced ← (Discriminant.mk lambda).optimize (← s.reduce d)
  s.expand reduced

/-- The split of data as it is grouped. -/
def splitGroups [Eigensolver F] (lambda : F) (d : GroupedDataset F L) (s : ColumnSelection) :
    Except (Error F L) (Split F L) := do
  let projector ← fitProjector lambda d s
  orient projector (projectedMeans d projector)

/-- The division of two classes: each is a side. -/
def divideTwo [Eigensolver F] (lambda : F) (d : GroupedDataset F L) (s : ColumnSelection) :
    Except (Error F L) (Division F L) := do
  let split ← splitGroups lambda d s
  return ⟨split, .singleton split.lower, .singleton split.upper⟩

/-- Any number of classes regrouped into two, by their means along the best projector. -/
def regroup [Eigensolver F] (lambda : F) (d : GroupedDataset F L) (s : ColumnSelection) :
    Except (Error F L) (Regrouping L) := do
  let projector ← fitProjector lambda d s
  Regrouping.ofMeans (projectedMeans d projector)

/-- The division of any number of classes: they are regrouped into two, and each group is a
side. -/
def divideMany [Eigensolver F] (lambda : F) (d : GroupedDataset F L) (s : ColumnSelection) :
    Except (Error F L) (Division F L) := do
  let regrouping ← regroup lambda d s
  let split ← splitGroups lambda (d.remap regrouping.target) s
  return ⟨split, ← regrouping.side split.lower, ← regrouping.side split.upper⟩

/-- Divides the classes of a node, and answers with the generator it leaves behind. Columns are
drawn before anything else. -/
def divide [Eigensolver F] [RandomSource G] (settings : TreeSettings F) (d : GroupedDataset F L)
    (g : G) : Except (Error F L) (Division F L) × G :=
  match settings.columns.select d.width g with
  | .error e => (.error e, g)
  | .ok (columns, g) =>
    (if d.groupCount = 2 then divideTwo settings.lambda d columns
      else divideMany settings.lambda d columns, g)

end PursuitForest
