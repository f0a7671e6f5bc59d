import PursuitForest.Forest.Member
import PursuitForest.Importance.Projector
/-!
Importance of features by projectors, adjusted by how well they separate.

Every condition counts with the separability of its two sides on the rows that the tree was grown
on, and the tree counts with its accuracy on the rows that it was not grown on.
-/

namespace PursuitForest

variable {F L : Type} [Scalar F] [Label L]

omit [Scalar F] in
/-- The classes of a condition that are present in its data. -/
def Node.Condition.present (c : Node.Condition F L) (present : LabelSet L) : LabelSet L :=
  c.classes.inter present

omit [Scalar F] in
/-- Sends every class to the smallest class on its side of a condition, among the given classes. -/
def Node.Condition.sideLabel (c : Node.Condition F L) (among : LabelSet L) (label : L) : L :=
  let lower := c.lower.classes.inter among
  let upper := c.upper.classes.inter among
  if label ∈ upper then upper.min?.getD label
  else if label ∈ lower then lower.min?.getD label else label

omit [Scalar F] in
/-- The rows of the classes of a condition, in two groups. -/
def nodeData (d : GroupedDataset F L) (c : Node.Condition F L) :
    Except (Error F L) (GroupedDataset F L) := do
  let classes := c.present d.presentClasses
  return (← d.subset classes).remap (c.sideLabel classes)

/-- The share of one condition in the importance of every feature, on standardized rows. -/
def conditionImportance (lambda : F) (d : GroupedDataset F L) (scale : ColumnScale F)
    (c : Node.Condition F L) : Except (Error F L) (Option (List F)) := do
  if (c.present d.presentClasses).isEmpty then return none
  let data ← nodeData d c
  let projector ← scaledProjector c.projector scale
  let index ← (Discriminant.mk lambda).index data projector
  return some (projector.map fun a => index * Scalar.abs a)

/-- Importance of every feature by the projectors of a tree, adjusted by separability and
accuracy. -/
def adjustedImportance {R : Type} [Scalar R] [Rated F R] (m : Member F L) (scale : ColumnScale F) :
    Except (Error F L) (List F) := do
  m.tree.checkWidth scale.deviation.length
  let sample ← m.sample
  if sample.groupCount < 2 then return zeros scale.deviation.length
  let standardized ← scale.standardize sample
  let importance ← m.tree.root.conditions.foldlM (fun total c => do
    match ← conditionImportance m.tree.settings.lambda standardized scale c with
    | none => return total
    | some share => addVectors total share) (zeros scale.deviation.length)
  let error : R ← m.outOfBagError
  let weight := (1 - Rated.ofRate error) / Scalar.ofNat (sample.groupCount - 1)
  return importance.map (· * weight)

end PursuitForest
