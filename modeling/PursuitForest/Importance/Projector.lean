import PursuitForest.Dataset.Scaling
import PursuitForest.Tree.Model
/-!
Importance of features by the projectors of a tree.

The coefficients of every condition, in units of the spread of their columns, count with their
magnitude, divided by the number of classes that the condition separates.
-/

namespace PursuitForest

variable {F L : Type} [Scalar F]

/-- A vector of zeros. -/
def zeros (width : Nat) : List F := List.replicate width 0

/-- Componentwise sum. -/
def addVectors (u v : List F) : Except (Error F L) (List F) := broadcast (· + ·) u v

/-- A projector in units of the spread of the columns. -/
def scaledProjector (projector : List F) (scale : ColumnScale F) : Except (Error F L) (List F) :=
  broadcast (· * ·) projector scale.deviation

variable [Label L]

/-- Importance of every feature by the projectors of a tree. -/
def projectorImportance (t : Tree F L) (scale : ColumnScale F) : Except (Error F L) (List F) := do
  t.checkWidth scale.deviation.length
  let folded ← Node.foldStack (fun _ => pure (zeros scale.deviation.length))
    (fun c lower upper => do
      let scaled ← scaledProjector c.projector scale
      let own := scaled.map fun a => Scalar.abs a / Scalar.ofNat c.classes.size
      addVectors (← addVectors lower upper) own) t.root
  match folded with
  | some importance => return importance
  | none => throw (.parameter .lostSubtree)

end PursuitForest
