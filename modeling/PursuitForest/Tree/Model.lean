import PursuitForest.Confusion.Counts
import PursuitForest.Tree.Growth
import PursuitForest.Tree.Similar
import PursuitForest.Tree.Traversal
/-!
Fitted trees.

A `Tree` is a root with the settings it was grown with, the width of the rows it predicts, and the
observations it was grown on. Trees of a forest and restored trees carry no observations; a
restored tree without conditions has no width either and takes rows of any width.
-/

namespace PursuitForest

/-- A tree that predicts. -/
structure Tree (F L : Type) [Label L] where
  root : Node F L
  settings : TreeSettings F
  width : Nat
  training : Option (GroupedDataset F L)

namespace Tree

section
variable {F L : Type} [Label L]

/-- Number of conditions. -/
def conditionCount (t : Tree F L) : Nat := (t.root.levelOrder.filter (!·.isResponse)).length

/-- Number of responses. -/
def responseCount (t : Tree F L) : Nat := (t.root.levelOrder.filter (·.isResponse)).length

/-- Number of conditions on the longest way down. -/
def depth (t : Tree F L) : Nat :=
  (Node.foldStack (m := Id) (fun _ => 0) (fun _ lower upper => 1 + max lower upper) t.root).getD 0

/-- The classes that are predicted. -/
def classes (t : Tree F L) : LabelSet L := t.root.classes

/-- Rows must be as wide as the tree, if it has a width. -/
def checkWidth (t : Tree F L) (width : Nat) : Except (Error F L) Unit :=
  if width ≠ t.width ∧ 0 < t.width then .error (.shapeMismatch .featureCount t.width width)
  else .ok ()

end

variable {F L : Type} [Scalar F] [Label L]

/-- Grows a tree on observations in any order. -/
def fit (G : Type) [Eigensolver F] [RandomSource G] (settings : TreeSettings.Checked F)
    (d : Dataset F L) : Except (Error F L) (Tree F L) := do
  let data := GroupedDataset.ofDataset d
  let root ← (grow settings.val data (RandomSource.ofSeed settings.val.seed : G)).1
  return ⟨root, settings.val, data.width, some data⟩

/-- The class of one row. -/
def predictRow (t : Tree F L) (row : List F) : Except (Error F L) L := t.root.predictRow row

/-- The class of every row. -/
def predict (t : Tree F L) (x : FeatureTable F) : Except (Error F L) (List L) :=
  x.rows.mapM t.predictRow

/-- The class of every row in place of the targets, of which there must be as many as rows. -/
def predictInto (t : Tree F L) (x : FeatureTable F) (targets : List L) :
    Except (Error F L) (List L) :=
  if x.size ≠ targets.length then .error (.misuse .targetLength) else t.predict x

/-- Predictions against the labels of observations. -/
def confusion (t : Tree F L) (d : Dataset F L) : Except (Error F L) (Confusion L) := do
  t.checkWidth d.width
  Confusion.tally (← t.predict d.features) d.labels

/-- Share of observations that are predicted wrongly. -/
def errorRate {R : Type} [Scalar R] (t : Tree F L) (d : Dataset F L) : Except (Error F L) R := do
  return (← t.confusion d).error

/-- Whether two trees have similar roots. -/
def similar (s t : Tree F L) : Bool := s.root.similar t.root

end Tree

end PursuitForest
