import PursuitForest.Forest.Model
import PursuitForest.Importance.Adjusted
import PursuitForest.Importance.Permutation
/-!
Rankings of features.

A `Ranking` is one of three ways to measure importance. Two of them need rows that a tree was not
grown on, which only trees of a forest have. The importance in a forest is the mean over its trees.
-/

namespace PursuitForest

/-- Ways to measure the importance of features. -/
inductive Ranking where
  | projector
  | adjusted
  | permutation (seed : UInt64)

variable {F L : Type} [Scalar F] [Label L] {R : Type} [Scalar R] [Rated F R]

/-- Importance in a tree that stands alone. -/
def Ranking.ofTree (r : Ranking) (t : Tree F L) (scale : ColumnScale F) :
    Except (Error F L) (List F) :=
  match r with
  | .projector => projectorImportance t scale
  | .adjusted => .error (.unsupported .adjusted)
  | .permutation _ => .error (.unsupported .permutation)

/-- Importance in a tree of a forest. -/
def Ranking.ofMember (G : Type) [RandomSource G] (r : Ranking) (m : Member F L)
    (scale : ColumnScale F) : Except (Error F L) (List F) :=
  match r with
  | .projector => projectorImportance m.tree scale
  | .adjusted => adjustedImportance m scale
  | .permutation seed => permutationImportance G seed m scale

/-- Importance of every feature, in units of the spread of the rows the tree was grown on. -/
def Tree.importance (t : Tree F L) (r : Ranking) : Except (Error F L) (List F) := do
  match t.training with
  | none => throw (.missing .treeTraining)
  | some data => r.ofTree t (← ColumnScale.fit data.features)

/-- Mean importance of every feature over the trees. -/
def Forest.importance (G : Type) [RandomSource G] (f : Forest F L) (r : Ranking) :
    Except (Error F L) (List F) := do
  let data ← f.requireTraining
  let scale ← ColumnScale.fit data.features
  let each ← f.members.mapM fun m => r.ofMember G m scale
  let total ← each.foldlM addVectors (zeros data.width)
  return total.map (· / Scalar.ofNat (max each.length 1))

end PursuitForest
