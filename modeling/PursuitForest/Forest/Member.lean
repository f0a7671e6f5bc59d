import PursuitForest.Dataset.Bootstrap
import PursuitForest.Tree.Model
/-!
Trees of a forest, with the draw they were grown on.
-/

namespace PursuitForest

/-- A tree of a forest. Restored trees carry no draw. -/
structure Member (F L : Type) [Label L] where
  tree : Tree F L
  draw : Option (BootstrapDraw F L)

namespace Member

section
variable {F L : Type} [Label L]

/-- Seed of the attempt that grew the tree. -/
def seed (m : Member F L) : UInt64 := m.tree.settings.seed

/-- The draw that the tree was grown on. -/
def requireDraw (m : Member F L) : Except (Error F L) (BootstrapDraw F L) :=
  match m.draw with
  | some draw => .ok draw
  | none => .error (.missing .bootstrapSample)

/-- The rows that the tree was grown on. -/
def sample (m : Member F L) : Except (Error F L) (GroupedDataset F L) := do
  return (← m.requireDraw).sampleData

/-- The rows that the tree was not grown on. -/
def outOfBag (m : Member F L) : Except (Error F L) (GroupedDataset F L) := do
  return (← m.requireDraw).outOfBagData

end

variable {F L : Type} [Scalar F] [Label L]

/-- Predictions of the out-of-bag rows against their labels. -/
def outOfBagConfusion (m : Member F L) : Except (Error F L) (Confusion L) := do
  let rows ← m.outOfBag
  Confusion.tally (← m.tree.predict rows.features) rows.labels

/-- Share of the out-of-bag rows that are predicted wrongly. -/
def outOfBagError {R : Type} [Scalar R] (m : Member F L) : Except (Error F L) R := do
  return (← m.outOfBagConfusion).error

end Member

end PursuitForest
