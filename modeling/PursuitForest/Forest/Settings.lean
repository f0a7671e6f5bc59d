import PursuitForest.Tree.Settings
/-!
Settings of a forest.
-/

namespace PursuitForest

/-- How a forest is grown. -/
structure ForestSettings (F : Type) where
  /-- Number of trees. -/
  size : Nat
  seed : UInt64
  /-- Number of threads to train trees on, if not on the shared ones. -/
  threads : Option Nat
  /-- How often a tree may draw another sample when its sample admits no split. -/
  retries : Nat
  /-- Settings of every tree; their seed is not used. -/
  tree : TreeSettings F
deriving DecidableEq

namespace ForestSettings

/-- The settings with trees of other settings. -/
def withTree {F : Type} (s : ForestSettings F) (tree : TreeSettings F) : ForestSettings F :=
  { s with tree }

variable {F L : Type} [Scalar F]

/-- `size` trees of default settings, seed zero, shared threads and three retries. -/
def ofSize (size : Nat) : ForestSettings F := ⟨size, 0, none, 3, .default⟩

/-- At least one tree, at least one thread, and valid settings of the trees. -/
def Valid (s : ForestSettings F) : Prop := s.size ≠ 0 ∧ s.threads ≠ some 0 ∧ s.tree.Valid

instance (s : ForestSettings F) : Decidable s.Valid := inferInstanceAs (Decidable (_ ∧ _))

/-- Valid settings. -/
abbrev Checked (F : Type) [Scalar F] := { s : ForestSettings F // s.Valid }

/-- The settings if they are valid: the trees are counted first, then the threads, and the settings
of the trees come last. -/
def check (s : ForestSettings F) : Except (Error F L) (Checked F) :=
  if hs : s.size = 0 then .error (.parameter .emptyForest)
  else if ht : s.threads = some 0 then .error (.parameter .emptyThreadPool)
  else match s.tree.check with
    | .error e => .error e
    | .ok tree => .ok ⟨s.withTree tree.val, hs, ht, tree.property⟩

end ForestSettings

end PursuitForest
