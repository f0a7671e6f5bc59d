import PursuitForest.Pursuit.Columns
/-!
Settings of a tree.

Settings are free to hold anything until they are checked. `TreeSettings.Valid` says which values
make sense for some data; whether they suit given data is known at training (`checkWidth`).
-/

namespace PursuitForest

/-- How a tree is grown. -/
structure TreeSettings (F : Type) where
  /-- Weight of the diagonal of the scatter within classes. -/
  lambda : F
  columns : ColumnPolicy
  /-- Seed of the column choices of a tree that stands alone. -/
  seed : UInt64
deriving DecidableEq

namespace TreeSettings

/-- The same settings with another seed. -/
def withSeed {F : Type} (s : TreeSettings F) (seed : UInt64) : TreeSettings F := { s with seed }

variable {F L : Type} [Scalar F]

/-- Full scatter, all columns, seed zero. -/
def default : TreeSettings F := ⟨0, .all, 0⟩

/-- Same weight, columns and seed, where weights are compared as numbers. -/
def same (s t : TreeSettings F) : Bool :=
  s.lambda == t.lambda && s.columns == t.columns && s.seed == t.seed

/-- A weight from zero to one, and at least one column per split. -/
def Valid (s : TreeSettings F) : Prop := (0 ≤ s.lambda ∧ s.lambda ≤ 1) ∧ s.columns ≠ .random 0

instance (s : TreeSettings F) : Decidable s.Valid := inferInstanceAs (Decidable (_ ∧ _))

/-- Valid settings. -/
abbrev Checked (F : Type) [Scalar F] := { s : TreeSettings F // s.Valid }

/-- The settings if they are valid; the weight is looked at first. -/
def check (s : TreeSettings F) : Except (Error F L) (Checked F) :=
  if hl : 0 ≤ s.lambda ∧ s.lambda ≤ 1 then
    if hc : s.columns ≠ .random 0 then .ok ⟨s, hl, hc⟩ else .error (.parameter .emptyChoice)
  else .error (.parameter (.lambdaOutOfRange s.lambda))

omit [Scalar F] in
/-- The settings suit data of the given width. -/
def checkWidth (s : TreeSettings F) (width : Nat) : Except (Error F L) Unit :=
  match s.columns with
  | .random n => if width < n then .error (.parameter (.splitTooWide n width)) else .ok ()
  | .all => .ok ()

end TreeSettings

end PursuitForest
