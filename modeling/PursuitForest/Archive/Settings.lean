import PursuitForest.Archive.Codec
import PursuitForest.Forest.Settings
/-!
Settings as structured values.

Settings are objects whose fields must all be there, once each; other fields are ignored. An array
of the fields in order is read as well. Reading does not check the settings.
-/

namespace PursuitForest

variable {F : Type} [ScalarCodec F]

/-! ### Column policies -/

/-- A policy as a structured value. -/
def ColumnPolicy.toJson : ColumnPolicy → Json
  | .all => .text "All"
  | .random n => .object [("Uniform", .object [("n_vars", .ofInt n)])]

/-- Reads a policy. -/
def ColumnPolicy.ofJson : Json → Option ColumnPolicy
  | .text s => if s = "All" then some .all else none
  | .object [(name, v)] =>
    if name = "All" then
      match v with
      | .null => some .all
      | _ => none
    else if name = "Uniform" then do
      match ← v.record? ["n_vars"] with
      | [n] => return .random (← n.natBelow? UInt64.size)
      | _ => none
    else none
  | _ => none

/-! ### Trees -/

/-- Settings of a tree as a structured value. The last field tells nothing. -/
def TreeSettings.toJson (s : TreeSettings F) : Json :=
  .object [("lambda", ScalarCodec.toJson s.lambda), ("dimension_reduction", s.columns.toJson),
    ("seed", .ofInt s.seed.toNat), ("label_marker", .null)]

/-- Reads settings of a tree. -/
def TreeSettings.ofJson (v : Json) : Option (TreeSettings F) := do
  match ← v.record? ["lambda", "dimension_reduction", "seed", "label_marker"] with
  | [lambda, columns, seed, .null] =>
    return ⟨← ScalarCodec.ofJson lambda, ← ColumnPolicy.ofJson columns,
      .ofNat (← seed.natBelow? UInt64.size)⟩
  | _ => none

/-! ### Forests -/

/-- Settings of a forest as a structured value. -/
def ForestSettings.toJson (s : ForestSettings F) : Json :=
  .object [("size", .ofInt s.size), ("seed", .ofInt s.seed.toNat),
    ("n_threads", match s.threads with
      | some n => .ofInt n
      | none => .null),
    ("max_retries", .ofInt s.retries), ("tree", s.tree.toJson)]

/-- Reads a number of threads, or null for none. -/
def threadsOfJson : Json → Option (Option Nat)
  | .null => some none
  | v => (v.natBelow? UInt64.size).map some

/-- Fields with the number of threads set to null if it is not there. -/
def withThreads : Json → Json
  | .object fields =>
    if fields.any (·.1 = "n_threads") then .object fields
    else .object (fields ++ [("n_threads", .null)])
  | v => v

/-- Reads settings of a forest. The number of threads may be left out. -/
def ForestSettings.ofJson (v : Json) : Option (ForestSettings F) := do
  match ← (withThreads v).record? ["size", "seed", "n_threads", "max_retries", "tree"] with
  | [size, seed, threads, retries, tree] =>
    return ⟨← size.natBelow? UInt64.size, .ofNat (← seed.natBelow? UInt64.size),
      ← threadsOfJson threads, ← retries.natBelow? UInt64.size, ← TreeSettings.ofJson tree⟩
  | _ => none

/-! ### Criteria -/

/-- A criterion as a structured value. -/
def Discriminant.toJson (p : Discriminant F) : Json :=
  .object [("lambda", ScalarCodec.toJson p.lambda)]

/-- Reads a criterion. -/
def Discriminant.ofJson (v : Json) : Option (Discriminant F) := do
  match ← v.record? ["lambda"] with
  | [lambda] => return ⟨← ScalarCodec.ofJson lambda⟩
  | _ => none

end PursuitForest
