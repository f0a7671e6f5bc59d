import PursuitForest.Archive.Codec
import PursuitForest.Forest.Model
/-!
Trees and forests as texts.

Only the decisions are written: a condition with its projector, threshold and two children, a
response with its class. A node is read as a condition if all four parts of one can be read, and
as a response otherwise. Restored models have default settings and no observations, and all
projectors of a tree must be of one width.
-/

namespace PursuitForest

variable {F L : Type} [ScalarCodec F] [LabelCodec L] [Label L]

namespace Node

/-! ### Nodes -/

omit [ScalarCodec F] in
/-- A response as a structured value. -/
def responseToJson (value : L) : Json := .object [("value", LabelCodec.toJson value)]

omit [LabelCodec L] in
/-- A condition as a structured value, over its children as such. -/
def conditionToJson (c : Condition F L) (lower upper : Json) : Json :=
  .object [("projector", .array (c.projector.map ScalarCodec.toJson)),
    ("threshold", ScalarCodec.toJson c.threshold), ("lower", lower), ("upper", upper)]

/-- A node as a structured value. -/
def toJson (node : Node F L) : Json :=
  (foldStack (m := Id) responseToJson conditionToJson node).getD .null

/-- The scalars of an array. -/
def scalars? : Json → Option (List F)
  | .array items => items.mapM ScalarCodec.ofJson
  | _ => none

/-- A field, with the node that its value can be read as. -/
structure ReadField (F L : Type) [Label L] where
  name : String
  value : Json
  node : Option (Node F L)

omit [ScalarCodec F] [LabelCodec L] in
/-- The field of a name that occurs once. -/
def readField? (fields : List (ReadField F L)) (name : String) : Option (ReadField F L) :=
  match fields.filter (·.name = name) with
  | [field] => some field
  | _ => none

omit [LabelCodec L] in
/-- Reads a condition off its fields. -/
def conditionOfFields (fields : List (ReadField F L)) : Option (Node F L) := do
  let projector ← scalars? (← readField? fields "projector").value
  let threshold ← ScalarCodec.ofJson (← readField? fields "threshold").value
  let lower ← (← readField? fields "lower").node
  let upper ← (← readField? fields "upper").node
  return .join projector threshold lower upper

omit [ScalarCodec F] in
/-- Reads a response off its fields. -/
def responseOfFields (fields : List (ReadField F L)) : Option (Node F L) := do
  return .response (← LabelCodec.ofJson (← readField? fields "value").value)

mutual

/-- Reads a node. -/
def ofJson : Json → Option (Node F L)
  | .object fields =>
    let fields := readFields fields
    (conditionOfFields fields).orElse fun _ => responseOfFields fields
  | _ => none

/-- Every field with the node that its value can be read as. -/
def readFields : List (String × Json) → List (ReadField F L)
  | [] => []
  | (name, value) :: fields => ⟨name, value, ofJson value⟩ :: readFields fields

end

end Node

/-- Most containers around any part of a model, the part itself counted. -/
def Json.maxNesting : Nat := 127

mutual

/-- Whether a value has only finite numbers and whole characters, and no more than `room` containers
in one another. -/
def Json.sound (room : Nat) : Json → Bool
  | .number n => n.double?.isSome
  | .broken => false
  | .array items =>
    match room with
    | 0 => false
    | room + 1 => soundItems room items
  | .object fields =>
    match room with
    | 0 => false
    | room + 1 => soundFields room fields
  | _ => true

/-- Whether all items are sound. -/
def Json.soundItems (room : Nat) : List Json → Bool
  | [] => true
  | v :: vs => v.sound room && soundItems room vs

/-- Whether the values of all fields are sound. -/
def Json.soundFields (room : Nat) : List (String × Json) → Bool
  | [] => true
  | (_, v) :: fs => v.sound room && soundFields room fs

end

namespace Tree

/-! ### Trees -/

/-- A tree as a structured value. -/
def toJson (t : Tree F L) : Json := .object [("root", t.root.toJson)]

/-- Reads the root of a tree inside `depth` containers. The root must be sound all over, also in
fields that are ignored; what stands beside it need not be. -/
def rootOfJson (depth : Nat) (v : Json) : Option (Node F L) := do
  match ← v.record? ["root"] with
  | [root] => if root.sound (Json.maxNesting - (depth + 1)) then Node.ofJson root else none
  | _ => none

omit [ScalarCodec F] [LabelCodec L] in
/-- The width of the projectors of some conditions, against that of the first. -/
def commonWidth (first : Option Nat) : List (Node.Condition F L) → Except (Error F L) Nat
  | [] => .ok (first.getD 0)
  | c :: cs =>
    match first with
    | none => commonWidth (some c.projector.length) cs
    | some width =>
      if c.projector.length = width then commonWidth first cs
      else .error (.shapeMismatch .projectorWidth width c.projector.length)

omit [ScalarCodec F] [LabelCodec L] in
/-- The tree of a restored root. -/
def restore [Scalar F] (root : Node F L) : Except (Error F L) (Tree F L) := do
  return ⟨root, .default, ← commonWidth none root.conditions, none⟩

/-- The written form of a tree. -/
def toText (t : Tree F L) : String := t.toJson.print

/-- Restores a tree. -/
def ofText [Scalar F] (s : String) : Except (Error F L) (Tree F L) :=
  Json.readAs (rootOfJson 0) s >>= restore

end Tree

namespace Forest

/-! ### Forests -/

/-- A forest as a structured value. -/
def toJson (f : Forest F L) : Json :=
  .object [("trees", .array (f.members.map fun m => m.tree.toJson))]

/-- Reads the roots of the trees of a forest. -/
def rootsOfJson (v : Json) : Option (List (Node F L)) := do
  match ← v.record? ["trees"] with
  | [.array trees] => trees.mapM (Tree.rootOfJson 2)
  | _ => none

/-- The written form of a forest. -/
def toText (f : Forest F L) : String := f.toJson.print

/-- Restores a forest, which must have trees. -/
def ofText [Scalar F] (s : String) : Except (Error F L) (Forest F L) := do
  let roots ← Json.readAs rootsOfJson s
  let settings ← (ForestSettings.ofSize roots.length).check
  let trees ← roots.mapM Tree.restore
  return ⟨trees.map fun t => ⟨t, none⟩, settings.val, none⟩

end Forest

end PursuitForest
