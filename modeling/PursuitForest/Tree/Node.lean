import PursuitForest.Error
import PursuitForest.Label
import PursuitForest.Scalar
/-!
Nodes of a projection tree.

A condition sends an observation to its lower child when the projection of its features is below a
threshold, and to its upper child otherwise; a response answers with a class. Conditions carry the
set of classes below them, which `Node.join` computes from the children.
-/

namespace PursuitForest

/-- A tree of conditions and responses. -/
inductive Node (F L : Type) [Label L] where
  | response (value : L)
  | condition (projector : List F) (threshold : F) (classes : LabelSet L) (lower upper : Node F L)

/-- The two children of a condition. -/
inductive Side where
  | lower
  | upper
deriving DecidableEq

namespace Node

variable {F L : Type} [Label L]

/-- The classes of the responses below a node. -/
def classes : Node F L → LabelSet L
  | .response value => .singleton value
  | .condition _ _ classes _ _ => classes

/-- A condition over two nodes. -/
def join (projector : List F) (threshold : F) (lower upper : Node F L) : Node F L :=
  .condition projector threshold (.union lower.classes upper.classes) lower upper

/-- Whether a node is a response. -/
def isResponse : Node F L → Bool
  | .response _ => true
  | .condition .. => false

/-- The children of a node, lower first. -/
def children : Node F L → List (Node F L)
  | .response _ => []
  | .condition _ _ _ lower upper => [lower, upper]

/-- Number of nodes. -/
def nodeCount : Node F L → Nat
  | .response _ => 1
  | .condition _ _ _ lower upper => lower.nodeCount + upper.nodeCount + 1

/-- Values of the responses, from lower to upper. -/
def responses : Node F L → List L
  | .response value => [value]
  | .condition _ _ _ lower upper => lower.responses ++ upper.responses

/-- Number of conditions on the longest way down. -/
def depth : Node F L → Nat
  | .response _ => 0
  | .condition _ _ _ lower upper => max lower.depth upper.depth + 1

variable [Scalar F]

omit [Label L] in
/-- The projection of a row, which must be as wide as the projector. -/
def project (projector row : List F) : Except (Error F L) F :=
  if row.length = projector.length then .ok (Scalar.dot row projector)
  else .error (.misuse .rowWidth)

/-- The side of a threshold a projection falls on. What does not compare falls above. -/
def side (threshold projection : F) : Side := if projection < threshold then .lower else .upper

/-- The class of the response that a row is led to. -/
def predictRow (row : List F) : Node F L → Except (Error F L) L
  | .response value => .ok value
  | .condition projector threshold _ lower upper => do
    match side threshold (← project projector row) with
    | .lower => lower.predictRow row
    | .upper => upper.predictRow row

/-- The sides that a row takes on its way down. -/
def route (row : List F) : Node F L → Except (Error F L) (List Side)
  | .response _ => .ok []
  | .condition projector threshold _ lower upper => do
    match side threshold (← project projector row) with
    | .lower => return .lower :: (← lower.route row)
    | .upper => return .upper :: (← upper.route row)

end Node

end PursuitForest
