import PursuitForest.Count
import PursuitForest.Tree.Node
/-!
Orders in which the nodes of a tree are visited.

`foldStack` visits children before their condition, without recursion on the tree: pending visits
and finished values are kept in two lists. `foldM` is the same order by recursion. `levelOrder`
visits the tree by distance from the root, with the nodes still to visit in a queue.
-/

namespace PursuitForest
namespace Node

variable {F L : Type} [Label L]

/-- What a fold does at a condition: its parts, and the values of its children. -/
structure Condition (F L : Type) [Label L] where
  projector : List F
  threshold : F
  classes : LabelSet L
  lower : Node F L
  upper : Node F L

/-- A condition as a node. -/
def Condition.toNode (c : Condition F L) : Node F L :=
  .condition c.projector c.threshold c.classes c.lower c.upper

/-- A node that is a condition. -/
def asCondition : Node F L → Option (Condition F L)
  | .response _ => none
  | .condition projector threshold classes lower upper =>
    some ⟨projector, threshold, classes, lower, upper⟩

/-! ### Children first -/

/-- Values of the children combined at every condition, the lower child first. -/
def foldM {m : Type → Type} [Monad m] {α : Type} (response : L → m α)
    (condition : Condition F L → α → α → m α) : Node F L → m α
  | .response value => response value
  | .condition projector threshold classes lower upper => do
    let l ← lower.foldM response condition
    let u ← upper.foldM response condition
    condition ⟨projector, threshold, classes, lower, upper⟩ l u

/-- A visit still to make: a whole subtree, or a condition whose children are done. -/
inductive Visit (F L : Type) [Label L] where
  | enter (node : Node F L)
  | leave (condition : Condition F L)

/-- Visits that a pending visit leads to: a condition is entered and left, a response entered. -/
def Visit.weight : Visit F L → Nat
  | .enter node => 2 * node.nodeCount
  | .leave _ => 1

/-- Makes the pending visits and answers with the values left over, the latest first. A condition
takes the two latest values; there is no answer when they are missing. -/
def runVisits {m : Type → Type} [Monad m] {α : Type} (response : L → m α)
    (condition : Condition F L → α → α → m α) : List (Visit F L) → List α → m (Option (List α))
  | [], values => pure (some values)
  | .enter (.response value) :: visits, values => do
    runVisits response condition visits ((← response value) :: values)
  | .enter (.condition projector threshold classes lower upper) :: visits, values =>
    runVisits response condition
      (.enter lower :: .enter upper :: .leave ⟨projector, threshold, classes, lower, upper⟩ ::
        visits) values
  | .leave c :: visits, values =>
    match values with
    | upper :: lower :: rest => do
      runVisits response condition visits ((← condition c lower upper) :: rest)
    | _ => pure none
termination_by visits _ => totalCount (visits.map Visit.weight)
decreasing_by
  all_goals simp only [List.map_cons, totalCount_cons, Visit.weight, nodeCount]; omega

/-- The fold by pending visits: one value is left, that of the root. -/
def foldStack {m : Type → Type} [Monad m] {α : Type} (response : L → m α)
    (condition : Condition F L → α → α → m α) (node : Node F L) : m (Option α) := do
  match ← runVisits response condition [.enter node] [] with
  | some [value] => return some value
  | _ => return none

/-! ### Level by level -/

/-- Nodes from the front of the queue, their children joining at the back. -/
def runQueue : List (Node F L) → List (Node F L)
  | [] => []
  | .response value :: queue => .response value :: runQueue queue
  | .condition projector threshold classes lower upper :: queue =>
    .condition projector threshold classes lower upper :: runQueue (queue ++ [lower, upper])
termination_by queue => totalCount (queue.map nodeCount)
decreasing_by
  all_goals
    simp only [List.map_cons, totalCount_cons, List.map_append, totalCount_append, List.map_nil,
      totalCount_nil, nodeCount]
    omega

/-- All nodes by distance from the root, and from lower to upper at the same distance. -/
def levelOrder (node : Node F L) : List (Node F L) := runQueue [node]

/-- The conditions in level order. -/
def conditions (node : Node F L) : List (Condition F L) := node.levelOrder.filterMap asCondition

end Node

end PursuitForest
