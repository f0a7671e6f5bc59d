import PursuitForest.Count
import PursuitForest.Tree.Node
/-!
When two trees count as equal.

Matching conditions must project in the same direction, whatever the lengths of the projectors, and
have thresholds that differ by no more than the tolerance; matching responses must have the same
class. The pairs still to compare are kept in a list.
-/

namespace PursuitForest

variable {F L : Type} [Scalar F] [Label L]

/-- Whether two vectors point in the same direction: the cosine between them is one up to the
tolerance. A zero vector is only collinear with a zero vector. -/
def collinear (a b : List F) : Bool :=
  if a.length ≠ b.length then false
  else
    let aa := Scalar.dot a a
    let bb := Scalar.dot b b
    let norms := Scalar.sqrt (aa * bb)
    if norms == 0 then aa == bb
    else decide (1 - Scalar.tolerance ≤ Scalar.dot a b / norms)

/-- Whether two thresholds differ by no more than the tolerance. -/
def closeThresholds (s t : F) : Bool := !decide (Scalar.tolerance < Scalar.abs (s - t))

namespace Node

/-- Whether the nodes of every pair are similar. -/
def allSimilar : List (Node F L × Node F L) → Bool
  | [] => true
  | (.response a, .response b) :: pairs => decide (a = b) && allSimilar pairs
  | (.condition p s _ l u, .condition q t _ l' u') :: pairs =>
    collinear p q && closeThresholds s t && allSimilar ((u, u') :: (l, l') :: pairs)
  | _ :: _ => false
termination_by pairs => totalCount (pairs.map (·.1.nodeCount))
decreasing_by
  all_goals simp only [List.map_cons, totalCount_cons, nodeCount]; omega

/-- Whether two trees count as equal. -/
def similar (a b : Node F L) : Bool := allSimilar [(a, b)]

end Node

end PursuitForest
