import PursuitForest.Proofs.Tree.Shape
import PursuitForest.Tree.Model
/-!
Folding a tree.

The fold by pending visits is the fold by recursion: whatever is still to visit, a subtree leaves
exactly its value behind (`Node.runVisits_enter`). So a fold never lacks a value and has one value
left at the end, that of the root (`Node.foldStack_eq`).
-/

namespace PursuitForest
namespace Node

variable {F L α : Type} [Label L] {m : Type → Type} [Monad m]

/-- The visit of a subtree puts its value on top of the others. -/
theorem runVisits_enter [LawfulMonad m] (response : L → m α) (condition : Condition F L → α → α → m α) :
    ∀ (node : Node F L) (visits : List (Visit F L)) (values : List α),
      runVisits response condition (.enter node :: visits) values =
        node.foldM response condition >>= fun v => runVisits response condition visits (v :: values)
  | .response value, visits, values => by
      rw [runVisits, foldM]
  | .condition projector threshold classes lower upper, visits, values => by
      -- the lower subtree is visited with the upper one and the condition still to do
      rw [runVisits, runVisits_enter response condition lower, foldM]
      simp only [runVisits_enter response condition upper, runVisits, bind_assoc]

/-- The fold by pending visits ends with the value that the recursion gives. -/
theorem foldStack_eq [LawfulMonad m] (response : L → m α) (condition : Condition F L → α → α → m α)
    (node : Node F L) :
    foldStack response condition node = some <$> node.foldM response condition := by
  rw [foldStack, runVisits_enter]
  simp only [runVisits, bind_assoc, pure_bind, map_eq_pure_bind]

end Node

namespace Tree

variable {F L : Type} [Label L]

theorem depth_eq (t : Tree F L) : t.depth = t.root.depth := by
  have hdepth : ∀ node : Node F L, node.foldM (m := Id) (fun _ => 0)
      (fun _ lower upper => 1 + max lower upper) = node.depth := fun node => by
    induction node with
    | response value => rfl
    | condition projector threshold classes lower upper ihl ihu =>
      show 1 + max _ _ = max lower.depth upper.depth + 1
      rw [ihl, ihu, Nat.add_comm]
  rw [depth, Node.foldStack_eq]
  exact hdepth t.root

end Tree
end PursuitForest
