import Mathlib.Data.List.Flatten
import Mathlib.Data.List.Forall2
import PursuitForest.Proofs.Tree.Descent
import PursuitForest.Proofs.Tree.Folding
/-!
The levels of a tree.

While a level is visited, the queue holds what is left of it and, behind that, the children of the nodes
already visited (`Node.runQueue_append`). So the levels come one after the other (`Node.levelOrder_eq`).
A node is told by the way that leads to it: the ways to the nodes in level order are all the ways there are,
each of them once, a shorter one before a longer one and, of two that are equally long, the one first that
turns lower where they part (`Node.exists_visits`).
-/

namespace PursuitForest

/-- A way comes before another if it is shorter, or as long and turns lower where they part. -/
def Side.Precedes (p q : List Side) : Prop :=
  p.length < q.length ∨ p.length = q.length ∧
    ∃ common p' q', p = common ++ .lower :: p' ∧ q = common ++ .upper :: q'

theorem Side.Precedes.ne {p q : List Side} (h : Side.Precedes p q) : p ≠ q := by
  rintro rfl
  rcases h with h | ⟨-, common, p', q', hp, hq⟩
  · exact Nat.lt_irrefl _ h
  · rw [hp, List.append_cancel_left_eq, List.cons.injEq] at hq
    cases hq.1

theorem Side.Precedes.cons {p q : List Side} (s : Side) (h : Side.Precedes p q) :
    Side.Precedes (s :: p) (s :: q) := by
  rcases h with h | ⟨h, common, p', q', rfl, rfl⟩
  · exact .inl (Nat.succ_lt_succ h)
  · exact .inr ⟨congrArg (· + 1) h, s :: common, p', q', rfl, rfl⟩

namespace Node

variable {F L : Type} [Label L]

/-! ### The queue -/

/-- The nodes some steps below a node, from lower to upper. -/
def level : Nat → Node F L → List (Node F L)
  | 0, node => [node]
  | d + 1, node => node.children.flatMap (level d)

/-- A queue is left by its first nodes, and then the rest and their children are in it. -/
theorem runQueue_append : ∀ (xs ys : List (Node F L)),
    runQueue (xs ++ ys) = xs ++ runQueue (ys ++ xs.flatMap children)
  | [], ys => by simp
  | .response value :: xs, ys => by
      rw [List.cons_append, runQueue, runQueue_append xs ys]
      rfl
  | .condition projector threshold classes lower upper :: xs, ys => by
      rw [List.cons_append, runQueue, List.append_assoc, runQueue_append xs (ys ++ [lower, upper]),
        List.append_assoc]
      rfl

theorem depth_lt_of_mem_children {node child : Node F L} (h : child ∈ node.children) :
    child.depth < node.depth := by
  cases node with
  | response value => cases h
  | condition projector threshold classes lower upper =>
    rw [children, List.mem_pair] at h
    rw [depth]
    rcases h with rfl | rfl
    · omega
    · omega

/-- A queue of nodes less than `n` deep is left by `n` levels, one after the other. -/
theorem runQueue_eq : ∀ {n : Nat} {queue : List (Node F L)}, (∀ t ∈ queue, t.depth < n) →
    runQueue queue = (List.range n).flatMap fun d => queue.flatMap (level d)
  | 0, [], _ => by rw [runQueue]; rfl
  | 0, t :: queue, h => absurd (h t List.mem_cons_self) (Nat.not_lt_zero _)
  | n + 1, queue, h => by
      have hchildren : ∀ t ∈ queue.flatMap children, t.depth < n := fun t ht => by
        obtain ⟨u, hu, ht⟩ := List.mem_flatMap.1 ht
        exact Nat.lt_of_lt_of_le (depth_lt_of_mem_children ht) (Nat.lt_succ_iff.1 (h u hu))
      have hfirst : queue.flatMap (level 0) = queue := by
        show queue.flatMap (fun t => [t]) = queue
        simp
      have hnext := runQueue_append queue []
      rw [List.append_nil, List.nil_append, runQueue_eq hchildren] at hnext
      rw [hnext, List.range_succ_eq_map, List.flatMap_cons, hfirst, List.flatMap_map]
      simp only [List.flatMap_assoc, level]

/-- Level order is one level after the other. -/
theorem levelOrder_eq (node : Node F L) :
    node.levelOrder = (List.range (node.depth + 1)).flatMap fun d => node.level d := by
  rw [levelOrder, runQueue_eq (n := node.depth + 1) (by simp)]
  simp

/-! ### The ways to the nodes -/

/-- The ways of some steps down, from lower to upper. -/
def waysDown : Nat → Node F L → List (List Side)
  | 0, _ => [[]]
  | _ + 1, .response _ => []
  | d + 1, .condition _ _ _ lower upper =>
    (lower.waysDown d).map (.lower :: ·) ++ (upper.waysDown d).map (.upper :: ·)

theorem length_of_mem_waysDown : ∀ {d : Nat} {node : Node F L} {sides : List Side},
    sides ∈ node.waysDown d → sides.length = d
  | 0, node, sides, h => by
      rw [waysDown, List.mem_singleton] at h
      rw [h]
      rfl
  | d + 1, .response value, sides, h => by
      rw [waysDown] at h
      cases h
  | d + 1, .condition projector threshold classes lower upper, sides, h => by
      rw [waysDown, List.mem_append, List.mem_map, List.mem_map] at h
      rcases h with ⟨rest, hrest, rfl⟩ | ⟨rest, hrest, rfl⟩
      · rw [List.length_cons, length_of_mem_waysDown hrest]
      · rw [List.length_cons, length_of_mem_waysDown hrest]

/-- The ways down lead to the nodes of the level, in the same order. -/
theorem forall₂_follow_waysDown : ∀ (d : Nat) (node : Node F L),
    List.Forall₂ (fun sides t => node.follow sides = some t) (node.waysDown d) (node.level d)
  | 0, node => by
      rw [waysDown, level]
      exact .cons (by rw [follow]) .nil
  | d + 1, .response value => by
      rw [waysDown]
      exact .nil
  | d + 1, .condition projector threshold classes lower upper => by
      have hlevel : level (d + 1) (.condition projector threshold classes lower upper) =
          lower.level d ++ upper.level d := by
        rw [level, children]
        simp
      rw [waysDown, hlevel]
      refine List.rel_append ?_ ?_
      · exact List.forall₂_map_left_iff.2 (forall₂_follow_waysDown d lower)
      · exact List.forall₂_map_left_iff.2 (forall₂_follow_waysDown d upper)

theorem mem_waysDown_iff {node : Node F L} {sides : List Side} :
    sides ∈ node.waysDown sides.length ↔ ∃ t, node.follow sides = some t := by
  induction sides generalizing node with
  | nil => simp [waysDown, follow]
  | cons s sides ih =>
    cases node with
    | response value => simp [waysDown, follow]
    | condition projector threshold classes lower upper =>
      rw [follow, ← ih]
      cases s <;> simp [waysDown, Side.pick]

theorem length_le_depth_of_follow {node t : Node F L} {sides : List Side}
    (h : node.follow sides = some t) : sides.length ≤ node.depth := by
  induction sides generalizing node with
  | nil => exact Nat.zero_le _
  | cons s sides ih =>
    cases node with
    | response value => cases h
    | condition projector threshold classes lower upper =>
      have hle := ih h
      rw [List.length_cons, depth]
      cases s with
      | lower => exact Nat.succ_le_succ (Nat.le_trans hle (Nat.le_max_left _ _))
      | upper => exact Nat.succ_le_succ (Nat.le_trans hle (Nat.le_max_right _ _))

theorem pairwise_waysDown : ∀ (d : Nat) (node : Node F L),
    (node.waysDown d).Pairwise Side.Precedes
  | 0, node => by
      rw [waysDown]
      exact List.pairwise_singleton _ _
  | d + 1, .response value => by
      rw [waysDown]
      exact List.Pairwise.nil
  | d + 1, .condition projector threshold classes lower upper => by
      have hchild : ∀ (s : Side) (t : Node F L), ((t.waysDown d).map (s :: ·)).Pairwise Side.Precedes :=
        fun s t => List.pairwise_map.2 ((pairwise_waysDown d t).imp (.cons s))
      rw [waysDown]
      refine List.pairwise_append.2 ⟨hchild .lower lower, hchild .upper upper, ?_⟩
      intro p hp q hq
      obtain ⟨p', hp', rfl⟩ := List.mem_map.1 hp
      obtain ⟨q', hq', rfl⟩ := List.mem_map.1 hq
      refine .inr ⟨?_, [], p', q', rfl, rfl⟩
      rw [List.length_cons, List.length_cons, length_of_mem_waysDown hp', length_of_mem_waysDown hq']

/-! ### Level order -/

/-- A list of nodes is what a list of ways leads to: all the ways that lead to a node, each once, from
shorter to longer ones and from lower to upper. -/
structure Visits (node : Node F L) (ways : List (List Side)) (nodes : List (Node F L)) : Prop where
  leads : List.Forall₂ (fun sides t => node.follow sides = some t) ways nodes
  complete : ∀ sides, sides ∈ ways ↔ ∃ t, node.follow sides = some t
  ordered : ways.Pairwise Side.Precedes
  nodup : ways.Nodup

/-- Level order visits every node once, level after level and from lower to upper. -/
theorem exists_visits (node : Node F L) : ∃ ways, node.Visits ways node.levelOrder := by
  have hordered : ((List.range (node.depth + 1)).flatMap fun d => node.waysDown d).Pairwise
      Side.Precedes := by
    refine List.pairwise_flatMap.2 ⟨fun d _ => pairwise_waysDown d node, ?_⟩
    refine List.pairwise_lt_range.imp fun hlt p hp q hq => .inl ?_
    rwa [length_of_mem_waysDown hp, length_of_mem_waysDown hq]
  refine ⟨(List.range (node.depth + 1)).flatMap fun d => node.waysDown d, ?_, fun sides => ?_, hordered,
    hordered.imp Side.Precedes.ne⟩
  · rw [levelOrder_eq]
    induction List.range (node.depth + 1) with
    | nil => exact .nil
    | cons d ds ih => exact List.rel_append (forall₂_follow_waysDown d node) ih
  · rw [← mem_waysDown_iff, List.mem_flatMap]
    constructor
    · rintro ⟨d, -, h⟩
      rwa [length_of_mem_waysDown h]
    · intro h
      obtain ⟨t, ht⟩ := mem_waysDown_iff.1 h
      exact ⟨_, List.mem_range.2 (Nat.lt_succ_of_le (length_le_depth_of_follow ht)), h⟩

end Node

/-! ### Counts -/

/-- Conditions and responses, counted from the leaves up. -/
theorem Node.foldM_counts {F L : Type} [Label L] (node : Node F L) :
    node.foldM (m := Id) (fun _ => (0, 1)) (fun _ lower upper =>
      (lower.1 + upper.1 + 1, lower.2 + upper.2)) =
        (node.conditions.length, node.responses.length) := by
  induction node with
  | response value =>
    rw [conditions_response]
    rfl
  | condition projector threshold classes lower upper ihl ihu =>
    have hself := (condition projector threshold classes lower upper).length_conditions
    have hlower := lower.length_conditions
    have hupper := upper.length_conditions
    rw [responses, List.length_append] at hself ⊢
    rw [foldM, ihl, ihu]
    show (_, _) = _
    rw [Prod.mk.injEq]
    exact ⟨by omega, rfl⟩

namespace Tree

variable {F L : Type} [Label L]

theorem conditionCount_eq (t : Tree F L) : t.conditionCount = t.root.conditions.length := by
  rw [conditionCount, Node.conditions, List.length_filterMap_eq_countP, ← List.countP_eq_length_filter]
  refine List.countP_congr fun node _ => ?_
  cases node <;> rfl

theorem responseCount_eq (t : Tree F L) : t.responseCount = t.root.responses.length := by
  rw [responseCount, ← List.countP_eq_length_filter, t.root.levelOrder_perm.countP_eq]
  induction t.root with
  | response value => rfl
  | condition projector threshold classes lower upper ihl ihu =>
    rw [Node.subtrees, List.countP_cons_of_neg Bool.false_ne_true, List.countP_append, ihl, ihu,
      Node.responses, List.length_append]

theorem responseCount_eq_succ (t : Tree F L) : t.responseCount = t.conditionCount + 1 := by
  rw [t.responseCount_eq, t.conditionCount_eq, t.root.length_conditions]

/-- The counts in level order are those of a fold. -/
theorem foldStack_counts (t : Tree F L) :
    Node.foldStack (m := Id) (fun _ => (0, 1)) (fun _ lower upper =>
      (lower.1 + upper.1 + 1, lower.2 + upper.2)) t.root = some (t.conditionCount, t.responseCount) := by
  rw [Node.foldStack_eq, Node.foldM_counts, t.conditionCount_eq, t.responseCount_eq]
  rfl

end Tree

end PursuitForest
