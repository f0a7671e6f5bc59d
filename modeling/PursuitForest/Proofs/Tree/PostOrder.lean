import PursuitForest.Proofs.Tree.Folding
/-!
The calls of a fold.

A fold calls one function at every response and another one at every condition, and both may use a state.
By recursion, a condition is folded by its lower subtree, then by its upper subtree, each going on from the
state that was left to it, and last by the call of its own (`Node.Folds`). The fold by pending visits makes
one round after the other (`Node.Round`). It comes to the same value and leaves the same state
(`Node.Folds.rounds`, `Node.Rounds.runVisits_eq`), and what it calls for are the nodes in post-order
(`Node.Folds.recorded`).
-/

namespace PursuitForest
namespace Node

variable {F L α σ : Type} [Label L]

/-- All nodes, the lower child before the upper one and a condition after its children. -/
def postOrder : Node F L → List (Node F L)
  | .response value => [.response value]
  | .condition projector threshold classes lower upper =>
    lower.postOrder ++ upper.postOrder ++ [.condition projector threshold classes lower upper]

/-! ### By recursion -/

/-- What a fold makes of a node in a state: a value, and the state that is left. -/
inductive Folds (response : L → StateM σ α) (condition : Condition F L → α → α → StateM σ α) :
    Node F L → σ → α → σ → Prop
  | response {x : L} {s t : σ} {value : α} (hcall : (response x).run s = (value, t)) :
    Folds response condition (.response x) s value t
  | condition {c : Condition F L} {s t u v : σ} {lower upper value : α}
      (hlower : Folds response condition c.lower s lower t)
      (hupper : Folds response condition c.upper t upper u)
      (hcall : (condition c lower upper).run u = (value, v)) :
    Folds response condition c.toNode s value v

variable {response : L → StateM σ α} {condition : Condition F L → α → α → StateM σ α}

theorem exists_folds (response : L → StateM σ α) (condition : Condition F L → α → α → StateM σ α)
    (node : Node F L) (s : σ) : ∃ value t, Folds response condition node s value t := by
  induction node generalizing s with
  | response x => exact ⟨_, _, .response rfl⟩
  | condition projector threshold classes lower upper ihl ihu =>
    obtain ⟨l, t, hlower⟩ := ihl s
    obtain ⟨u, t', hupper⟩ := ihu t
    exact ⟨_, _, .condition (c := ⟨projector, threshold, classes, lower, upper⟩) hlower hupper rfl⟩

/-! ### By pending visits -/

/-- Where a fold stands: the visits still to make, the values so far, the latest first, and the state. -/
structure Progress (F L α σ : Type) [Label L] where
  visits : List (Visit F L)
  values : List α
  state : σ

/-- One round: the next visit is made. The visit that leaves a condition takes the values of its children,
the upper one being the latest. -/
inductive Round (response : L → StateM σ α) (condition : Condition F L → α → α → StateM σ α) :
    Progress F L α σ → Progress F L α σ → Prop
  | enterResponse {x : L} {visits : List (Visit F L)} {values : List α} {s t : σ} {value : α}
      (hcall : (response x).run s = (value, t)) :
    Round response condition ⟨.enter (.response x) :: visits, values, s⟩ ⟨visits, value :: values, t⟩
  | enterCondition (c : Condition F L) (visits : List (Visit F L)) (values : List α) (s : σ) :
    Round response condition ⟨.enter c.toNode :: visits, values, s⟩
      ⟨.enter c.lower :: .enter c.upper :: .leave c :: visits, values, s⟩
  | leave {c : Condition F L} {visits : List (Visit F L)} {lower upper value : α} {values : List α}
      {s t : σ} (hcall : (condition c lower upper).run s = (value, t)) :
    Round response condition ⟨.leave c :: visits, upper :: lower :: values, s⟩
      ⟨visits, value :: values, t⟩

/-- A number of rounds, one after the other. -/
inductive Rounds (response : L → StateM σ α) (condition : Condition F L → α → α → StateM σ α) :
    Nat → Progress F L α σ → Progress F L α σ → Prop
  | none (p : Progress F L α σ) : Rounds response condition 0 p p
  | next {n : Nat} {p q r : Progress F L α σ} (hround : Round response condition p q)
      (hrounds : Rounds response condition n q r) : Rounds response condition (n + 1) p r

theorem Rounds.trans {m n : Nat} {p q r : Progress F L α σ} (h : Rounds response condition m p q)
    (h' : Rounds response condition n q r) : Rounds response condition (m + n) p r := by
  induction h with
  | none p => rwa [Nat.zero_add]
  | next hround hrounds ih =>
    rw [Nat.add_right_comm]
    exact .next hround (ih h')

/-- The run of the pending visits takes a round. -/
theorem Round.runVisits_eq {p q : Progress F L α σ} (h : Round response condition p q) :
    (runVisits response condition p.visits p.values).run p.state =
      (runVisits response condition q.visits q.values).run q.state := by
  cases h with
  | enterResponse hcall =>
    rw [runVisits, StateT.run_bind, hcall]
    rfl
  | enterCondition c visits values s => rw [Condition.toNode, runVisits]
  | leave hcall =>
    rw [runVisits, StateT.run_bind, hcall]
    rfl

theorem Rounds.runVisits_eq {n : Nat} {p q : Progress F L α σ} (h : Rounds response condition n p q) :
    (runVisits response condition p.visits p.values).run p.state =
      (runVisits response condition q.visits q.values).run q.state := by
  induction h with
  | none p => rfl
  | next hround hrounds ih => exact hround.runVisits_eq.trans ih

/-- The rounds that a node takes: conditions are entered and left, responses entered. -/
def roundCount : Node F L → Nat
  | .response _ => 1
  | .condition _ _ _ lower upper => lower.roundCount + upper.roundCount + 2

theorem roundCount_eq (node : Node F L) :
    node.roundCount = node.responses.length + 2 * node.conditions.length := by
  have hcount : node.roundCount + 2 = 3 * node.responses.length := by
    induction node with
    | response x => rfl
    | condition projector threshold classes lower upper ihl ihu =>
      rw [roundCount, responses, List.length_append]
      omega
  have hconditions := node.length_conditions
  omega

/-- Whatever is still to visit and whatever the values so far, a node leaves its value on top of them. -/
theorem Folds.rounds {node : Node F L} {s t : σ} {value : α} (h : Folds response condition node s value t)
    (visits : List (Visit F L)) (values : List α) :
    Rounds response condition node.roundCount ⟨.enter node :: visits, values, s⟩
      ⟨visits, value :: values, t⟩ := by
  induction h generalizing visits values with
  | response hcall => exact .next (.enterResponse hcall) (.none _)
  | @condition c s t u v lower upper value hlower hupper hcall ihl ihu =>
    -- the condition waits below its children while they are visited
    have hchildren := (ihl (.enter c.upper :: .leave c :: visits) values).trans
      (ihu (.leave c :: visits) (lower :: values))
    exact .next (.enterCondition c visits values s)
      (hchildren.trans (.next (.leave hcall) (.none _)))

/-- The fold by pending visits ends with the value and the state of the recursion. -/
theorem Folds.foldStack_eq {node : Node F L} {s t : σ} {value : α}
    (h : Folds response condition node s value t) :
    (foldStack response condition node).run s = (some value, t) := by
  rw [foldStack, StateT.run_bind, (h.rounds [] []).runVisits_eq, runVisits]
  rfl

/-! ### Calls -/

/-- A call for a node, which adds the node to a list of them. -/
def record (node : Node F L) (call : StateM σ α) : StateM (σ × List (Node F L)) α := fun p =>
  let outcome := (call.run p.1).run
  (outcome.1, outcome.2, p.2 ++ [node])

theorem run_record {node : Node F L} {call : StateM σ α} {s t : σ} {value : α}
    (h : call.run s = (value, t)) (calls : List (Node F L)) :
    (record node call).run (s, calls) = (value, t, calls ++ [node]) := by
  show ((call.run s).1, (call.run s).2, calls ++ [node]) = _
  rw [h]

/-- A fold calls for the nodes in post-order. -/
theorem Folds.recorded {node : Node F L} {s t : σ} {value : α}
    (h : Folds response condition node s value t) (calls : List (Node F L)) :
    Folds (fun x => record (.response x) (response x))
      (fun c lower upper => record c.toNode (condition c lower upper)) node (s, calls) value
      (t, calls ++ node.postOrder) := by
  induction h generalizing calls with
  | response hcall => exact .response (run_record hcall calls)
  | @condition c s t u v lower upper value hlower hupper hcall ihl ihu =>
    have hself := Folds.condition (ihl calls) (ihu _) (run_record hcall _)
    rw [List.append_assoc, List.append_assoc, ← List.append_assoc c.lower.postOrder] at hself
    exact hself

/-- A fold over a tree of two functions that use a state comes to what the recursion comes to: the functions
are called in post-order, each goes on from the state that the one before it left, and a condition is
given the value of its lower child before that of its upper one. It takes as many rounds as there are
responses and twice as many as there are conditions, and no round lacks a value. -/
theorem foldStack_postOrder (response : L → StateM σ α) (condition : Condition F L → α → α → StateM σ α)
    (node : Node F L) (s : σ) :
    ∃ value t, Folds response condition node s value t ∧
      (foldStack response condition node).run s = (some value, t) ∧
      Rounds response condition (node.responses.length + 2 * node.conditions.length)
        ⟨[.enter node], [], s⟩ ⟨[], [value], t⟩ ∧
      (foldStack (fun x => record (.response x) (response x))
        (fun c lower upper => record c.toNode (condition c lower upper)) node).run (s, []) =
          (some value, t, node.postOrder) := by
  obtain ⟨value, t, h⟩ := exists_folds response condition node s
  exact ⟨value, t, h, h.foldStack_eq, node.roundCount_eq ▸ h.rounds [] [], (h.recorded []).foldStack_eq⟩

end Node
end PursuitForest
