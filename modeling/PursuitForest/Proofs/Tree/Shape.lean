import PursuitForest.Proofs.Exact
import PursuitForest.Proofs.Tree.Recursion
import PursuitForest.Random.Xoshiro
import PursuitForest.Tree.Traversal
/-!
The shape of a grown tree.

A node spans a set of classes when every class of the set is answered by one response below it, and
every condition below it names the classes below it and has some of them on either side
(`Node.Spans`). A grown tree spans the classes of its data (`Grows.spans`); how many responses and
conditions it has and how deep it can be follows from that.
-/

namespace PursuitForest
namespace Node

variable {F L : Type} [Label L]

/-! ### Subtrees -/

/-- All nodes, a condition before its children and the lower child before the upper one. -/
def subtrees : Node F L → List (Node F L)
  | .response value => [.response value]
  | .condition projector threshold classes lower upper =>
    .condition projector threshold classes lower upper :: (lower.subtrees ++ upper.subtrees)

theorem self_mem_subtrees : ∀ node : Node F L, node ∈ node.subtrees
  | .response _ => List.mem_singleton_self _
  | .condition .. => List.mem_cons_self

theorem Condition.lower_mem_subtrees (c : Condition F L) : c.lower ∈ c.toNode.subtrees :=
  List.mem_cons_of_mem _ (List.mem_append_left _ c.lower.self_mem_subtrees)

theorem Condition.upper_mem_subtrees (c : Condition F L) : c.upper ∈ c.toNode.subtrees :=
  List.mem_cons_of_mem _ (List.mem_append_right _ c.upper.self_mem_subtrees)

/-- What is below a node below is below. -/
theorem mem_subtrees_trans {t u : Node F L} (hu : u ∈ t.subtrees) :
    ∀ {node : Node F L}, t ∈ node.subtrees → u ∈ node.subtrees
  | .response value, ht => by
      rw [subtrees, List.mem_singleton] at ht
      rwa [ht] at hu
  | .condition projector threshold classes lower upper, ht => by
      rw [subtrees, List.mem_cons, List.mem_append] at ht
      rcases ht with rfl | ht | ht
      · exact hu
      · exact List.mem_cons_of_mem _ (List.mem_append_left _ (mem_subtrees_trans hu ht))
      · exact List.mem_cons_of_mem _ (List.mem_append_right _ (mem_subtrees_trans hu ht))

/-- A queue is left by the nodes below it, in another order. -/
theorem runQueue_perm (queue : List (Node F L)) :
    (runQueue queue).Perm (queue.flatMap subtrees) := by
  fun_induction runQueue queue with
  | case1 => exact List.Perm.refl _
  | case2 value queue ih => exact ih.cons _
  | case3 projector threshold classes lower upper queue ih =>
    refine List.Perm.cons _ (ih.trans ?_)
    rw [List.flatMap_append]
    simp only [List.flatMap_cons, List.flatMap_nil, List.append_nil]
    exact List.perm_append_comm

/-- Level by level, every node is visited once. -/
theorem levelOrder_perm (node : Node F L) : node.levelOrder.Perm node.subtrees := by
  have h := runQueue_perm [node]
  rwa [List.flatMap_cons, List.flatMap_nil, List.append_nil] at h

theorem asCondition_eq_some_iff {node : Node F L} {c : Condition F L} :
    node.asCondition = some c ↔ node = c.toNode := by
  cases node with
  | response value =>
    constructor <;> intro h <;> cases h
  | condition projector threshold classes lower upper =>
    constructor
    · intro h; cases h; rfl
    · intro h; cases h; rfl

theorem mem_conditions {node : Node F L} {c : Condition F L} :
    c ∈ node.conditions ↔ c.toNode ∈ node.subtrees := by
  rw [conditions, List.mem_filterMap]
  constructor
  · rintro ⟨t, ht, hc⟩
    rw [asCondition_eq_some_iff] at hc
    subst hc
    exact node.levelOrder_perm.mem_iff.1 ht
  · intro h
    exact ⟨c.toNode, node.levelOrder_perm.mem_iff.2 h, asCondition_eq_some_iff.2 rfl⟩

theorem conditions_response (value : L) : (response value : Node F L).conditions = [] :=
  List.eq_nil_iff_forall_not_mem.2 fun c hc => by
    rw [mem_conditions, subtrees, List.mem_singleton] at hc
    cases hc

/-- Something holds of all conditions of a node over two others if it holds of the first one and of those
below. -/
theorem forall_conditions_condition {projector : List F} {threshold : F} {classes : LabelSet L}
    {lower upper : Node F L} {p : Condition F L → Prop} :
    (∀ c ∈ (condition projector threshold classes lower upper).conditions, p c) ↔
      p ⟨projector, threshold, classes, lower, upper⟩ ∧
        (∀ c ∈ lower.conditions, p c) ∧ ∀ c ∈ upper.conditions, p c := by
  simp only [mem_conditions, subtrees, List.mem_cons, List.mem_append]
  constructor
  · intro h
    exact ⟨h ⟨_, _, _, _, _⟩ (.inl rfl), fun c hc => h c (.inr (.inl hc)),
      fun c hc => h c (.inr (.inr hc))⟩
  · rintro ⟨hself, hlower, hupper⟩ c (hc | hc | hc)
    · obtain rfl := Option.some.inj (asCondition_eq_some_iff.2 hc.symm)
      exact hself
    · exact hlower c hc
    · exact hupper c hc

/-- There is one condition less than responses. -/
theorem length_conditions (node : Node F L) :
    node.conditions.length + 1 = node.responses.length := by
  -- the queue has no recursion on the tree, but its order does not matter here
  have hperm := (node.levelOrder_perm.filterMap asCondition).length_eq
  rw [conditions, hperm]
  clear hperm
  induction node with
  | response value => rfl
  | condition projector threshold classes lower upper ihl ihu =>
    simp only [subtrees, responses, List.filterMap_cons, asCondition, List.filterMap_append,
      List.length_cons, List.length_append]
    omega

/-- A way down passes fewer conditions than there are responses. -/
theorem depth_lt_length_responses : ∀ node : Node F L, node.depth < node.responses.length
  | .response _ => Nat.one_pos
  | .condition _ _ _ lower upper => by
      have hl := lower.depth_lt_length_responses
      have hu := upper.depth_lt_length_responses
      simp only [depth, responses, List.length_append]
      omega

/-! ### The classes below a node -/

/-- A node that answers every class of a set once, with conditions that split the classes below
them. -/
inductive Spans : Node F L → LabelSet L → Prop
  | response (value : L) : Spans (.response value) (.singleton value)
  | condition {projector : List F} {threshold : F} {s below above : LabelSet L}
      {lower upper : Node F L} (hs : s.Splits below above) (hlower : Spans lower below)
      (hupper : Spans upper above) : Spans (.condition projector threshold s lower upper) s

namespace Spans

variable {node : Node F L} {s : LabelSet L}

theorem classes_eq (h : node.Spans s) : node.classes = s := by
  cases h with
  | response value => rfl
  | condition hs hlower hupper => rfl

/-- A condition over two nodes spans the classes of both. -/
theorem join {projector : List F} {threshold : F} {below above : LabelSet L} {lower upper : Node F L}
    (hs : s.Splits below above) (hlower : lower.Spans below) (hupper : upper.Spans above) :
    (Node.join projector threshold lower upper).Spans s := by
  unfold Node.join
  rw [hlower.classes_eq, hupper.classes_eq, hs.union_eq]
  exact .condition hs hlower hupper

theorem responses_perm (h : node.Spans s) : node.responses.Perm s.toList := by
  induction h with
  | response value => exact List.Perm.refl _
  | condition hs hlower hupper ihl ihu => exact (ihl.append ihu).trans hs.perm

theorem mem_responses (h : node.Spans s) {x : L} : x ∈ node.responses ↔ x ∈ s :=
  h.responses_perm.mem_iff

/-- So does every node below, of the classes that it names. -/
theorem of_mem_subtrees (h : node.Spans s) : ∀ t ∈ node.subtrees, t.Spans t.classes := by
  induction h with
  | response value =>
    intro t ht
    rw [subtrees, List.mem_singleton] at ht
    subst ht
    exact .response value
  | condition hs hlower hupper ihl ihu =>
    intro t ht
    rw [subtrees, List.mem_cons, List.mem_append] at ht
    rcases ht with rfl | ht | ht
    · exact .condition hs hlower hupper
    · exact ihl t ht
    · exact ihu t ht

/-- The classes of a condition are split by its children. -/
theorem splits {c : Condition F L} (h : node.Spans s) (hc : c ∈ node.conditions) :
    c.classes.Splits c.lower.classes c.upper.classes := by
  cases h.of_mem_subtrees _ (mem_conditions.1 hc) with
  | condition hs hlower hupper =>
    rw [hlower.classes_eq, hupper.classes_eq]
    exact hs

end Spans

/-- The shape that fits a set of classes: a response for each class, one condition less, and
conditions that name the classes below them and have some on either side. -/
structure WellShaped (root : Node F L) (s : LabelSet L) : Prop where
  count_responses : ∀ x ∈ s, root.responses.count x = 1
  responses_mem : ∀ x ∈ root.responses, x ∈ s
  length_responses : root.responses.length = s.size
  length_conditions : root.conditions.length + 1 = s.size
  depth_lt : root.depth < s.size
  classes_eq : root.classes = s
  splits : ∀ c ∈ root.conditions, c.classes.Splits c.lower.classes c.upper.classes

theorem Spans.wellShaped {root : Node F L} {s : LabelSet L} (h : root.Spans s) :
    root.WellShaped s := by
  have hperm := h.responses_perm
  have hlength : root.responses.length = s.size := hperm.length_eq
  refine ⟨fun x hx => ?_, fun x hx => hperm.mem_iff.1 hx, hlength, ?_, ?_, h.classes_eq,
    fun c hc => h.splits hc⟩
  · rw [hperm.count_eq, List.Nodup.count s.nodup]
    exact if_pos hx
  · rw [root.length_conditions, hlength]
  · rw [← hlength]
    exact root.depth_lt_length_responses

end Node

variable {F L G : Type} [Scalar F] [Eigensolver F] [Label L] [RandomSource G]
  {settings : TreeSettings F} {d : GroupedDataset F L} {g g' : G}

/-! ### Grown trees -/

/-- The two labels of a split of two classes are the classes. -/
theorem spans_toNode {division : Division F L} (hd : d.groupCount = 2)
    (h : divide settings d g = (.ok division, g')) :
    division.split.toNode.Spans d.presentClasses := by
  obtain ⟨two, hdivides⟩ := divide_eq_ok_iff.1 h
  cases hdivides with
  | direct hcount hcolumns hsplit =>
    exact .join (splits_of_splitGroups hsplit) (.response _) (.response _)
  | regrouped hcount hcolumns hregroup hsplit hlower hupper => exact absurd hd hcount

/-- A grown tree spans the classes of its data. -/
theorem Grows.spans {outcome : Except (Error F L) (Node F L)} {root : Node F L}
    (h : Grows settings d g outcome g') (ho : outcome = .ok root) :
    root.Spans d.presentClasses := by
  induction h generalizing root with
  | none | twoFails | branchFails | lowerFails | upperFails => cases ho
  | @one d g c hd =>
    cases ho
    have hs : d.presentClasses = .singleton c.label := by
      refine LabelSet.ext ?_
      show d.groups.map (·.label) = [c.label]
      rw [hd]
      rfl
    rw [hs]
    exact .response _
  | two hd hdivide =>
    cases ho
    exact spans_toNode hd hdivide
  | many hd hbranch hlower hupper ihl ihu =>
    cases ho
    exact .join (splits_of_branch hbranch) (ihl rfl) (ihu rfl)

theorem spans_of_grow {root : Node F L} (h : grow settings d g = (.ok root, g')) :
    root.Spans d.presentClasses := by
  rw [grow_eq_growRec, growRec] at h
  split at h
  · cases h
  · have hg := growNode_grows settings d g
    rw [h] at hg
    exact hg.spans rfl

/-- Growing ends, in three rounds a class at most, and a tree that is grown has the shape that fits
the classes of its data. -/
theorem grow_wellShaped (settings : TreeSettings F) (d : GroupedDataset F L) (g : G)
    (hd : d.isEmpty = false) :
    (∃ outcome, (∀ rounds, 3 * d.groupCount ≤ rounds →
        (Builder.start d g).run settings rounds = some outcome) ∧
      (settings.checkWidth (F := F) (L := L) d.width = .ok () → grow settings d g = outcome)) ∧
    ∀ root g', grow settings d g = (.ok root, g') → root.WellShaped d.presentClasses := by
  refine ⟨⟨growNode settings d g, fun rounds hr => run_start settings g hd hr, fun hwidth => ?_⟩,
    fun root g' h => (spans_of_grow h).wellShaped⟩
  have hcheck : checkGrowth settings d = .ok () := by
    rw [checkGrowth, hd]
    exact hwidth
  rw [grow_eq_growRec, growRec, hcheck]

/-- A tree is grown on three classes. -/
theorem grow_wellShaped_threeClasses : Exact.threeClasses.isEmpty = false ∧ ∃ root g',
    grow .default Exact.threeClasses (Xoshiro.ofSeed 0) = (.ok root, g') ∧
      root.WellShaped Exact.threeClasses.presentClasses := by
  have hd : Exact.threeClasses.isEmpty = false := by decide +kernel
  have hok : (grow .default Exact.threeClasses (Xoshiro.ofSeed 0)).1.isOk = true := by
    decide +kernel
  refine ⟨hd, ?_⟩
  cases h : grow .default Exact.threeClasses (Xoshiro.ofSeed 0) with
  | mk outcome g' =>
    cases outcome with
    | error e => rw [h] at hok; cases hok
    | ok root =>
      exact ⟨root, g', rfl, (grow_wellShaped .default Exact.threeClasses _ hd).2 root g' h⟩

end PursuitForest
