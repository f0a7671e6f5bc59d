import PursuitForest.Proofs.Tree.Prediction
/-!
The way of a row through a tree.

A row meets a node and then what it meets below the child on its side (`Node.way`). If all projectors on the
way are as long as the row, the sides that it takes lead to a response, in no more steps than the tree is
deep, and every node on the way predicts the value of this response (`Node.exists_descends`). If one of them
is not, the row breaks off there (`Node.predictRow_eq_error_iff`).

Nodes that are put together by joining name exactly the classes of the responses below them
(`Node.Joined.mem_classes_iff`), so each of them predicts one of its own classes.
-/

namespace PursuitForest

/-- One of two things, by side. -/
def Side.pick {α : Type} (lower upper : α) : Side → α
  | .lower => lower
  | .upper => upper

namespace Node

variable {F L : Type} [Label L]

/-- The node at the end of a way down. -/
def follow : List Side → Node F L → Option (Node F L)
  | [], node => some node
  | _ :: _, .response _ => none
  | s :: sides, .condition _ _ _ lower upper => (s.pick lower upper).follow sides

/-! ### Joined nodes -/

/-- Responses, and conditions that are put together by joining. -/
inductive Joined : Node F L → Prop
  | response (value : L) : Joined (.response value)
  | join {projector : List F} {threshold : F} {lower upper : Node F L} (hlower : Joined lower)
      (hupper : Joined upper) : Joined (.join projector threshold lower upper)

namespace Joined

variable {node : Node F L}

/-- The classes of a joined node are those of its responses. -/
theorem mem_classes_iff (h : node.Joined) {label : L} : label ∈ node.classes ↔ label ∈ node.responses := by
  induction h with
  | response value => rw [classes, LabelSet.mem_singleton, responses, List.mem_singleton]
  | join hlower hupper ihl ihu =>
    rw [Node.join, classes, LabelSet.mem_union, responses, List.mem_append, ihl, ihu]

/-- Nodes below a joined node are joined. -/
theorem of_mem_subtrees (h : node.Joined) : ∀ t ∈ node.subtrees, t.Joined := by
  induction h with
  | response value =>
    intro t ht
    rw [subtrees, List.mem_singleton] at ht
    rw [ht]
    exact .response value
  | join hlower hupper ihl ihu =>
    intro t ht
    rw [Node.join, subtrees, List.mem_cons, List.mem_append] at ht
    rcases ht with rfl | ht | ht
    · exact .join hlower hupper
    · exact ihl t ht
    · exact ihu t ht

end Joined

/-! ### The way of a row -/

variable [Scalar F] {row : List F}

/-- The nodes that a row meets on its way down. -/
def way (row : List F) : Node F L → List (Node F L)
  | .response value => [.response value]
  | .condition projector threshold classes lower upper =>
    .condition projector threshold classes lower upper ::
      (side threshold (Scalar.dot row projector)).pick (lower.way row) (upper.way row)

/-- All projectors on the way of a row are as long as the row. -/
def Fits (row : List F) (node : Node F L) : Prop :=
  ∀ c ∈ (node.way row).filterMap asCondition, row.length = c.projector.length

instance (row : List F) (node : Node F L) : Decidable (node.Fits row) :=
  inferInstanceAs (Decidable (∀ c ∈ (node.way row).filterMap asCondition,
    row.length = c.projector.length))

section
variable {projector : List F} {threshold : F} {classes : LabelSet L} {lower upper : Node F L}

theorem way_condition : (condition projector threshold classes lower upper).way row =
    condition projector threshold classes lower upper ::
      ((side threshold (Scalar.dot row projector)).pick lower upper).way row := by
  rw [way]
  cases side threshold (Scalar.dot row projector) <;> rfl

theorem fits_condition_iff : (condition projector threshold classes lower upper).Fits row ↔
    row.length = projector.length ∧
      ((side threshold (Scalar.dot row projector)).pick lower upper).Fits row := by
  rw [Fits, way_condition, List.filterMap_cons, asCondition, List.forall_mem_cons]
  rfl

theorem predictRow_condition (h : row.length = projector.length) :
    (condition projector threshold classes lower upper).predictRow row =
      ((side threshold (Scalar.dot row projector)).pick lower upper).predictRow row := by
  simp only [predictRow, project, if_pos h, bind, Except.bind]
  cases side threshold (Scalar.dot row projector) <;> rfl

theorem route_condition (h : row.length = projector.length) :
    (condition projector threshold classes lower upper).route row =
      (((side threshold (Scalar.dot row projector)).pick lower upper).route row).map
        (side threshold (Scalar.dot row projector) :: ·) := by
  simp only [route, project, if_pos h, bind, Except.bind]
  cases side threshold (Scalar.dot row projector) with
  | lower =>
    show _ = (lower.route row).map _
    cases lower.route row <;> rfl
  | upper =>
    show _ = (upper.route row).map _
    cases upper.route row <;> rfl

end

theorem mem_subtrees_of_mem_way {t : Node F L} {node : Node F L} (h : t ∈ node.way row) :
    t ∈ node.subtrees := by
  induction node with
  | response value => exact h
  | condition projector threshold classes lower upper ihl ihu =>
    rw [way_condition] at h
    rcases List.mem_cons.1 h with rfl | h
    · exact List.mem_cons_self
    · refine List.mem_cons_of_mem _ (List.mem_append.2 ?_)
      cases hside : side threshold (Scalar.dot row projector) with
      | lower =>
        rw [hside] at h
        exact .inl (ihl h)
      | upper =>
        rw [hside] at h
        exact .inr (ihu h)

/-- The sides that a row takes lead to a response, and its value is what all nodes on the way predict. -/
structure Descends (row : List F) (node : Node F L) (sides : List Side) (value : L) : Prop where
  route_eq : node.route row = .ok sides
  follow_eq : node.follow sides = some (.response value)
  length_way : (node.way row).length = sides.length + 1
  length_le : sides.length ≤ node.depth
  predictRow_eq : ∀ t ∈ node.way row, t.predictRow row = .ok value

theorem self_mem_way (node : Node F L) : node ∈ node.way row := by
  cases node with
  | response value => exact List.mem_singleton_self _
  | condition projector threshold classes lower upper =>
    rw [way_condition]
    exact List.mem_cons_self

/-- A row that fits comes down to a response. -/
theorem exists_descends {node : Node F L} (h : node.Fits row) :
    ∃ sides value, node.Descends row sides value := by
  induction node with
  | response value =>
    refine ⟨[], value, rfl, rfl, rfl, Nat.le_refl 0, fun t ht => ?_⟩
    rw [List.mem_singleton.1 ht]
    rfl
  | condition projector threshold classes lower upper ihl ihu =>
    obtain ⟨hself, h⟩ := fits_condition_iff.1 h
    generalize hside : side threshold (Scalar.dot row projector) = s at h
    have hdepth : (s.pick lower upper).depth ≤ max lower.depth upper.depth := by
      cases s with
      | lower => exact Nat.le_max_left _ _
      | upper => exact Nat.le_max_right _ _
    obtain ⟨sides, value, hd⟩ : ∃ sides value, (s.pick lower upper).Descends row sides value := by
      cases s with
      | lower => exact ihl h
      | upper => exact ihu h
    refine ⟨s :: sides, value, ?_, hd.follow_eq, ?_, ?_, fun t ht => ?_⟩
    · rw [route_condition hself, hside, hd.route_eq]
      rfl
    · rw [way_condition, hside, List.length_cons, hd.length_way, List.length_cons]
    · exact Nat.succ_le_succ (Nat.le_trans hd.length_le hdepth)
    · rw [way_condition, hside] at ht
      rcases List.mem_cons.1 ht with rfl | ht
      · rw [predictRow_condition hself, hside]
        exact hd.predictRow_eq _ (self_mem_way _)
      · exact hd.predictRow_eq t ht

/-- A row breaks off exactly if it meets a projector of another length. -/
theorem predictRow_eq_error_iff {node : Node F L} :
    node.predictRow row = .error (.misuse .rowWidth) ↔ ¬ node.Fits row := by
  constructor
  · intro h hfits
    obtain ⟨sides, value, hd⟩ := exists_descends hfits
    rw [hd.predictRow_eq node (self_mem_way node)] at h
    cases h
  · intro h
    induction node with
    | response value => exact absurd (fun c hc => nomatch hc) h
    | condition projector threshold classes lower upper ihl ihu =>
      rw [fits_condition_iff] at h
      by_cases hself : row.length = projector.length
      · rw [predictRow_condition hself]
        cases hside : side threshold (Scalar.dot row projector) with
        | lower => exact ihl fun hfits => h ⟨hself, by rwa [hside]⟩
        | upper => exact ihu fun hfits => h ⟨hself, by rwa [hside]⟩
      · rw [predictRow, project, if_neg hself]
        rfl

end Node
end PursuitForest
