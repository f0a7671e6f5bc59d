import PursuitForest.Proofs.Tree.Endings
import PursuitForest.Tree.Model
/-!
What a tree predicts.

A row ends at a response, so what is predicted is the value of one. A row is predicted unless some
condition on its way has a projector of another length; a grown tree predicts every row that is as
wide as its data (`exists_predictRow_of_grow`), one of the classes that have rows.
-/

namespace PursuitForest

namespace Node

variable {F L : Type} [Scalar F] [Label L] {row : List F}

/-- A row is answered with the value of a response. -/
theorem mem_responses_of_predictRow {value : L} : ∀ {node : Node F L},
    node.predictRow row = .ok value → value ∈ node.responses
  | .response _, h => by
      cases h
      exact List.mem_singleton_self _
  | .condition projector threshold classes lower upper, h => by
      obtain ⟨projection, -, h⟩ := bind_eq_ok_iff.1 h
      rw [responses, List.mem_append]
      cases hside : side threshold projection with
      | lower =>
        rw [hside] at h
        exact .inl (mem_responses_of_predictRow h)
      | upper =>
        rw [hside] at h
        exact .inr (mem_responses_of_predictRow h)

/-- A row as wide as all projectors is predicted. -/
theorem exists_predictRow : ∀ {node : Node F L},
    (∀ c : Condition F L, c.toNode ∈ node.subtrees → row.length = c.projector.length) →
      ∃ value, node.predictRow row = .ok value
  | .response value, _ => ⟨value, rfl⟩
  | .condition projector threshold classes lower upper, h => by
      have hself : row.length = projector.length :=
        h ⟨projector, threshold, classes, lower, upper⟩ List.mem_cons_self
      simp only [predictRow, project, if_pos hself, bind, Except.bind]
      cases side threshold (Scalar.dot row projector) with
      | lower =>
        exact exists_predictRow fun c hc => h c (List.mem_cons_of_mem _ (List.mem_append_left _ hc))
      | upper =>
        exact exists_predictRow fun c hc => h c (List.mem_cons_of_mem _ (List.mem_append_right _ hc))

end Node

/-- A tree that predicts every row of a table predicts the table. -/
theorem exists_predict {F L : Type} [Scalar F] [Label L] {t : Tree F L} {x : FeatureTable F}
    (h : ∀ r ∈ x.rows, ∃ label, t.predictRow r = .ok label) :
    ∃ labels, t.predict x = .ok labels ∧ labels.length = x.size := by
  obtain ⟨labels, hlabels⟩ := exists_mapM h
  exact ⟨labels, hlabels, length_of_mapM hlabels⟩

variable {F L G : Type} [Scalar F] [Eigensolver F] [Label L] [RandomSource G]
  {settings : TreeSettings F} {d : GroupedDataset F L} {g g' : G} {root : Node F L}

theorem exists_predictRow_of_grow (h : grow settings d g = (.ok root, g')) {row : List F}
    (hrow : row.length = d.width) : ∃ value, root.predictRow row = .ok value := by
  refine Node.exists_predictRow fun c hc => ?_
  rw [hrow, length_projector_of_grow h (Node.mem_conditions.2 hc)]

/-- A grown tree answers with classes that have rows. -/
theorem mem_presentClasses_of_grow (h : grow settings d g = (.ok root, g')) {x : L}
    (hx : x ∈ root.responses) : x ∈ d.presentClasses :=
  (spans_of_grow h).mem_responses.1 hx

end PursuitForest
