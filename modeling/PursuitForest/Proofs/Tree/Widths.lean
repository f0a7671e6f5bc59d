import PursuitForest.Proofs.Confusion.Tally
import PursuitForest.Proofs.Tree.Prediction
/-!
Rows of which width a tree takes.

A row is predicted if all projectors are as long as the row is wide, and breaks off at the root if they
are all of another length (`Node.predictRow_eq_error`). Scoring looks at the width of a tree first, so a
tree whose projectors have its width scores data or refuses them in an orderly way (`Tree.Sized.scores`).
-/

namespace PursuitForest

variable {F L : Type} [Label L]

/-! ### Nodes -/

namespace Node

/-- All projectors are as long as rows of a width. A response takes rows of any width. -/
def Takes (node : Node F L) (width : Nat) : Prop := ∀ c ∈ node.conditions, c.projector.length = width

instance (node : Node F L) (width : Nat) : Decidable (node.Takes width) :=
  inferInstanceAs (Decidable (∀ c ∈ node.conditions, c.projector.length = width))

theorem takes_of_conditions_eq_nil {node : Node F L} (h : node.conditions = []) (width : Nat) :
    node.Takes width := by
  intro c hc
  rw [h] at hc
  cases hc

/-- All projectors are as long as rows of a width, which is positive if there are any. -/
def Sized (node : Node F L) (width : Nat) : Prop :=
  ∀ c ∈ node.conditions, c.projector.length = width ∧ 0 < width

theorem sized_of_conditions_eq_nil {node : Node F L} (h : node.conditions = []) (width : Nat) :
    node.Sized width := by
  intro c hc
  rw [h] at hc
  cases hc

theorem Sized.takes {node : Node F L} {width other : Nat} (h : node.Sized width)
    (hother : other = width ∨ width = 0) : node.Takes other := by
  intro c hc
  obtain ⟨hlength, hpos⟩ := h c hc
  exact hlength.trans (hother.resolve_right (Nat.ne_of_gt hpos)).symm

variable [Scalar F] {row : List F}

theorem Takes.exists_predictRow {node : Node F L} (h : node.Takes row.length) :
    ∃ value, node.predictRow row = .ok value :=
  Node.exists_predictRow fun c hc => (h c (mem_conditions.2 hc)).symm

/-- Where all projectors are of one length, a row of another width gets no further than the root. -/
theorem predictRow_eq_error {width : Nat} : ∀ {node : Node F L}, node.Takes width →
    ¬ node.Takes row.length → node.predictRow row = .error (.misuse .rowWidth)
  | .response value, _, hrow => absurd (takes_of_conditions_eq_nil (conditions_response value) _) hrow
  | .condition projector threshold classes lower upper, h, hrow => by
      have hself : projector.length = width :=
        h ⟨projector, threshold, classes, lower, upper⟩ (mem_conditions.2 (self_mem_subtrees _))
      have hne : row.length ≠ projector.length := fun heq => hrow (by rwa [heq, hself])
      rw [predictRow, project, if_neg hne]
      rfl

end Node

/-! ### Scores of data -/

/-- Data are scored by a model of some width: only data of another width are refused, and they are
refused for their width. -/
structure Scores {R : Type} [Scalar R] (width : Nat) (d : Dataset F L)
    (confusion : Except (Error F L) (Confusion L)) (errorRate : Except (Error F L) R) : Prop where
  refused : d.width ≠ width → 0 < width →
    confusion = .error (.shapeMismatch .featureCount width d.width) ∧
      errorRate = .error (.shapeMismatch .featureCount width d.width)
  scored : d.width = width ∨ width = 0 →
    ∃ m, confusion = .ok m ∧ m.total = d.size ∧ errorRate = .ok m.error

/-- How data are scored: the width is looked at first, then the labels are predicted and tallied. -/
def score (width : Nat) (d : Dataset F L) (predicted : Except (Error F L) (List L)) :
    Except (Error F L) (Confusion L) := do
  (if d.width ≠ width ∧ 0 < width then .error (.shapeMismatch .featureCount width d.width)
    else .ok () : Except (Error F L) Unit)
  Confusion.tally (← predicted) d.labels

section
variable {width : Nat} {d : Dataset F L} {predicted : Except (Error F L) (List L)}

theorem score_eq_error (hne : d.width ≠ width) (hpos : 0 < width) :
    score width d predicted = .error (.shapeMismatch .featureCount width d.width) := by
  rw [score, if_pos ⟨hne, hpos⟩]
  rfl

theorem score_eq_of_width (h : d.width = width ∨ width = 0) :
    score width d predicted = predicted >>= fun labels => Confusion.tally labels d.labels := by
  rw [score, if_neg (by omega)]
  rfl

/-- Predicted labels, one for each row, are all tallied. -/
theorem exists_score (h : d.width = width ∨ width = 0) {labels : List L}
    (hpredicted : predicted = .ok labels) (hlength : labels.length = d.size) :
    ∃ m, score width d predicted = .ok m ∧ m.total = d.size := by
  have hlabels : d.labels.length = d.size := List.length_map _
  obtain ⟨m, hm, htotal⟩ := Confusion.exists_tally (F := F) (hlength.trans hlabels.symm)
  refine ⟨m, ?_, htotal.trans hlabels⟩
  rw [score_eq_of_width h, hpredicted]
  exact hm

theorem scores_of_predicted {R : Type} [Scalar R]
    (h : d.width = width ∨ width = 0 → ∃ labels, predicted = .ok labels ∧ labels.length = d.size) :
    Scores width d (score width d predicted)
      ((score width d predicted).map (·.error) : Except (Error F L) R) := by
  refine ⟨fun hne hpos => ?_, fun hwidth => ?_⟩
  · rw [score_eq_error hne hpos]
    exact ⟨rfl, rfl⟩
  · obtain ⟨labels, hlabels, hlength⟩ := h hwidth
    obtain ⟨m, hm, htotal⟩ := exists_score hwidth hlabels hlength
    rw [hm]
    exact ⟨m, rfl, htotal, rfl⟩

end

variable [Scalar F]

namespace Tree

variable {t : Tree F L}

theorem confusion_eq_score (t : Tree F L) (d : Dataset F L) :
    t.confusion d = score t.width d (t.predict d.features) :=
  rfl

theorem errorRate_eq_map {R : Type} [Scalar R] (t : Tree F L) (d : Dataset F L) :
    (t.errorRate d : Except (Error F L) R) = (t.confusion d).map (·.error) :=
  bind_pure_comp _ (t.confusion d)

theorem exists_predict_of_takes {x : FeatureTable F} (h : t.root.Takes x.width) :
    ∃ labels, t.predict x = .ok labels ∧ labels.length = x.size :=
  exists_predict fun r hr => (show t.root.Takes r.length by rwa [x.shaped r hr]).exists_predictRow

/-- Any row is of the wrong width for a tree that takes others. -/
theorem predict_eq_error {width : Nat} {x : FeatureTable F} (h : t.root.Takes width)
    (hx : ¬ t.root.Takes x.width) (hrows : x.rows ≠ []) :
    t.predict x = .error (.misuse .rowWidth) := by
  obtain ⟨row, rows, heq⟩ := List.exists_cons_of_ne_nil hrows
  have hrow : row.length = x.width := x.shaped row (by rw [heq]; exact List.mem_cons_self)
  rw [predict, heq, List.mapM_cons, predictRow, Node.predictRow_eq_error h (by rwa [hrow])]
  rfl

/-- A tree whose projectors are of its width. -/
def Sized (t : Tree F L) : Prop := t.root.Sized t.width

omit [Scalar F] in
theorem Sized.takes {width : Nat} (h : t.Sized) (hwidth : width = t.width ∨ t.width = 0) :
    t.root.Takes width :=
  Node.Sized.takes h hwidth

/-- A tree refuses data of another width than its own, and scores any other. -/
theorem Sized.scores {R : Type} [Scalar R] (h : t.Sized) (d : Dataset F L) :
    Scores t.width d (t.confusion d) (t.errorRate d : Except (Error F L) R) := by
  rw [errorRate_eq_map, confusion_eq_score]
  refine scores_of_predicted fun hwidth => ?_
  obtain ⟨labels, hlabels, hlength⟩ := exists_predict_of_takes (t := t) (x := d.features)
    (h.takes hwidth)
  exact ⟨labels, hlabels, hlength.trans (List.length_map _)⟩

/-- Trees of one root score data alike if they are of one width or if neither refuses the data. -/
theorem scores_congr {R : Type} [Scalar R] {s t : Tree F L} (hroot : s.root = t.root) {d : Dataset F L}
    (h : s.width = t.width ∨
      (d.width = s.width ∨ s.width = 0) ∧ (d.width = t.width ∨ t.width = 0)) :
    s.confusion d = t.confusion d ∧ (s.errorRate d : Except (Error F L) R) = t.errorRate d := by
  have hpredict : s.predict d.features = t.predict d.features := by
    show d.features.rows.mapM s.root.predictRow = d.features.rows.mapM t.root.predictRow
    rw [hroot]
  have hconfusion : s.confusion d = t.confusion d := by
    rw [confusion_eq_score, confusion_eq_score, hpredict]
    rcases h with hwidth | ⟨hs, ht⟩
    · rw [hwidth]
    · rw [score_eq_of_width hs, score_eq_of_width ht]
  exact ⟨hconfusion, by rw [errorRate_eq_map, errorRate_eq_map, hconfusion]⟩

end Tree

/-! ### Grown trees -/

section
variable [Eigensolver F] {G : Type} [RandomSource G] {settings : TreeSettings F}
  {data : GroupedDataset F L} {g g' : G}

/-- Trees are grown on rows only. -/
theorem isEmpty_of_grow {root : Node F L} (h : grow settings data g = (.ok root, g')) :
    data.isEmpty = false := by
  unfold grow checkGrowth at h
  cases hempty : data.isEmpty with
  | false => rfl
  | true =>
    rw [hempty] at h
    cases h

/-- A grown tree takes rows as wide as its data. -/
theorem sized_of_grow {t : Tree F L} (h : grow settings data g = (.ok t.root, g'))
    (hwidth : t.width = data.width) : t.Sized := by
  intro c hc
  obtain ⟨two, hfit⟩ := exists_fitted h hc
  rw [hwidth]
  exact hfit.length_projector (count_le_of_checkWidth (checkWidth_of_grow h))

end

end PursuitForest
