import PursuitForest.Proofs.Archive.Widths
/-!
Data that are scored by restored trees.

A tree answers if it refuses data that are not as wide as its projectors, and scores all others
(`Tree.Answers`). A restored tree answers unless it has projectors without coefficients. Then its width is
zero, which stands for a tree without projectors as well, so no data are refused, and any row breaks off
(`restored_tree_answers_iff`).
-/

namespace PursuitForest

variable {F L : Type} [Label L]

section
variable {width : Nat} {d : Dataset F L} {predicted : Except (Error F L) (List L)}

/-- Data that pass the look at their width fail as their rows do. -/
theorem score_eq_error_of_predicted (h : d.width = width ∨ width = 0) {e : Error F L}
    (hpredicted : predicted = .error e) : score width d predicted = .error e := by
  rw [score_eq_of_width h, hpredicted]
  rfl

end

namespace Tree

section
variable {t : Tree F L}

/-- A tree is of the width of its projectors unless these have no coefficients. -/
theorem sized_or_of_takes (h : t.root.Takes t.width) :
    t.Sized ∨ t.width = 0 ∧ t.root.conditions ≠ [] := by
  by_cases hnone : t.root.conditions = []
  · exact .inl (Node.sized_of_conditions_eq_nil hnone t.width)
  · rcases Nat.eq_zero_or_pos t.width with hzero | hpos
    · exact .inr ⟨hzero, hnone⟩
    · exact .inl fun c hc => ⟨h c hc, hpos⟩

end

variable [Scalar F] {t : Tree F L} {d : Dataset F L} {R : Type} [Scalar R]

/-- Data are scored if they are as wide as the projectors, and refused for their width otherwise. -/
structure Answers (R : Type) [Scalar R] (t : Tree F L) (d : Dataset F L) : Prop where
  refused : ∀ c ∈ t.root.conditions, d.width ≠ c.projector.length →
    t.confusion d = .error (.shapeMismatch .featureCount c.projector.length d.width) ∧
      (t.errorRate d : Except (Error F L) R) =
        .error (.shapeMismatch .featureCount c.projector.length d.width)
  scored : (∀ c ∈ t.root.conditions, d.width = c.projector.length) →
    ∃ m, t.confusion d = .ok m ∧ m.total = d.size ∧
      (t.errorRate d : Except (Error F L) R) = .ok m.error

/-- A tree whose projectors are of its width answers. -/
theorem Sized.answers (h : t.Sized) (hnone : t.root.conditions = [] → t.width = 0)
    (d : Dataset F L) : t.Answers R d := by
  have hscores := h.scores (R := R) d
  refine ⟨?_, ?_⟩
  · intro c hc hne
    obtain ⟨hlength, hpos⟩ := h c hc
    rw [hlength] at hne ⊢
    exact hscores.refused hne hpos
  · intro hall
    refine hscores.scored ?_
    cases hconditions : t.root.conditions with
    | nil => exact .inr (hnone hconditions)
    | cons c cs =>
      have hc : c ∈ t.root.conditions := by
        rw [hconditions]
        exact List.mem_cons_self
      exact .inl ((hall c hc).trans (h c hc).1)

/-- Data that are not refused are scored if the tree takes their rows. -/
theorem exists_scores_of_takes (hwidth : d.width = t.width ∨ t.width = 0) (h : t.root.Takes d.width) :
    ∃ m, t.confusion d = .ok m ∧ m.total = d.size ∧
      (t.errorRate d : Except (Error F L) R) = .ok m.error := by
  obtain ⟨labels, hlabels, hlength⟩ := exists_predict_of_takes (x := d.features) h
  obtain ⟨m, hm, htotal⟩ := exists_score hwidth hlabels (hlength.trans (List.length_map _))
  rw [errorRate_eq_map, confusion_eq_score, hm]
  exact ⟨m, rfl, htotal, rfl⟩

/-- Without rows there is nothing that could break off. -/
theorem exists_scores_of_isEmpty (hwidth : d.width = t.width ∨ t.width = 0) (h : d.isEmpty = true) :
    ∃ m, t.confusion d = .ok m ∧ m.total = 0 ∧
      (t.errorRate d : Except (Error F L) R) = .ok m.error := by
  have hrows : d.rows = [] := List.isEmpty_iff.1 h
  have hpredict : t.predict d.features = .ok [] := by
    show (d.rows.map (·.features)).mapM t.predictRow = _
    rw [hrows]
    rfl
  have hsize : d.size = 0 := by
    rw [Dataset.size, hrows]
    rfl
  obtain ⟨m, hm, htotal⟩ := exists_score hwidth hpredict hsize.symm
  rw [hsize] at htotal
  rw [errorRate_eq_map, confusion_eq_score, hm]
  exact ⟨m, rfl, htotal, rfl⟩

/-- Where no data are refused, rows of another length than the projectors break off. -/
theorem scores_eq_error (htakes : t.root.Takes t.width) (hzero : t.width = 0)
    (hsome : t.root.conditions ≠ []) (hwidth : 0 < d.width) (hrows : d.isEmpty = false) :
    t.confusion d = .error (.misuse .rowWidth) ∧
      (t.errorRate d : Except (Error F L) R) = .error (.misuse .rowWidth) := by
  have hstrays : ¬ t.root.Takes d.width := by
    intro h
    obtain ⟨c, hc⟩ := List.exists_mem_of_ne_nil _ hsome
    have hlength := (h c hc).symm.trans (htakes c hc)
    omega
  have hfeatures : d.features.rows ≠ [] := by
    intro hnone
    exact List.isEmpty_eq_false_iff.1 hrows (List.map_eq_nil_iff.1 hnone)
  have hpredict := predict_eq_error htakes hstrays hfeatures
  rw [errorRate_eq_map, confusion_eq_score, score_eq_error_of_predicted (.inr hzero) hpredict]
  exact ⟨rfl, rfl⟩

/-- Data that are answered do not break off. -/
theorem Answers.ne_breaksOff (h : t.Answers R d) : t.confusion d ≠ .error (.misuse .rowWidth) := by
  by_cases hall : ∀ c ∈ t.root.conditions, d.width = c.projector.length
  · obtain ⟨m, hm, -⟩ := h.scored hall
    rw [hm]
    nofun
  · push Not at hall
    obtain ⟨c, hc, hne⟩ := hall
    rw [(h.refused c hc hne).1]
    nofun

/-- A tree that has lost the width of its conditions breaks off at a row of one column. -/
theorem exists_breaksOff (t : Tree F L) (htakes : t.root.Takes t.width) (hzero : t.width = 0)
    (hsome : t.root.conditions ≠ []) : ∃ d : Dataset F L, t.confusion d = .error (.misuse .rowWidth) := by
  obtain ⟨label, -⟩ := List.exists_mem_of_length_pos
    ((Nat.zero_le _).trans_lt t.root.depth_lt_length_responses)
  exact ⟨.zeroRow 1 label,
    (scores_eq_error (R := F) (d := .zeroRow 1 label) htakes hzero hsome Nat.one_pos rfl).1⟩

end Tree

/-! ### Restored trees -/

section
variable [Scalar F] [ScalarCodec F] [LabelCodec L] {s : String} {t : Tree F L}

theorem Tree.width_of_ofText (h : Tree.ofText s = .ok t) :
    t.root.Takes t.width ∧ (t.root.conditions = [] → t.width = 0) := by
  obtain ⟨root, -, hrestore⟩ := bind_eq_ok_iff.1 h
  obtain ⟨rfl, htakes, hzero⟩ := Tree.width_of_restore hrestore
  exact ⟨htakes, hzero⟩

/-- All projectors of a restored tree are of its width. If they have coefficients, or if there are none,
then data of their width, or any data, are scored, and all others are refused. If they have no
coefficients then the tree takes any data without a look at their width: data without columns and data
without rows are scored, and all others break off. So a restored tree answers on all data, or never
breaks off, exactly if its width is positive or it has no conditions. -/
theorem restored_tree_answers_iff (R : Type) [Scalar R] (h : Tree.ofText s = .ok t) :
    t.root.Takes t.width ∧ (t.root.conditions = [] → t.width = 0) ∧
      (t.root.conditions = [] ∨ 0 < t.width → ∀ d : Dataset F L, t.Answers R d) ∧
      (t.root.conditions ≠ [] → t.width = 0 → ∀ d : Dataset F L,
        (d.width = 0 → ∃ m, t.confusion d = .ok m ∧ m.total = d.size ∧
          (t.errorRate d : Except (Error F L) R) = .ok m.error) ∧
        (d.isEmpty = true → ∃ m, t.confusion d = .ok m ∧ m.total = 0 ∧
          (t.errorRate d : Except (Error F L) R) = .ok m.error) ∧
        (0 < d.width → d.isEmpty = false → t.confusion d = .error (.misuse .rowWidth) ∧
          (t.errorRate d : Except (Error F L) R) = .error (.misuse .rowWidth))) ∧
      ((∀ d : Dataset F L, t.Answers R d) ↔ t.root.conditions = [] ∨ 0 < t.width) ∧
      ((∀ d : Dataset F L, t.confusion d ≠ .error (.misuse .rowWidth)) ↔
        t.root.conditions = [] ∨ 0 < t.width) := by
  obtain ⟨htakes, hzero⟩ := Tree.width_of_ofText h
  have hanswers : t.root.conditions = [] ∨ 0 < t.width → ∀ d : Dataset F L, t.Answers R d := by
    intro hwidth
    rcases Tree.sized_or_of_takes htakes with hsized | ⟨hlost, hsome⟩
    · exact hsized.answers hzero
    · rcases hwidth with hnone | hpos
      · exact absurd hnone hsome
      · exact absurd hlost (Nat.ne_of_gt hpos)
  have hnever : (∀ d : Dataset F L, t.confusion d ≠ .error (.misuse .rowWidth)) →
      t.root.conditions = [] ∨ 0 < t.width := by
    intro hnot
    by_contra hlost
    obtain ⟨hsome, hwidth⟩ := not_or.1 hlost
    obtain ⟨d, hd⟩ := t.exists_breaksOff htakes (Nat.eq_zero_of_not_pos hwidth) hsome
    exact hnot d hd
  refine ⟨htakes, hzero, hanswers, ?_, ⟨?_, hanswers⟩, ⟨hnever, ?_⟩⟩
  · intro hsome hwidth d
    refine ⟨?_, ?_, ?_⟩
    · intro hd
      rw [hwidth, ← hd] at htakes
      exact Tree.exists_scores_of_takes (.inr hwidth) htakes
    · exact Tree.exists_scores_of_isEmpty (.inr hwidth)
    · exact Tree.scores_eq_error htakes hwidth hsome
  · intro hall
    exact hnever fun d => (hall d).ne_breaksOff
  · intro hwidth d
    exact (hanswers hwidth d).ne_breaksOff

end

namespace Exact

theorem exists_condition_cut (projector : List Exact) :
    ∃ c ∈ (cut projector).conditions, c.projector = projector :=
  ⟨⟨projector, .number 0, _, _, _⟩, Node.mem_conditions.2 (Node.self_mem_subtrees _), rfl⟩

/-- A cut is read back as it is written if its coefficients are zeros and ones. -/
theorem exists_ofText_cut (projector : List Exact)
    (h : ∀ a ∈ projector, a = .number 0 ∨ a = .number 1) :
    ∃ t : Tree Exact String, Tree.ofText (planar (cut projector)).toText = .ok t ∧
      t.root = cut projector ∧ t.width = projector.length := by
  have hallowed : (cut projector).AllFinite (· ≠ undefined) ∧ (planar (cut projector)).depth ≤ 125 := by
    refine ⟨(binary_cut h).allFinite, ?_⟩
    rw [Tree.depth_eq]
    exact Nat.one_le_ofNat
  have harchivable := archivable_cut h
  obtain ⟨t, hrestore, hroot⟩ := harchivable.exists_restore
  have hwidth := (Tree.width_of_restore hrestore).2.1
  rw [hroot] at hwidth
  exact ⟨t, harchivable.ofText_eq_ok_iff.2 ⟨hallowed, hrestore⟩, hroot, (takes_cut_iff.1 hwidth).symm⟩

end Exact

open Exact in
/-- A cut in two columns refuses a row of one column. -/
theorem restored_tree_answers_iff_twoColumns : ∃ t : Tree Exact String,
    Tree.ofText (planar (cut [.number 1, .number 0])).toText = .ok t ∧
      t.confusion narrow = .error (.shapeMismatch .featureCount 2 1) := by
  obtain ⟨t, ht, hroot, hwidth⟩ := exists_ofText_cut [.number 1, .number 0]
    (by decide +kernel)
  obtain ⟨htakes, -, hanswers, -⟩ := restored_tree_answers_iff Exact ht
  have hpos : 0 < t.width := by
    rw [hwidth]
    exact Nat.two_pos
  obtain ⟨c, hc, hprojector⟩ := exists_condition_cut [.number 1, .number 0]
  have hrefused := (hanswers (.inr hpos) narrow).refused c (hroot ▸ hc)
  rw [hprojector] at hrefused
  exact ⟨t, ht, (hrefused nofun).1⟩

open Exact in
/-- A cut by no coefficients is restored, and breaks off at a row of one column. -/
theorem scores_break_off_noCoefficients : ∃ t : Tree Exact String,
    Tree.ofText (planar (cut [])).toText = .ok t ∧ t.root.conditions ≠ [] ∧ t.root.Takes 0 ∧
      t.confusion narrow = .error (.misuse .rowWidth) ∧
      (t.errorRate narrow : Except _ Exact) = .error (.misuse .rowWidth) := by
  obtain ⟨t, ht, hroot, hwidth⟩ := exists_ofText_cut [] nofun
  rw [List.length_nil] at hwidth
  obtain ⟨htakes, -⟩ := Tree.width_of_ofText ht
  obtain ⟨c, hc, -⟩ := exists_condition_cut []
  have hsome : t.root.conditions ≠ [] := List.ne_nil_of_mem (hroot ▸ hc)
  obtain ⟨hconfusion, herror⟩ :=
    Tree.scores_eq_error (R := Exact) htakes hwidth hsome (d := narrow) Nat.one_pos rfl
  exact ⟨t, ht, hsome, hwidth ▸ htakes, hconfusion, herror⟩

end PursuitForest
