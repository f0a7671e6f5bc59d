import PursuitForest.Proofs.Archive.RoundTrip
import PursuitForest.Proofs.Forest.Widths
/-!
Widths of restored models.

The width of a tree is not written. A restored tree has the width of its projectors, which must agree, and
none if it has no conditions (`width_of_restore`). So a tree with conditions comes back with its width and
scores the same data, and a tree without takes rows of any width from then on (`restored_tree_scores`).

The trees of a restored forest need not agree with one another, while scoring looks at the width of the
first tree only. So a forest that was restored refuses or scores all data in an orderly way exactly if all
its projectors are of the width of the first tree (`restored_forest_widths`).
-/

namespace PursuitForest

/-! ### Restored trees -/

section
variable {F L : Type} [Label L]

namespace Tree

/-- The common width of some projectors is what they are all as long as. -/
theorem commonWidth_eq_ok_iff {width : Nat} {first : Option Nat} {cs : List (Node.Condition F L)} :
    commonWidth first cs = .ok width ↔ (∀ w ∈ first, w = width) ∧
      (∀ c ∈ cs, c.projector.length = width) ∧ (first = none → cs = [] → width = 0) := by
  induction cs generalizing first with
  | nil =>
    cases first with
    | none => simp [commonWidth, eq_comm]
    | some w => simp [commonWidth]
  | cons c cs ih =>
    cases first with
    | none =>
      rw [commonWidth, ih]
      simp
    | some w =>
      rw [commonWidth]
      split
      · next heq =>
        rw [ih]
        simp [heq]
      · next hne =>
        constructor
        · intro h
          cases h
        · rintro ⟨hfirst, hcs, -⟩
          exact absurd ((hcs c List.mem_cons_self).trans (hfirst w rfl).symm) hne

variable [Scalar F]

/-- A restored tree has the width of its projectors, or none if there are no conditions. -/
theorem width_of_restore {root : Node F L} {r : Tree F L} (h : restore root = .ok r) :
    r.root = root ∧ r.root.Takes r.width ∧ (r.root.conditions = [] → r.width = 0) := by
  obtain ⟨width, hwidth, h⟩ := bind_eq_ok_iff.1 h
  cases h
  obtain ⟨-, htakes, hzero⟩ := commonWidth_eq_ok_iff.1 hwidth
  exact ⟨rfl, htakes, hzero rfl⟩

end Tree

end

/-! ### Fitted trees that are restored -/

section
variable {F L G : Type} [Scalar F] [Eigensolver F] [Label L] [RandomSource G]

/-- A tree that was fitted to data, alone or as one of a forest. -/
inductive Tree.FittedTo (G : Type) [RandomSource G] (d : Dataset F L) : Tree F L → Prop
  | alone {settings : TreeSettings.Checked F} {t : Tree F L} (h : Tree.fit G settings d = .ok t) :
      FittedTo G d t
  | member {crew : Crew} {settings : ForestSettings.Checked F} {f : Forest F L} {m : Member F L}
      (h : Forest.fit G crew settings d = .ok f) (hm : m ∈ f.members) : FittedTo G d m.tree

/-- Wherever a tree was fitted, it was grown on rows as wide as the data. -/
theorem Tree.FittedTo.exists_grow {d : Dataset F L} {t : Tree F L} (h : t.FittedTo G d) :
    t.width = d.width ∧ ∃ (settings : TreeSettings F) (data : GroupedDataset F L) (g g' : G),
      data.width = d.width ∧ grow settings data g = (.ok t.root, g') := by
  cases h with
  | alone h =>
    obtain ⟨hwidth, -, g', hgrow⟩ := exists_grow_of_treeFit h
    exact ⟨hwidth, _, _, _, g', rfl, hgrow⟩
  | member h hm =>
    have htrained := (Forest.grown_of_fit h).trained _ hm
    obtain ⟨g', hgrow⟩ := htrained.grows
    exact ⟨htrained.width_eq, _, _, _, g', rfl, hgrow⟩

theorem Tree.FittedTo.sized {d : Dataset F L} {t : Tree F L} (h : t.FittedTo G d) : t.Sized := by
  obtain ⟨hwidth, settings, data, g, g', hdata, hgrow⟩ := h.exists_grow
  exact sized_of_grow hgrow (hwidth.trans hdata.symm)

end

/-! ### Grown trees that are written -/

section
variable {F L : Type} [ScalarCodec F] [LabelCodec L] [Label L] {finite : F → Prop}

/-- All coefficients, thresholds and labels of a node are kept when they are written. -/
structure Node.Kept (finite : F → Prop) (root : Node F L) : Prop where
  scalars : ∀ c ∈ root.conditions, (∀ a ∈ c.projector, ScalarCodec.Keeps finite a) ∧
    ScalarCodec.Keeps finite c.threshold
  labels : ∀ value ∈ root.responses, LabelCodec.Keeps value

theorem Node.Kept.of_join {projector : List F} {threshold : F} {lower upper : Node F L}
    (h : (Node.join projector threshold lower upper).Kept finite) :
    ((∀ a ∈ projector, ScalarCodec.Keeps finite a) ∧ ScalarCodec.Keeps finite threshold) ∧
      lower.Kept finite ∧ upper.Kept finite := by
  obtain ⟨hself, hlower, hupper⟩ := Node.forall_conditions_join.1 h.scalars
  exact ⟨hself, ⟨hlower, fun value hv => h.labels value (List.mem_append_left _ hv)⟩,
    ⟨hupper, fun value hv => h.labels value (List.mem_append_right _ hv)⟩⟩

variable {G : Type} [RandomSource G] [Scalar F] [Eigensolver F] {settings : TreeSettings F}
  {data : GroupedDataset F L} {g g' : G}

/-- A grown node is put together by joining, so it can be written if its scalars and labels are kept. -/
theorem Grows.archivable {outcome : Except (Error F L) (Node F L)} {root : Node F L}
    (h : Grows settings data g outcome g') (ho : outcome = .ok root) (hroot : root.Kept finite) :
    root.Archivable finite := by
  induction h generalizing root with
  | none | twoFails | branchFails | lowerFails | upperFails => cases ho
  | one =>
    cases ho
    exact .response (hroot.labels _ (List.mem_singleton_self _))
  | two =>
    cases ho
    obtain ⟨hself, hlower, hupper⟩ := hroot.of_join
    exact .join hself.1 hself.2 (.response (hlower.labels _ (List.mem_singleton_self _)))
      (.response (hupper.labels _ (List.mem_singleton_self _)))
  | many _ _ _ _ ihl ihu =>
    cases ho
    obtain ⟨hself, hlower, hupper⟩ := hroot.of_join
    exact .join hself.1 hself.2 (ihl rfl hlower) (ihu rfl hupper)

/-- A grown tree can be written if its scalars and labels are kept: its projectors are of one length. -/
theorem archivable_of_grow {t : Tree F L} (h : grow settings data g = (.ok t.root, g'))
    (hroot : t.root.Kept finite) : t.Archivable finite := by
  refine ⟨?_, fun b hb c hc => ?_⟩
  · rw [grow_eq_growRec, growRec] at h
    split at h
    · cases h
    · have hgrows := growNode_grows settings data g
      rw [h] at hgrows
      exact hgrows.archivable rfl hroot
  · rw [length_projector_of_grow h hb, length_projector_of_grow h hc]

variable {R : Type} [Scalar R] {d : Dataset F L} {t : Tree F L}

theorem Tree.FittedTo.archivable (ht : t.FittedTo G d) (hkept : t.root.Kept finite) :
    t.Archivable finite := by
  obtain ⟨-, settings, data, g, g', -, hgrow⟩ := ht.exists_grow
  exact archivable_of_grow hgrow hkept

/-- A fitted tree is restored with its root, and with the width of its projectors. -/
theorem Tree.FittedTo.exists_restored (ht : t.FittedTo G d) (hkept : t.root.Kept finite)
    (hfinite : t.root.AllFinite finite) (hdepth : t.depth ≤ 125) :
    ∃ r : Tree F L, Tree.ofText t.toText = .ok r ∧ r.root = t.root ∧ r.root.Takes r.width ∧
      (r.root.conditions = [] → r.width = 0) := by
  have harchivable := ht.archivable hkept
  obtain ⟨r, hrestore, -⟩ := harchivable.exists_restore
  exact ⟨r, harchivable.ofText_eq_ok_iff.2 ⟨⟨hfinite, hdepth⟩, hrestore⟩, width_of_restore hrestore⟩

/-- A fitted tree is restored from its text with its root. Where it has conditions it has its width
again, and scores all data as before. Where it has none it comes back without a width: it scores data as
wide as its training data as before, and does not refuse any other data. -/
theorem restored_tree_scores (ht : t.FittedTo G d) (hkept : t.root.Kept finite)
    (hfinite : t.root.AllFinite finite) (hdepth : t.depth ≤ 125) :
    ∃ r : Tree F L, Tree.ofText t.toText = .ok r ∧ r.root = t.root ∧
      (t.root.conditions ≠ [] ∨ t.width = 0 → r.width = t.width ∧ ∀ e : Dataset F L,
        r.confusion e = t.confusion e ∧ (r.errorRate e : Except (Error F L) R) = t.errorRate e) ∧
      (t.root.conditions = [] → r.width = 0 ∧
        (∀ e : Dataset F L, e.width = t.width →
          r.confusion e = t.confusion e ∧ (r.errorRate e : Except (Error F L) R) = t.errorRate e) ∧
        ∀ e : Dataset F L, ∃ m, r.confusion e = .ok m ∧ m.total = e.size ∧
          (r.errorRate e : Except (Error F L) R) = .ok m.error) := by
  obtain ⟨r, hr, hroot, htakes, hzero⟩ := ht.exists_restored hkept hfinite hdepth
  rw [hroot] at htakes hzero
  refine ⟨r, hr, hroot, fun hsome => ?_, fun hnone => ?_⟩
  · have heq : r.width = t.width := by
      cases hconditions : t.root.conditions with
      | nil => rw [hzero hconditions, hsome.resolve_left fun hne => hne hconditions]
      | cons c cs =>
        have hc : c ∈ t.root.conditions := by
          rw [hconditions]
          exact List.mem_cons_self
        rw [← htakes c hc, (ht.sized c hc).1]
    exact ⟨heq, fun e => Tree.scores_congr hroot (.inl heq)⟩
  · have hwidth := hzero hnone
    have hsized : r.Sized := Node.sized_of_conditions_eq_nil (by rw [hroot, hnone]) r.width
    exact ⟨hwidth, fun e he => Tree.scores_congr hroot (.inr ⟨.inr hwidth, .inl he⟩),
      fun e => (hsized.scores e).scored (.inr hwidth)⟩

end

namespace Exact

/-- Two classes that the first column separates, while the second one is constant. -/
def twoLetters : Dataset Exact String where
  width := 2
  rows := [⟨[.number (-1), .number 7], "a"⟩, ⟨[.number 0, .number 7], "a"⟩,
    ⟨[.number 2, .number 7], "b"⟩, ⟨[.number 3, .number 7], "b"⟩]
  classes := .ofList ["a", "b"]
  shaped := by decide
  covered := by decide

/-- One class. -/
def oneLetter : Dataset Exact String where
  width := 2
  rows := [⟨[.number (-1), .number 7], "a"⟩, ⟨[.number 0, .number 7], "a"⟩]
  classes := .ofList ["a"]
  shaped := by decide
  covered := by decide

/-- A row of one column. -/
def narrow : Dataset Exact String where
  width := 1
  rows := [⟨[.number 3], "a"⟩]
  classes := .ofList ["a"]
  shaped := by decide
  covered := by decide

/-- Default settings. -/
def plain : TreeSettings.Checked Exact := ⟨.default, by decide +kernel⟩

/-- All scalars of a node are zeros and ones. -/
def Binary (root : Node Exact String) : Prop :=
  ∀ c ∈ root.conditions, (∀ a ∈ c.projector, a = .number 0 ∨ a = .number 1) ∧
    (c.threshold = .number 0 ∨ c.threshold = .number 1)

instance : DecidablePred Binary := fun root =>
  inferInstanceAs (Decidable (∀ c ∈ root.conditions, (∀ a ∈ c.projector, a = .number 0 ∨ a = .number 1) ∧
    (c.threshold = .number 0 ∨ c.threshold = .number 1)))

/-- Zeros and ones are finite, and kept when they are written. -/
theorem keeps_binary {a : Exact} (h : a = .number 0 ∨ a = .number 1) :
    ScalarCodec.Keeps (· ≠ undefined) a ∧ a ≠ undefined := by
  rcases h with rfl | rfl
  · exact ⟨keeps_zero, nofun⟩
  · exact ⟨keeps_one, nofun⟩

theorem Binary.kept {root : Node Exact String} (h : Binary root) : root.Kept (· ≠ undefined) where
  scalars c hc := ⟨fun a ha => (keeps_binary ((h c hc).1 a ha)).1, (keeps_binary (h c hc).2).1⟩
  labels value _ := LabelCodec.keeps_text value

theorem Binary.allFinite {root : Node Exact String} (h : Binary root) :
    root.AllFinite (· ≠ undefined) :=
  fun c hc => ⟨fun a ha => (keeps_binary ((h c hc).1 a ha)).2, (keeps_binary (h c hc).2).2⟩

theorem exists_fit_twoLetters : ∃ t, Tree.fit Xoshiro plain twoLetters = .ok t ∧
    t.root.conditions.length = 1 ∧ Binary t.root ∧ t.depth ≤ 125 :=
  exists_ok_of_any (by decide +kernel)

theorem exists_fit_oneLetter : ∃ t, Tree.fit Xoshiro plain oneLetter = .ok t ∧
    t.root.conditions.length = 0 ∧ Binary t.root ∧ t.depth ≤ 125 :=
  exists_ok_of_any (by decide +kernel)

end Exact

open Exact in
/-- A tree on two columns refuses a row of one column as it did before; a tree of one class has lost
its width, but scores its training data as before. -/
theorem restored_tree_scores_letters :
    (∃ t r : Tree Exact String, Tree.fit Xoshiro plain twoLetters = .ok t ∧
      Tree.ofText t.toText = .ok r ∧ r.width = 2 ∧
      r.confusion narrow = .error (.shapeMismatch .featureCount 2 1)) ∧
    ∃ t r : Tree Exact String, Tree.fit Xoshiro plain oneLetter = .ok t ∧
      Tree.ofText t.toText = .ok r ∧ r.width = 0 ∧ r.confusion oneLetter = t.confusion oneLetter := by
  constructor
  · obtain ⟨t, ht, hcount, hbinary, hdepth⟩ := exists_fit_twoLetters
    have hwidth : t.width = 2 := (exists_grow_of_treeFit ht).1
    obtain ⟨r, hr, -, hsome, -⟩ := restored_tree_scores (R := Exact) (.alone ht) hbinary.kept
      hbinary.allFinite hdepth
    obtain ⟨heq, hscores⟩ := hsome (.inl fun hnone => by rw [hnone] at hcount; cases hcount)
    refine ⟨t, r, ht, hr, heq.trans hwidth, ?_⟩
    have hrefused := ((Tree.FittedTo.alone ht).sized.scores (R := Exact) narrow).refused
    rw [hwidth] at hrefused
    exact (hscores narrow).1.trans (hrefused nofun Nat.two_pos).1
  · obtain ⟨t, ht, hcount, hbinary, hdepth⟩ := exists_fit_oneLetter
    obtain ⟨r, hr, -, -, hlost⟩ := restored_tree_scores (R := Exact) (.alone ht) hbinary.kept
      hbinary.allFinite hdepth
    obtain ⟨hzero, hscores, -⟩ := hlost (List.eq_nil_of_length_eq_zero hcount)
    exact ⟨t, r, ht, hr, hzero, (hscores oneLetter (exists_grow_of_treeFit ht).1.symm).1⟩

open Exact in
/-- A tree of one class is fitted to two columns and refuses rows of one. Restored, it has no width and
scores them. -/
theorem width_lost_oneLetter : ∃ t r : Tree Exact String, Tree.fit Xoshiro plain oneLetter = .ok t ∧
    t.root.AllFinite (· ≠ undefined) ∧ t.depth ≤ 125 ∧ Tree.ofText t.toText = .ok r ∧
      t.width = 2 ∧ r.width = 0 ∧ t.confusion narrow = .error (.shapeMismatch .featureCount 2 1) ∧
      ∃ m, r.confusion narrow = .ok m ∧ m.total = 1 := by
  obtain ⟨t, ht, hcount, hbinary, hdepth⟩ := exists_fit_oneLetter
  have hnone : t.root.conditions = [] := List.eq_nil_of_length_eq_zero hcount
  have hfitted : t.FittedTo Xoshiro oneLetter := .alone ht
  have hwidth : t.width = 2 := (exists_grow_of_treeFit ht).1
  obtain ⟨r, hr, hroot, -, hzero⟩ := hfitted.exists_restored hbinary.kept hbinary.allFinite hdepth
  rw [hroot] at hzero
  have hlost := hzero hnone
  have hsized : r.Sized := Node.sized_of_conditions_eq_nil (by rw [hroot, hnone]) r.width
  have hrefused := (hfitted.sized.scores (R := Exact) narrow).refused
  rw [hwidth] at hrefused
  obtain ⟨m, hm, htotal, -⟩ := (hsized.scores (R := Exact) narrow).scored (.inr hlost)
  exact ⟨t, r, ht, hbinary.allFinite, hdepth, hr, hwidth, hlost, (hrefused nofun Nat.two_pos).1, m, hm, htotal⟩

/-! ### Restored forests -/

section
variable {F L : Type} [Label L]

namespace Forest

section
variable {f : Forest F L}

/-- A forest is of its width exactly if it takes all rows that are not refused for theirs. -/
theorem sized_iff_takes :
    f.Sized ↔ ∀ width, width = f.width ∨ f.width = 0 → f.Takes width := by
  refine ⟨fun h width hwidth => h.takes hwidth, fun h m hm c hc => ?_⟩
  have hlength := h f.width (.inl rfl) m hm c hc
  refine ⟨hlength, Nat.pos_of_ne_zero fun hzero => ?_⟩
  -- without a width nothing is refused, and no projector is of every length
  have hone := h 1 (.inr hzero) m hm c hc
  omega

theorem takes_iff_forall_root {width : Nat} :
    f.Takes width ↔ ∀ root ∈ f.members.map (·.tree.root), root.Takes width := by
  rw [List.forall_mem_map]
  rfl

end

variable [Scalar F]

/-- What predicting rows comes to: labels if all trees take the rows, and no answer otherwise. -/
structure Predicts (f : Forest F L) (x : FeatureTable F) : Prop where
  answers : f.Takes x.width ∨ x.rows = [] →
    ∃ labels, f.predict x = .ok labels ∧ labels.length = x.size
  breaksOff : ¬ f.Takes x.width → x.rows ≠ [] → f.predict x = .error (.misuse .rowWidth)

/-- What scoring data comes to: data may be refused for their width, or be scored, or else have rows
that some tree does not take. -/
structure Judges (R : Type) [Scalar R] (f : Forest F L) (d : Dataset F L) : Prop where
  refused : d.width ≠ f.width → 0 < f.width →
    f.confusion d = .error (.shapeMismatch .featureCount f.width d.width) ∧
      (f.errorRate d : Except (Error F L) R) =
        .error (.shapeMismatch .featureCount f.width d.width)
  scored : d.width = f.width ∨ f.width = 0 → f.Takes d.width ∨ d.isEmpty = true →
    ∃ m, f.confusion d = .ok m ∧ m.total = d.size ∧
      (f.errorRate d : Except (Error F L) R) = .ok m.error
  breaksOff : d.width = f.width ∨ f.width = 0 → ¬ f.Takes d.width → d.isEmpty = false →
    f.confusion d = .error (.misuse .rowWidth) ∧
      (f.errorRate d : Except (Error F L) R) = .error (.misuse .rowWidth)

variable {f : Forest F L}

/-- Trees with projectors of one length each predict rows, or break off. -/
theorem Covered.predicts (hf : f.Covered) (h : ∀ m ∈ f.members, m.tree.root.Takes m.tree.width)
    (x : FeatureTable F) : f.Predicts x where
  answers hx := by
    obtain ⟨labels, -, hlabels, hlength, -⟩ := hf.exists_predict (x := x) <| by
      rcases hx with htakes | hnone
      · exact htakes.exists_predictRow
      · rw [hnone]
        nofun
    exact ⟨labels, hlabels, hlength⟩
  breaksOff := predict_eq_error fun m hm => ⟨_, h m hm⟩

theorem Predicts.judges {R : Type} [Scalar R] {d : Dataset F L} (h : f.Predicts d.features) :
    f.Judges R d := by
  refine ⟨fun hne hpos => ?_, fun hwidth htakes => ?_, fun hwidth hstrays hrows => ?_⟩
  · rw [errorRate_eq_map, confusion_eq_score, score_eq_error hne hpos]
    exact ⟨rfl, rfl⟩
  · obtain ⟨labels, hlabels, hlength⟩ := h.answers <| htakes.imp_right fun hempty =>
      List.map_eq_nil_iff.2 (List.isEmpty_iff.1 hempty)
    obtain ⟨m, hm, htotal⟩ := exists_score hwidth hlabels (hlength.trans (List.length_map _))
    rw [errorRate_eq_map, confusion_eq_score, hm]
    exact ⟨m, rfl, htotal, rfl⟩
  · have hsome : d.features.rows ≠ [] := fun hnone =>
      List.isEmpty_eq_false_iff.1 hrows (List.map_eq_nil_iff.1 hnone)
    rw [errorRate_eq_map, confusion_eq_score, score_eq_of_width hwidth, h.breaksOff hstrays hsome]
    exact ⟨rfl, rfl⟩

end Forest

/-- A row of zeros. -/
def Dataset.zeroRow [Scalar F] (width : Nat) (label : L) : Dataset F L where
  width := width
  rows := [⟨.replicate width 0, label⟩]
  classes := .singleton label
  shaped := List.forall_mem_singleton.2 List.length_replicate
  covered := List.forall_mem_singleton.2 (LabelSet.mem_singleton.2 rfl)

namespace Forest

variable [Scalar F] {f : Forest F L}

omit [Scalar F] in
theorem Covered.exists_class (hf : f.Covered) : ∃ label, label ∈ f.classes := by
  obtain ⟨m, hm⟩ := List.exists_mem_of_length_pos hf.size_pos
  obtain ⟨label, hlabel⟩ := List.exists_mem_of_length_pos
    ((Nat.zero_le _).trans_lt m.tree.root.depth_lt_length_responses)
  exact ⟨label, hf.mem_classes m hm label hlabel⟩

/-- Rows of the width of the forest are predicted exactly if all projectors are of that width. -/
theorem predicts_width_iff (h : ∀ x, f.Predicts x) :
    (∀ x : FeatureTable F, x.width = f.width → ∃ labels, f.predict x = .ok labels) ↔
      f.Takes f.width := by
  refine ⟨fun hpredict => ?_, fun htakes x hx => ?_⟩
  · by_contra hstrays
    let zeros : FeatureTable F :=
      ⟨f.width, [.replicate f.width 0], List.forall_mem_singleton.2 List.length_replicate⟩
    have hbreaks := (h zeros).breaksOff hstrays (List.cons_ne_nil _ _)
    obtain ⟨labels, hlabels⟩ := hpredict zeros rfl
    rw [hbreaks] at hlabels
    cases hlabels
  · obtain ⟨labels, hlabels, -⟩ := (h x).answers (.inl (by rwa [hx]))
    exact ⟨labels, hlabels⟩

/-- All data are scored or refused exactly if all projectors are of the width of the forest. -/
theorem Covered.scores_iff (hf : f.Covered) {R : Type} [Scalar R] (h : ∀ d, f.Judges R d) :
    (∀ d : Dataset F L, (∃ m, f.confusion d = .ok m) ∨ ∃ expected found,
      f.confusion d = .error (.shapeMismatch .featureCount expected found)) ↔ f.Sized := by
  refine ⟨fun hscores => sized_iff_takes.2 fun width hwidth => ?_, fun hsized d => ?_⟩
  · by_contra hstrays
    obtain ⟨label, -⟩ := hf.exists_class
    have hbreaks := ((h (.zeroRow width label)).breaksOff hwidth hstrays rfl).1
    rcases hscores (.zeroRow width label) with ⟨m, hm⟩ | ⟨expected, found, hrefused⟩
    · rw [hbreaks] at hm
      cases hm
    · rw [hbreaks] at hrefused
      cases hrefused
  · by_cases hwidth : d.width = f.width ∨ f.width = 0
    · obtain ⟨m, hm, -⟩ := (h d).scored hwidth (.inl (hsized.takes hwidth))
      exact .inl ⟨m, hm⟩
    · obtain ⟨hne, hpos⟩ := not_or.1 hwidth
      exact .inr ⟨_, _, ((h d).refused hne (Nat.pos_of_ne_zero hpos)).1⟩

variable [ScalarCodec F] [LabelCodec L] {s : String}

/-- The trees of a restored forest were restored one by one. -/
theorem exists_restore_of_ofText (h : ofText s = .ok f) {m : Member F L} (hm : m ∈ f.members) :
    ∃ root, Tree.restore root = .ok m.tree := by
  obtain ⟨roots, -, -, ⟨trees, htrees, hmembers⟩, -⟩ := exists_restoredOf h
  rw [hmembers] at hm
  obtain ⟨t, ht, rfl⟩ := List.mem_map.1 hm
  obtain ⟨root, -, hrestore⟩ := exists_of_mem_mapM htrees ht
  exact ⟨root, hrestore⟩

theorem takes_width_of_ofText (h : ofText s = .ok f) :
    ∀ m ∈ f.members, m.tree.root.Takes m.tree.width := fun m hm => by
  obtain ⟨root, hrestore⟩ := exists_restore_of_ofText h hm
  exact (Tree.width_of_restore hrestore).2.1

/-- The first tree takes rows of the width of the forest. -/
theorem takes_first_of_ofText (h : ofText s = .ok f) {root : Node F L} {roots : List (Node F L)}
    (hroots : f.members.map (·.tree.root) = root :: roots) : root.Takes f.width := by
  obtain ⟨m, members, hmembers, rfl, -⟩ := List.map_eq_cons_iff.1 hroots
  have hm : m ∈ f.members := by
    rw [hmembers]
    exact List.mem_cons_self
  rw [width, hmembers]
  exact takes_width_of_ofText h m hm

end Forest

variable [Scalar F] [ScalarCodec F] [LabelCodec L]

/-- Every tree of a restored forest has projectors of its width, but the trees may be of different
widths. Rows that some tree does not take are not predicted, and data with such rows are not scored,
except that they may be refused, for which only the first tree is asked. So rows of the width of the
forest are predicted exactly if all projectors are of that width. All data are scored or refused exactly
if all projectors are of that width and it is positive, unless there are no projectors. -/
theorem restored_forest_widths (R : Type) [Scalar R] {s : String} {f : Forest F L}
    (h : Forest.ofText s = .ok f) :
    (∀ m ∈ f.members, m.tree.root.Takes m.tree.width) ∧ (∀ x, f.Predicts x) ∧ (∀ d, f.Judges R d) ∧
      ((∀ x : FeatureTable F, x.width = f.width → ∃ labels, f.predict x = .ok labels) ↔
        f.Takes f.width) ∧
      ((∀ d : Dataset F L, (∃ m, f.confusion d = .ok m) ∨ ∃ expected found,
        f.confusion d = .error (.shapeMismatch .featureCount expected found)) ↔ f.Sized) := by
  have hcovered := (Forest.bare_of_ofText h).covered
  have htakes := Forest.takes_width_of_ofText h
  have hpredicts : ∀ x, f.Predicts x := hcovered.predicts htakes
  have hjudges : ∀ d, f.Judges R d := fun d => (hpredicts d.features).judges
  exact ⟨htakes, hpredicts, hjudges, Forest.predicts_width_iff hpredicts, hcovered.scores_iff hjudges⟩

end

namespace Exact

/-- A cut at zero. -/
def cut (projector : List Exact) : Node Exact String :=
  .join projector (.number 0) (.response "a") (.response "b")

/-- A forest of cuts at zero, one for each projector. -/
def cuts (projectors : List (List Exact)) : Forest Exact String :=
  ⟨projectors.map fun p => ⟨planar (cut p), none⟩, .ofSize projectors.length, none⟩

theorem takes_cut_iff {projector : List Exact} {width : Nat} :
    (cut projector).Takes width ↔ projector.length = width := by
  refine Node.forall_conditions_join.trans ⟨fun h => h.1, fun h => ⟨h, ?_, ?_⟩⟩ <;>
    exact Node.takes_of_conditions_eq_nil (Node.conditions_response _) width

theorem binary_cut {projector : List Exact} (h : ∀ a ∈ projector, a = .number 0 ∨ a = .number 1) :
    Binary (cut projector) := by
  refine Node.forall_conditions_join.2 ⟨⟨h, .inl rfl⟩, ?_, ?_⟩ <;>
    · rw [Node.conditions_response]
      nofun

/-- Zeros and ones can be written, and a single projector is of one length. -/
theorem archivable_cut {projector : List Exact} (h : ∀ a ∈ projector, a = .number 0 ∨ a = .number 1) :
    (planar (cut projector)).Archivable (· ≠ undefined) := by
  refine ⟨?_, fun b hb c hc => ?_⟩
  · exact .join (fun a ha => (keeps_binary (h a ha)).1) keeps_zero (archivable_text _) (archivable_text _)
  · rw [takes_cut_iff.2 rfl b hb, takes_cut_iff.2 rfl c hc]

/-- Cuts with projectors of zeros and ones are read back as they are written. -/
theorem exists_ofText_cuts (first : List Exact) (projectors : List (List Exact))
    (hcoefficients : ∀ p ∈ first :: projectors, ∀ a ∈ p, a = .number 0 ∨ a = .number 1) :
    ∃ f : Forest Exact String, Forest.ofText (cuts (first :: projectors)).toText = .ok f ∧
      f.width = first.length ∧ ∀ width, f.Takes width ↔ ∀ p ∈ first :: projectors, p.length = width := by
  have hbinary : ∀ p ∈ first :: projectors, Binary (cut p) := fun p hp => binary_cut (hcoefficients p hp)
  have harchivable : ∀ m ∈ (cuts (first :: projectors)).members,
      m.tree.Archivable (· ≠ undefined) :=
    List.forall_mem_map.2 fun p hp => archivable_cut (hcoefficients p hp)
  have hallowed : ∀ m ∈ (cuts (first :: projectors)).members,
      m.tree.root.AllFinite (· ≠ undefined) ∧ m.tree.depth ≤ 123 := by
    refine List.forall_mem_map.2 fun p hp => ⟨(hbinary p hp).allFinite, ?_⟩
    rw [Tree.depth_eq]
    exact Nat.one_le_ofNat
  obtain ⟨f, hf, hroots⟩ := Forest.exists_ofText (by decide +kernel) (List.cons_ne_nil _ _)
    harchivable hallowed
  have hcuts : f.members.map (·.tree.root) = (first :: projectors).map cut := by
    rw [hroots, cuts, List.map_map]
    rfl
  refine ⟨f, hf, ?_, fun width => ?_⟩
  · exact (takes_cut_iff.1 (Forest.takes_first_of_ofText hf hcuts)).symm
  · rw [Forest.takes_iff_forall_root, hcuts, List.forall_mem_map]
    exact forall₂_congr fun p _ => takes_cut_iff

end Exact

open Exact in
/-- A restored forest of cuts in two columns is of one width, and refuses a row of one column. -/
theorem restored_forest_widths_twoColumns : ∃ f : Forest Exact String,
    Forest.ofText (cuts [[.number 1, .number 0], [.number 0, .number 1]]).toText = .ok f ∧ f.Sized ∧
      f.confusion narrow = .error (.shapeMismatch .featureCount 2 1) := by
  obtain ⟨f, hf, hwidth, htakes⟩ := exists_ofText_cuts [.number 1, .number 0]
    [[.number 0, .number 1]] (by decide +kernel)
  obtain ⟨-, -, hjudges, -⟩ := restored_forest_widths Exact hf
  have hrefused := (hjudges narrow).refused
  rw [hwidth] at hrefused
  refine ⟨f, hf, Forest.sized_iff_takes.2 fun width hw => (htakes width).2 ?_,
    (hrefused nofun Nat.two_pos).1⟩
  obtain rfl : width = 2 := by
    rw [hwidth] at hw
    exact hw.resolve_right nofun
  decide

open Exact in
/-- Cuts in a single column and in two are restored as one forest. There are no rows that
it predicts, and it does not refuse to score a row of one column. -/
theorem widths_differ_oneColumn : ∃ f : Forest Exact String,
    Forest.ofText (cuts [[.number 1], [.number 1, .number 0]]).toText = .ok f ∧ f.width = 1 ∧
      (∀ width, ¬ f.Takes width) ∧ f.confusion narrow = .error (.misuse .rowWidth) ∧
      (f.errorRate narrow : Except _ Exact) = .error (.misuse .rowWidth) ∧
      f.predict narrow.features = .error (.misuse .rowWidth) := by
  obtain ⟨f, hf, hwidth, htakes⟩ := exists_ofText_cuts [.number 1] [[.number 1, .number 0]]
    (by decide +kernel)
  have hnone : ∀ width, ¬ f.Takes width := fun width h => by
    obtain ⟨hone, htwo⟩ := List.forall_mem_cons.1 ((htakes width).1 h)
    exact absurd (hone.trans (List.forall_mem_singleton.1 htwo).symm) (by decide)
  have hpredicts := (Forest.bare_of_ofText hf).covered.predicts (Forest.takes_width_of_ofText hf)
    narrow.features
  have hjudges : f.Judges Exact narrow := hpredicts.judges
  obtain ⟨hconfusion, herror⟩ := hjudges.breaksOff (.inl hwidth.symm) (hnone 1) rfl
  exact ⟨f, hf, hwidth, hnone, hconfusion, herror, hpredicts.breaksOff (hnone 1) nofun⟩

end PursuitForest
