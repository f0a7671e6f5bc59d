import PursuitForest.Proofs.Forest.Voting
import PursuitForest.Proofs.Importance.Vectors
import PursuitForest.Proofs.Tree.DrawnColumns
import PursuitForest.Proofs.Tree.Widths
/-!
Rows of which width a forest takes.

A forest predicts rows that all its trees take. Scoring looks at the width of the first tree only, which
is that of all trees where the forest was fitted: then trees and forests take rows as wide as the data
they were fitted to, rank the columns of these, and refuse to score data of any other width
(`fitted_widths`).
-/

namespace PursuitForest

/-! ### Forests -/

namespace Forest

section
variable {F L : Type} [Label L]

/-- All trees take rows of a width. -/
def Takes (f : Forest F L) (width : Nat) : Prop := ∀ m ∈ f.members, m.tree.root.Takes width

/-- A forest whose projectors are all of its width. -/
def Sized (f : Forest F L) : Prop := ∀ m ∈ f.members, m.tree.root.Sized f.width

theorem Sized.takes {f : Forest F L} {width : Nat} (h : f.Sized) (hwidth : width = f.width ∨ f.width = 0) :
    f.Takes width :=
  fun m hm => (h m hm).takes hwidth

end

variable {F L : Type} [Scalar F] [Label L] {f : Forest F L} {x : FeatureTable F}

theorem Takes.exists_predictRow (h : f.Takes x.width) :
    ∀ m ∈ f.members, ∀ row ∈ x.rows, ∃ vote, m.tree.predictRow row = .ok vote :=
  fun m hm row hrow => Node.Takes.exists_predictRow (x.shaped row hrow ▸ h m hm)

/-- Where every tree takes rows of one width and some tree takes others than there are, no row is
predicted. -/
theorem predict_eq_error (h : ∀ m ∈ f.members, ∃ width, m.tree.root.Takes width)
    (hx : ¬ f.Takes x.width) (hrows : x.rows ≠ []) : f.predict x = .error (.misuse .rowWidth) := by
  have hvotes : (f.members.mapM fun m => m.tree.predict x) = .error (.misuse .rowWidth) := by
    refine mapM_eq_error (fun m hm => ?_) ?_
    · obtain ⟨width, htakes⟩ := h m hm
      by_cases hm : m.tree.root.Takes x.width
      · obtain ⟨labels, hlabels, -⟩ := Tree.exists_predict_of_takes hm
        exact .inl ⟨labels, hlabels⟩
      · exact .inr (Tree.predict_eq_error htakes hm hrows)
    · obtain ⟨m, hm⟩ := not_forall.1 hx
      obtain ⟨hm, hstrays⟩ := Classical.not_imp.1 hm
      obtain ⟨width, htakes⟩ := h m hm
      exact ⟨m, hm, Tree.predict_eq_error htakes hstrays hrows⟩
  rw [predict, votes, hvotes]
  rfl

/-- Rows on which no tree fails have labels and shares. -/
theorem Covered.exists_predict (hf : f.Covered)
    (hx : ∀ m ∈ f.members, ∀ row ∈ x.rows, ∃ vote, m.tree.predictRow row = .ok vote) :
    ∃ labels shares, f.predict x = .ok labels ∧ labels.length = x.size ∧
      (∀ targets, targets.length = x.size → f.predictInto x targets = .ok labels) ∧
      f.voteProportions x = .ok shares ∧ shares.size = x.size := by
  obtain ⟨rows, hrows, hlength, hsize, -⟩ := exists_votes hx
  obtain ⟨labels, hlabels⟩ := hf.exists_winners hsize
  have hcount : labels.length = x.size := by
    have hmap := congrArg List.length hlabels
    rw [List.length_map, List.length_map, hlength] at hmap
    exact hmap.symm
  obtain ⟨shares, hshares, hshareRows⟩ : ∃ shares, f.voteProportions x = .ok shares ∧
      shares.rows.length = rows.length := by
    rw [voteProportions, hrows]
    exact ⟨_, rfl, List.length_map _⟩
  refine ⟨labels, shares, ?_, hcount, fun targets htargets => ?_, hshares, hshareRows.trans hlength⟩
  · rw [predict, hrows]
    exact congrArg Except.ok (filterMap_winner hlabels)
  · rw [predictInto, if_neg (not_not_intro htargets.symm), hrows]
    exact congrArg Except.ok (zipWith_winners hlabels (htargets.trans hcount.symm))

/-- The width of the first tree stands for all. -/
theorem confusion_eq_score (f : Forest F L) (d : Dataset F L) :
    f.confusion d = score f.width d (f.predict d.features) := by
  rw [confusion, width]
  cases f.members with
  | nil => exact (score_eq_of_width (.inr rfl)).symm
  | cons m members => rfl

theorem errorRate_eq_map {R : Type} [Scalar R] (f : Forest F L) (d : Dataset F L) :
    (f.errorRate d : Except (Error F L) R) = (f.confusion d).map (·.error) :=
  bind_pure_comp _ (f.confusion d)

/-- A forest of trees of one width refuses data of another, and scores any other. -/
theorem Sized.scores {R : Type} [Scalar R] (h : f.Sized) (hf : f.Covered) (d : Dataset F L) :
    Scores f.width d (f.confusion d) (f.errorRate d : Except (Error F L) R) := by
  rw [errorRate_eq_map, confusion_eq_score]
  refine scores_of_predicted fun hwidth => ?_
  obtain ⟨labels, -, hlabels, hlength, -⟩ := hf.exists_predict (x := d.features)
    (h.takes hwidth).exists_predictRow
  exact ⟨labels, hlabels, hlength.trans (List.length_map _)⟩

end Forest

/-! ### Fitted models -/

section
variable {F L G : Type} [Scalar F] [Eigensolver F] [Label L] [RandomSource G]

/-- What becomes of rows and data that are handed to a tree of some width: rows of this width are
predicted and their columns ranked, unless the ranking is for trees of a forest only, and data of any
other width are refused. -/
structure Tree.Handles (R : Type) [Scalar R] [Rated F R] (t : Tree F L) (width : Nat) : Prop where
  width_eq : t.width = width
  predicts : ∀ x : FeatureTable F, x.width = width → ∃ labels, t.predict x = .ok labels ∧
    labels.length = x.size ∧ ∀ targets, targets.length = x.size → t.predictInto x targets = .ok labels
  ranks : ∀ (x : FeatureTable F) (scale : ColumnScale F), x.width = width →
    ColumnScale.fit (L := L) x = .ok scale → ∀ r : Ranking,
      (∃ v, r.ofTree t scale = .ok v ∧ v.length = width) ∨
        ∃ ranking, r.ofTree t scale = .error (.unsupported ranking)
  scores : ∀ e : Dataset F L, Scores width e (t.confusion e) (t.errorRate e : Except (Error F L) R)

/-- What becomes of rows and data that are handed to a forest of some width. -/
structure Forest.Handles (R G : Type) [RandomSource G] [Scalar R] [Rated F R] (f : Forest F L)
    (width : Nat) : Prop where
  width_eq : f.width = width
  predicts : ∀ x : FeatureTable F, x.width = width → ∃ labels shares, f.predict x = .ok labels ∧
    labels.length = x.size ∧ (∀ targets, targets.length = x.size →
      f.predictInto x targets = .ok labels) ∧ f.voteProportions x = .ok shares ∧ shares.size = x.size
  ranks : ∀ (x : FeatureTable F) (scale : ColumnScale F), x.width = width →
    ColumnScale.fit (L := L) x = .ok scale → ∀ (r : Ranking), ∀ m ∈ f.members,
      ∃ v, r.ofMember G m scale = .ok v ∧ v.length = width
  importance : ∀ r : Ranking, ∃ v, f.importance G r = .ok v ∧ v.length = width
  scores : ∀ e : Dataset F L, Scores width e (f.confusion e) (f.errorRate e : Except (Error F L) R)

variable {R : Type} [Scalar R] [Rated F R] {d : Dataset F L}

omit [Eigensolver F] in
theorem Tree.Sized.ranks {t : Tree F L} (h : t.Sized) {scale : ColumnScale F}
    (hdeviation : scale.deviation.length = t.width) (r : Ranking) :
    (∃ v, r.ofTree t scale = .ok v ∧ v.length = t.width) ∨
      ∃ ranking, r.ofTree t scale = .error (.unsupported ranking) := by
  cases r with
  | projector =>
    exact .inl ((vectorKind_length t.width).exists_projectorImportance rfl hdeviation
      fun c hc => (h c hc).1)
  | adjusted => exact .inr ⟨_, rfl⟩
  | permutation seed => exact .inr ⟨_, rfl⟩

omit [Eigensolver F] in
/-- A tree whose projectors are of its width handles rows of that width. -/
theorem Tree.Sized.handles {t : Tree F L} (h : t.Sized) : t.Handles R t.width where
  width_eq := rfl
  predicts x hx := by
    obtain ⟨labels, hlabels, hlength⟩ := Tree.exists_predict_of_takes (t := t) (x := x)
      (h.takes (.inl hx))
    refine ⟨labels, hlabels, hlength, fun targets htargets => ?_⟩
    rw [predictInto, if_neg (not_not_intro htargets.symm), hlabels]
  ranks x scale hx hscale := h.ranks ((length_of_fit hscale).2.trans hx)
  scores := h.scores

/-- What a tree that stands alone was grown on. -/
theorem exists_grow_of_treeFit {settings : TreeSettings.Checked F} {t : Tree F L}
    (h : Tree.fit G settings d = .ok t) : t.width = d.width ∧ t.training = some (.ofDataset d) ∧
      ∃ g', grow settings.val (.ofDataset d) (RandomSource.ofSeed settings.val.seed : G) =
        (.ok t.root, g') := by
  obtain ⟨root, hroot, h⟩ := bind_eq_ok_iff.1 h
  cases h
  exact ⟨rfl, rfl, _, Prod.ext hroot rfl⟩

omit [Scalar F] [Eigensolver F] in
theorem GroupedDataset.rows_ne_nil {data : GroupedDataset F L} (h : data.isEmpty = false) :
    data.rows ≠ [] := by
  obtain ⟨c, cs, hgroups⟩ := List.exists_cons_of_ne_nil (List.isEmpty_eq_false_iff.1 h)
  have hc : c ∈ data.groups := by
    rw [hgroups]
    exact List.mem_cons_self
  intro hrows
  exact data.inhabited c hc (List.flatMap_eq_nil_iff.1 hrows c hc)

omit [Eigensolver F] in
/-- Columns of data with rows have a scale. -/
theorem ColumnScale.exists_fit {data : GroupedDataset F L} (h : data.isEmpty = false) :
    ∃ scale, ColumnScale.fit (L := L) data.features = .ok scale := by
  have hrows : data.features.rows.isEmpty = false :=
    List.isEmpty_eq_false_iff.2 (GroupedDataset.rows_ne_nil h)
  rw [ColumnScale.fit, hrows]
  exact ⟨_, rfl⟩

/-- A tree ranks the columns of the data that it was fitted to. -/
theorem importance_of_treeFit {settings : TreeSettings.Checked F} {t : Tree F L}
    (h : Tree.fit G settings d = .ok t) (r : Ranking) :
    (∃ v, t.importance r = .ok v ∧ v.length = d.width) ∨
      ∃ ranking, t.importance r = .error (.unsupported ranking) := by
  obtain ⟨hwidth, htraining, g', hgrow⟩ := exists_grow_of_treeFit h
  obtain ⟨scale, hscale⟩ := ColumnScale.exists_fit (isEmpty_of_grow hgrow)
  have himportance : t.importance r = r.ofTree t scale := by
    rw [Tree.importance, htraining]
    simp only [bind, Except.bind, hscale]
  rw [himportance, ← hwidth]
  exact (sized_of_grow hgrow hwidth).ranks ((length_of_fit hscale).2.trans hwidth.symm) r

namespace Forest

variable {crew : Crew} {settings : ForestSettings.Checked F} {f : Forest F L} {m : Member F L}

theorem Trained.sized {settings : ForestSettings F} {data : GroupedDataset F L}
    (h : Trained G settings data m) : m.tree.Sized := by
  obtain ⟨g', hgrow⟩ := h.grows
  exact sized_of_grow hgrow h.width_eq

/-- The first tree has the width of the data. -/
theorem Grown.width_eq {settings : ForestSettings F} {data : GroupedDataset F L}
    (h : f.Grown G settings data) (hsize : settings.size ≠ 0) : f.width = data.width := by
  have hpos : f.members.length = settings.size := h.size_eq
  rw [width]
  cases hmembers : f.members with
  | nil =>
    rw [hmembers] at hpos
    exact absurd hpos.symm hsize
  | cons m members => exact (h.trained m (by rw [hmembers]; exact List.mem_cons_self)).width_eq

theorem Grown.sized {settings : ForestSettings F} {data : GroupedDataset F L}
    (h : f.Grown G settings data) (hsize : settings.size ≠ 0) : f.Sized := by
  intro m hm
  have htrained := h.trained m hm
  rw [h.width_eq hsize, ← htrained.width_eq]
  exact htrained.sized

/-- Forests are fitted to data with rows only. -/
theorem isEmpty_of_fit (h : fit G crew settings d = .ok f) : d.isEmpty = false :=
  (fit_eq_ok_iff.1 h).1

/-- The importance in a forest is a mean over the trees, each of which gives one to every column. -/
theorem exists_importance_of_fit (h : fit G crew settings d = .ok f) (G' : Type) [RandomSource G']
    (r : Ranking) : ∃ v, f.importance G' r = .ok v ∧ v.length = d.width := by
  have hgrown := grown_of_fit h
  have hempty : (GroupedDataset.ofDataset d).isEmpty = false := by
    rw [GroupedDataset.isEmpty_ofDataset, isEmpty_of_fit h]
  obtain ⟨scale, hscale⟩ := ColumnScale.exists_fit hempty
  obtain ⟨hmean, hdeviation⟩ := length_of_fit hscale
  have hkind := vectorKind_length (F := F) d.width
  have hmember : ∀ m ∈ f.members, ∃ v, r.ofMember G' m scale = .ok v ∧ v.length = d.width :=
    fun m hm => (hgrown.trained m hm).exists_ranked hmean hdeviation G' r
  have heach : Ends (fun _ => False) (fun v : List F => v.length = d.width) (f.importance G' r) := by
    rw [importance, requireTraining, hgrown.training_eq]
    simp only [bind, Except.bind, hscale]
    obtain ⟨each, heach⟩ := exists_mapM fun m hm => (hmember m hm).imp fun _ hv => hv.1
    rw [heach]
    refine Ends.bind (P := fun v : List F => v.length = d.width)
      (Ends.foldlM hkind.zeros fun v hv total htotal => ?_) fun total htotal => ?_
    · obtain ⟨m, hm, hvm⟩ := exists_of_mem_mapM heach hv
      obtain ⟨w, hw, hlength⟩ := hmember m hm
      rw [hvm] at hw
      cases hw
      obtain ⟨sum, hsum, hsumLength⟩ := hkind.exists_addVectors (L := L) htotal hlength
      rw [hsum]
      exact hsumLength
    · exact (List.length_map _).trans htotal
  exact heach.exists_ok

/-- A fitted forest handles rows as wide as the data. -/
theorem handles_of_fit (h : fit G crew settings d = .ok f) (G' : Type) [RandomSource G'] :
    f.Handles R G' d.width := by
  have hgrown := grown_of_fit h
  have hcovered := hgrown.covered settings.property.1
  have hsized := hgrown.sized settings.property.1
  have hwidth := hgrown.width_eq settings.property.1
  refine ⟨hwidth, fun x hx => ?_, fun x scale hx hscale r m hm => ?_,
    fun r => exists_importance_of_fit h G' r, fun e => ?_⟩
  · exact hcovered.exists_predict (hsized.takes (.inl (hx.trans hwidth.symm))).exists_predictRow
  · obtain ⟨hmean, hdeviation⟩ := length_of_fit hscale
    exact (hgrown.trained m hm).exists_ranked (hmean.trans hx) (hdeviation.trans hx) G' r
  · have hscores := hsized.scores (R := R) hcovered e
    rw [hwidth] at hscores
    exact hscores

end Forest

end

/-- Trees and forests fitted to data handle rows as wide as the data, and refuse other data in an orderly
way. All their projectors are as long as the rows are wide, with coefficients other than zero only in
the columns that were drawn for their split. -/
theorem fitted_widths (F L R G G' : Type) [Scalar F] [Eigensolver F] [Label L] [Scalar R] [Rated F R]
    [RandomSource G] [RandomSource G'] :
    (∀ (settings : TreeSettings.Checked F) (d : Dataset F L) (t : Tree F L),
      Tree.fit G settings d = .ok t → t.Handles R d.width ∧
        (∀ r : Ranking, (∃ v, t.importance r = .ok v ∧ v.length = d.width) ∨
          ∃ ranking, t.importance r = .error (.unsupported ranking)) ∧
        ∀ c ∈ t.root.conditions, DrawnFor settings.val
          (Builder.start (.ofDataset d) (RandomSource.ofSeed settings.val.seed : G)) d.width c) ∧
    ∀ (crew : Crew) (settings : ForestSettings.Checked F) (d : Dataset F L) (f : Forest F L),
      Forest.fit G crew settings d = .ok f → f.Handles R G' d.width ∧
        ∀ m ∈ f.members, m.tree.Handles R d.width ∧ ∃ draw g,
          BootstrapDraw.stratified (.ofDataset d) (RandomSource.ofSeed m.seed : G) = (draw, g) ∧
            m.draw = some draw ∧ ∀ c ∈ m.tree.root.conditions,
              DrawnFor settings.val.tree (Builder.start draw.sampleData g) d.width c := by
  refine ⟨fun settings d t ht => ?_, fun crew settings d f hf => ⟨Forest.handles_of_fit hf G', ?_⟩⟩
  · obtain ⟨hwidth, -, g', hgrow⟩ := exists_grow_of_treeFit ht
    refine ⟨?_, importance_of_treeFit ht, fun c hc => drawnFor_of_grow hgrow hc⟩
    rw [← hwidth]
    exact (sized_of_grow hgrow hwidth).handles
  · intro m hm
    have htrained := (Forest.grown_of_fit hf).trained m hm
    have hwidth : m.tree.width = d.width := htrained.width_eq
    obtain ⟨g', hgrow⟩ := htrained.grows
    refine ⟨?_, _, _, rfl, htrained.draw_eq, fun c hc => drawnFor_of_grow hgrow hc⟩
    rw [← hwidth]
    exact htrained.sized.handles

/-- The rates of exact scalars are exact. -/
instance : Rated Exact Exact := ⟨id⟩

/-- A tree and a forest with one column a split are fitted to three classes of two columns. They have
conditions, with one coefficient other than zero each at most, and refuse data of one column. -/
theorem fitted_widths_threeClasses : ∃ t f,
    Tree.fit Xoshiro Exact.oneColumn Exact.threeClasses.toDataset = .ok t ∧
      Forest.fit Xoshiro .orderly Forest.threeTrees Exact.threeClasses.toDataset = .ok f ∧
      t.root.conditions.length = 2 ∧ f.size = 3 ∧
      (∀ c ∈ t.root.conditions, c.projector.length = 2 ∧
        (c.projector[0]? = some 0 ∨ c.projector[1]? = some 0)) ∧
      (∃ shares, f.voteProportions Forest.twoRows = .ok shares ∧ shares.size = 2) ∧
      t.confusion Forest.equalRows = .error (.shapeMismatch .featureCount 2 1) ∧
      f.confusion Forest.equalRows = .error (.shapeMismatch .featureCount 2 1) := by
  obtain ⟨t, ht, htree⟩ : ∃ t, Tree.fit Xoshiro Exact.oneColumn Exact.threeClasses.toDataset = .ok t ∧
      t.root.conditions.length = 2 :=
    exists_ok_of_any (by decide +kernel)
  obtain ⟨f, hf, hforest⟩ : ∃ f, Forest.fit Xoshiro .orderly Forest.threeTrees Exact.threeClasses.toDataset =
      .ok f ∧ f.size = 3 :=
    exists_ok_of_any (by decide +kernel)
  obtain ⟨htrees, hforests⟩ := fitted_widths Exact Nat Exact Xoshiro Xoshiro
  obtain ⟨htreeHandles, -, hdrawn⟩ := htrees _ _ t ht
  obtain ⟨hforestHandles, -⟩ := hforests _ _ _ f hf
  obtain ⟨labels, shares, -, -, -, hshares, hsize⟩ := hforestHandles.predicts Forest.twoRows rfl
  refine ⟨t, f, ht, hf, htree, hforest, fun c hc => ?_, ⟨shares, hshares, hsize⟩,
    ((htreeHandles.scores Forest.equalRows).refused nofun Nat.two_pos).1,
    ((hforestHandles.scores Forest.equalRows).refused nofun Nat.two_pos).1⟩
  obtain ⟨columns, -, hcount, hconfined, -⟩ := hdrawn c hc
  obtain ⟨j, rfl⟩ := List.length_eq_one_iff.1 hcount
  refine ⟨hconfined.length_eq, ?_⟩
  by_cases hj : j = 0
  · refine .inr (hconfined.zero_elsewhere 1 Nat.one_lt_two ?_)
    rw [hj]
    decide
  · exact .inl (hconfined.zero_elsewhere 0 Nat.two_pos fun hmem =>
      hj (List.mem_singleton.1 hmem).symm)

end PursuitForest
