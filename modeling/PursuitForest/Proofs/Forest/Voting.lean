import PursuitForest.Proofs.Archive.Nodes
import PursuitForest.Proofs.Archive.Restored
import PursuitForest.Proofs.Forest.Plurality
import PursuitForest.Proofs.Forest.Size
import PursuitForest.Proofs.OrderedScalar
import PursuitForest.Proofs.Tree.Prediction
/-!
Predictions of a forest.

A forest that was fitted or restored has trees, and they answer with classes of the forest only
(`Obtained.covered`). So no vote is lost where votes are counted by class, and the class with the
largest share is the one that is predicted (`predict_voteProportions`): both come of the same votes,
which the trees cast on a row whatever the other rows are.
-/

namespace PursuitForest

/-- Shares of one number are in the order of the counts, as they are when nothing is rounded. -/
def ExactShares (F : Type) [Scalar F] : Prop :=
  ∀ a b n : Nat, 0 < n →
    ((Scalar.ofNat a / Scalar.ofNat n : F) < Scalar.ofNat b / Scalar.ofNat n ↔ a < b)

/-- Shares in an ordered field are exact. -/
theorem OrderedScalar.exactShares (K : Type) [OrderedScalar K] : ExactShares K := by
  intro a b n hn
  have hpos : (0 : K) < n := Nat.cast_pos.2 hn
  exact (div_lt_div_iff_of_pos_right hpos).trans Nat.cast_lt

theorem Exact.exactShares : ExactShares Exact := by
  intro a b n hn
  have hpos : (0 : ℚ) < n := Nat.cast_pos.2 hn
  have hshare : ∀ k : Nat, (Scalar.ofNat k / Scalar.ofNat n : Exact) = .number (k / n) :=
    fun k => if_neg hpos.ne'
  have hlt : ∀ p q : ℚ, Exact.number p < .number q ↔ p < q := fun p q => decide_eq_true_iff
  rw [hshare, hshare, hlt, div_lt_div_iff_of_pos_right hpos, Nat.cast_lt]

/-- A label that stands at the first of the largest values. -/
def FirstLargest {F L : Type} [Scalar F] (labels : List L) (values : List F) (label : L) : Prop :=
  ∃ (j : Nat) (value : F), labels[j]? = some label ∧ values[j]? = some value ∧
    (∀ other ∈ values, ¬ value < other) ∧ ∀ i < j, ∀ other, values[i]? = some other → other < value

/-- The most voted class has the first of the largest shares. -/
theorem MostVoted.firstLargest {F L : Type} [Scalar F] [Label L] (hF : ExactShares F)
    {classes : LabelSet L} {votes : List L} {label : L} (h : MostVoted votes label)
    (hclass : label ∈ classes) {n : Nat} (hn : 0 < n) :
    FirstLargest classes.toList (classes.toList.map fun c =>
      (Scalar.ofNat (votes.count c) / Scalar.ofNat n : F)) label := by
  obtain ⟨j, hj, hlabel⟩ := List.mem_iff_getElem.1 hclass
  have hlabel' : classes.toList[j]? = some label := List.getElem?_eq_some_iff.2 ⟨hj, hlabel⟩
  refine ⟨j, Scalar.ofNat (votes.count label) / Scalar.ofNat n, hlabel', ?_, ?_, ?_⟩
  · rw [List.getElem?_map, hlabel']
    rfl
  · intro other hother
    obtain ⟨c, -, rfl⟩ := List.mem_map.1 hother
    rw [hF _ _ n hn]
    exact Nat.not_lt.2 (h.count_le c)
  · intro i hi other hother
    rw [List.getElem?_map] at hother
    obtain ⟨c, hc, rfl⟩ := Option.map_eq_some_iff.1 hother
    obtain ⟨hilt, rfl⟩ := List.getElem?_eq_some_iff.1 hc
    -- classes are ascending, so an earlier one with as many votes would have won
    have hlt : classes.toList[i] < classes.toList[j] :=
      List.pairwise_iff_getElem.1 classes.ascending i j hilt hj hi
    rw [hF _ _ n hn]
    refine Nat.lt_of_le_of_ne (h.count_le _) fun heq => ?_
    have hle := h.least _ heq
    rw [← hlabel] at hle
    exact Label.lt_irrefl _ (Std.lt_of_lt_of_le hlt hle)

namespace Forest

/-! ### Votes on a row -/

section
variable {F L : Type} [Scalar F] [Label L] {f : Forest F L} {x : FeatureTable F}

/-- The votes of all trees on one row. -/
def votesOn (f : Forest F L) (row : List F) : Except (Error F L) (List L) :=
  f.members.mapM fun m => m.tree.predictRow row

/-- Tables of predictions, one for every tree, hold the votes on every row. -/
theorem exists_predictions {rows : List (List F)} : ∀ {members : List (Member F L)},
    (∀ m ∈ members, ∀ row ∈ rows, ∃ vote, m.tree.predictRow row = .ok vote) →
      ∃ predictions, (members.mapM fun m => rows.mapM m.tree.predictRow) = .ok predictions ∧
        ∀ (i : Nat) (row : List F), rows[i]? = some row →
          (members.mapM fun m => m.tree.predictRow row) = .ok (predictions.filterMap (·[i]?))
  | [], _ => ⟨[], rfl, fun _ _ _ => rfl⟩
  | m :: members, h => by
      obtain ⟨hm, hmembers⟩ := List.forall_mem_cons.1 h
      obtain ⟨predictions, hpredictions, hvotes⟩ := exists_predictions hmembers
      obtain ⟨first, hfirst⟩ := exists_mapM hm
      refine ⟨first :: predictions, ?_, fun i row hrow => ?_⟩
      · rw [List.mapM_cons, hfirst, hpredictions]
        rfl
      · obtain ⟨vote, hvote, hpredict⟩ := getElem?_of_mapM hfirst hrow
        rw [List.mapM_cons, hpredict, hvotes i row hrow, List.filterMap_cons, hvote]
        rfl

/-- If no tree fails, every row has its votes. -/
theorem exists_votes
    (hx : ∀ m ∈ f.members, ∀ row ∈ x.rows, ∃ vote, m.tree.predictRow row = .ok vote) :
    ∃ rows, f.votes x = .ok rows ∧ rows.length = x.size ∧
      (∀ votes ∈ rows, votes.length = f.size) ∧
      ∀ (i : Nat) (row : List F), x.rows[i]? = some row →
        ∃ votes, rows[i]? = some votes ∧ f.votesOn row = .ok votes := by
  obtain ⟨predictions, hpredictions, hvotes⟩ := exists_predictions hx
  have hpredict : (f.members.mapM fun m => m.tree.predict x) = .ok predictions := hpredictions
  refine ⟨(List.range x.size).map fun i => predictions.filterMap (·[i]?), ?_, by simp,
    fun votes hmem => ?_, fun i row hrow => ⟨predictions.filterMap (·[i]?), ?_, hvotes i row hrow⟩⟩
  · rw [votes, hpredict]
    simp only [bind, Except.bind, List.filterMap_map, Function.comp_def, List.getElem?_toArray]
    rfl
  · obtain ⟨i, hi, rfl⟩ := List.mem_map.1 hmem
    exact length_of_mapM (hvotes i _ (List.getElem?_eq_getElem (List.mem_range.1 hi)))
  · have hi : i < x.size := (List.getElem?_eq_some_iff.1 hrow).1
    rw [List.getElem?_map, List.getElem?_range hi]
    rfl

end

/-! ### Forests that were fitted or restored -/

section
variable {F L : Type} [Label L]

/-- A forest has trees, which answer with its classes only. -/
structure Covered (f : Forest F L) : Prop where
  size_pos : 0 < f.size
  mem_classes : ∀ m ∈ f.members, ∀ label ∈ m.tree.root.responses, label ∈ f.classes

/-- A forest without observations has the classes of its trees. -/
theorem mem_classes_of_training_eq_none {f : Forest F L} (h : f.training = none) {label : L} :
    label ∈ f.classes ↔ ∃ m ∈ f.members, label ∈ m.tree.classes := by
  have hunion : ∀ members : List (Member F L),
      label ∈ members.foldr (fun m s => LabelSet.union m.tree.classes s) .empty ↔
        ∃ m ∈ members, label ∈ m.tree.classes := by
    intro members
    induction members with
    | nil => simp
    | cons m members ih => rw [List.foldr_cons, LabelSet.mem_union, ih, List.exists_mem_cons_iff]
  rw [classes, h]
  exact hunion f.members

/-- The classes of a bare forest are those of its trees. -/
theorem Bare.covered {f : Forest F L} (h : f.Bare) : f.Covered where
  size_pos := h.size_pos
  mem_classes m hm label hlabel := (mem_classes_of_training_eq_none h.training_eq).2
    ⟨m, hm, h.namesResponses m hm label hlabel⟩

end

variable {F L G : Type} [Scalar F] [Eigensolver F] [Label L] [RandomSource G]
  {settings : ForestSettings F} {data : GroupedDataset F L} {m : Member F L} {f : Forest F L}

/-- A tree answers with declared classes. -/
theorem Trained.mem_classes (h : Trained G settings data m) {label : L}
    (hlabel : label ∈ m.tree.root.responses) : label ∈ data.classes := by
  obtain ⟨g', hgrow⟩ := h.grows
  obtain ⟨c, hc, rfl⟩ := GroupedDataset.mem_presentClasses.1 (mem_presentClasses_of_grow hgrow hlabel)
  exact (BootstrapDraw.stratified data (RandomSource.ofSeed m.seed : G)).1.sampleData.covered c hc

/-- A tree predicts every row that is as wide as the data. -/
theorem Trained.exists_predictRow (h : Trained G settings data m) {row : List F}
    (hrow : row.length = data.width) : ∃ vote, m.tree.predictRow row = .ok vote := by
  obtain ⟨g', hgrow⟩ := h.grows
  exact exists_predictRow_of_grow hgrow hrow

theorem Grown.covered (h : f.Grown G settings data) (hsize : settings.size ≠ 0) : f.Covered := by
  refine ⟨?_, fun m hm label hlabel => ?_⟩
  · rw [h.size_eq]
    exact Nat.pos_of_ne_zero hsize
  · rw [classes, h.training_eq]
    exact (h.trained m hm).mem_classes hlabel

/-- A forest that was fitted to observations or restored from a text. -/
inductive Obtained (G : Type) [RandomSource G] [ScalarCodec F] [LabelCodec L] : Forest F L → Prop
  | fitted {crew : Crew} {settings : ForestSettings.Checked F} {d : Dataset F L} {f : Forest F L}
      (h : fit G crew settings d = .ok f) : Obtained G f
  | restored {s : String} {f : Forest F L} (h : ofText s = .ok f) : Obtained G f

theorem Obtained.covered [ScalarCodec F] [LabelCodec L] (h : Obtained G f) : f.Covered := by
  cases h with
  | @fitted crew settings d f h => exact (grown_of_fit h).covered settings.property.1
  | restored h => exact (bare_of_ofText h).covered

/-! ### Predictions and shares -/

/-- What the votes on a row come to: a label that is predicted, and a share for every class. -/
structure Decides (f : Forest F L) (votes : List L) (label : L) (shares : List F) : Prop where
  length_votes : votes.length = f.size
  mostVoted : MostVoted votes label
  mem_classes : ∀ vote ∈ votes, vote ∈ f.classes
  total_eq : totalCount (f.classes.toList.map fun c => votes.count c) = f.size
  shares_eq : shares = f.classes.toList.map fun c =>
    (Scalar.ofNat (votes.count c) / Scalar.ofNat f.size : F)
  firstLargest : ExactShares F → FirstLargest f.classes.toList shares label

omit [Eigensolver F] in
/-- The votes that are cast on a row decide. -/
theorem Covered.decides (hf : f.Covered) {row : List F} {votes : List L}
    (hvotes : f.votesOn row = .ok votes) {label : L} (hlabel : winner votes = some label) :
    f.Decides votes label (f.classes.toList.map fun c =>
      (Scalar.ofNat (votes.count c) / Scalar.ofNat f.size : F)) := by
  have hlength : votes.length = f.size := length_of_mapM hvotes
  have hmem : ∀ vote ∈ votes, vote ∈ f.classes := by
    intro vote hvote
    obtain ⟨m, hm, hpredict⟩ := exists_of_mem_mapM hvotes hvote
    exact hf.mem_classes m hm vote (Node.mem_responses_of_predictRow hpredict)
  have hmost := winner_eq_some_iff.1 hlabel
  refine ⟨hlength, hmost, hmem, ?_, rfl, fun hF => ?_⟩
  · rw [totalCount_count f.classes hmem, hlength]
  · exact hmost.firstLargest hF (hmem label hmost.voted) hf.size_pos

omit [Scalar F] [Eigensolver F] in
/-- Every row has a winner. -/
theorem Covered.exists_winners (hf : f.Covered) {rows : List (List L)}
    (hrows : ∀ votes ∈ rows, votes.length = f.size) :
    ∃ labels : List L, rows.map winner = labels.map some := by
  induction rows with
  | nil => exact ⟨[], rfl⟩
  | cons votes rows ih =>
    obtain ⟨hvotes, hrest⟩ := List.forall_mem_cons.1 hrows
    obtain ⟨labels, hlabels⟩ := ih hrest
    have hne : votes ≠ [] := by
      rintro rfl
      exact absurd hvotes hf.size_pos.ne
    obtain ⟨label, hlabel⟩ := exists_winner hne
    exact ⟨label :: labels, by rw [List.map_cons, List.map_cons, hlabel, hlabels]⟩

omit [Scalar F] [Eigensolver F] in
/-- Where every row has a winner, none is left out. -/
theorem filterMap_winner {rows : List (List L)} {labels : List L}
    (h : rows.map winner = labels.map some) : rows.filterMap winner = labels := by
  calc rows.filterMap winner = (rows.map winner).filterMap id := by
        rw [List.filterMap_map]
        rfl
    _ = labels := by
        rw [h, List.filterMap_map]
        exact List.filterMap_some

omit [Scalar F] [Eigensolver F] in
/-- Winners take the places of all targets. -/
theorem zipWith_winners : ∀ {targets labels : List L} {rows : List (List L)},
    rows.map winner = labels.map some → targets.length = labels.length →
      List.zipWith (fun target votes => (winner votes).getD target) targets rows = labels
  | [], [], rows, _, _ => List.zipWith_nil_left
  | target :: targets, label :: labels, votes :: rows, hrows, hlength => by
      obtain ⟨hvotes, hrest⟩ := List.cons.inj hrows
      rw [List.zipWith_cons_cons, hvotes, zipWith_winners hrest (Nat.succ.inj hlength)]
      rfl

/-- On rows on which no tree fails, predictions, in whatever way they are asked for, and shares come
of the votes on every row, which depend on that row alone. -/
theorem predict_voteProportions [ScalarCodec F] [LabelCodec L] (hf : Obtained G f)
    {x : FeatureTable F}
    (hx : ∀ m ∈ f.members, ∀ row ∈ x.rows, ∃ vote, m.tree.predictRow row = .ok vote) :
    ∃ labels shares, f.predict x = .ok labels ∧ labels.length = x.size ∧
      (∀ targets, targets.length = x.size → f.predictInto x targets = .ok labels) ∧
      f.voteProportions x = .ok shares ∧ shares.size = x.size ∧
      ∀ (i : Nat) (row : List F), x.rows[i]? = some row → ∃ votes label rowShares,
        f.votesOn row = .ok votes ∧ labels[i]? = some label ∧ shares.rows[i]? = some rowShares ∧
          f.Decides votes label rowShares := by
  have hcovered := hf.covered
  obtain ⟨rows, hrows, hlength, hsize, hvotes⟩ := exists_votes hx
  obtain ⟨labels, hlabels⟩ := hcovered.exists_winners hsize
  have hcount : labels.length = x.size := by
    have hmap := congrArg List.length hlabels
    rw [List.length_map, List.length_map, hlength] at hmap
    exact hmap.symm
  obtain ⟨shares, hshares, hshareRows⟩ : ∃ shares, f.voteProportions x = .ok shares ∧
      shares.rows = rows.map fun votes => f.classes.toList.map fun c =>
        (Scalar.ofNat (votes.count c) / Scalar.ofNat f.size : F) := by
    rw [voteProportions, hrows]
    exact ⟨_, rfl, rfl⟩
  refine ⟨labels, shares, ?_, hcount, fun targets htargets => ?_, hshares, ?_, fun i row hrow => ?_⟩
  · rw [predict, hrows]
    exact congrArg Except.ok (filterMap_winner hlabels)
  · rw [predictInto, if_neg (not_not_intro htargets.symm), hrows]
    exact congrArg Except.ok (zipWith_winners hlabels (htargets.trans hcount.symm))
  · rw [FeatureTable.size, hshareRows, List.length_map, hlength]
  · obtain ⟨votes, hget, hon⟩ := hvotes i row hrow
    have hlabel := congrArg (·[i]?) hlabels
    simp only [List.getElem?_map, hget, Option.map_some] at hlabel
    obtain ⟨label, hlabel, hwinner⟩ := Option.map_eq_some_iff.1 hlabel.symm
    refine ⟨votes, label, _, hon, hlabel, ?_, hcovered.decides hon hwinner.symm⟩
    rw [hshareRows, List.getElem?_map, hget]
    rfl

/-- Three classes under other labels. -/
def byteClasses : Dataset Exact UInt8 := Exact.threeClasses.toDataset.relabel UInt8.ofNat

/-- A row on which all trees agree, and one on which they do not. -/
def twoRows : FeatureTable Exact :=
  ⟨2, [[.number 1, .number 20], [.number 30, .number 30]], by decide⟩

/-- The first row is of the first class; two of the three votes on the second row are for the
second class, which has the largest share. -/
theorem predict_voteProportions_byteClasses : ∃ f, fit Xoshiro .orderly threeTrees byteClasses = .ok f ∧
    f.predict twoRows = .ok [0, 1] ∧ ∃ shares rowShares, f.voteProportions twoRows = .ok shares ∧
      shares.rows[1]? = some rowShares ∧ FirstLargest f.classes.toList rowShares 1 := by
  have hpredict : ((fit Xoshiro .orderly threeTrees byteClasses).bind (·.predict twoRows)).toOption =
      some [0, 1] := by
    decide +kernel
  cases hf : fit Xoshiro .orderly threeTrees byteClasses with
  | error e => rw [hf] at hpredict; cases hpredict
  | ok f =>
    rw [hf] at hpredict
    have hrows : ∀ m ∈ f.members, ∀ row ∈ twoRows.rows, ∃ vote, m.tree.predictRow row = .ok vote :=
      fun m hm row hrow => ((grown_of_fit hf).trained m hm).exists_predictRow
        (twoRows.shaped row hrow)
    obtain ⟨labels, shares, hlabels, -, -, hshares, -, hdecides⟩ :=
      predict_voteProportions (.fitted hf) hrows
    obtain ⟨votes, label, rowShares, -, hlabel, hrowShares, hdecided⟩ := hdecides 1 _ rfl
    obtain rfl : labels = [0, 1] := by
      rw [Except.bind, hlabels] at hpredict
      exact Option.some.inj hpredict
    cases hlabel
    exact ⟨f, rfl, hlabels, shares, rowShares, hshares, hrowShares,
      hdecided.firstLargest Exact.exactShares⟩

end Forest
end PursuitForest
