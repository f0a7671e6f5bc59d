import PursuitForest.Proofs.Archive.Widths
import PursuitForest.Proofs.Confusion.Tally
/-!
Classes of restored forests.

A fitted forest has the classes that its data declare. They are not written: a restored forest has the
classes that its trees answer with, and these are the classes that have rows, since every sample has rows
of all of them (`Trained.spans`). So the shares of the votes lose the columns of declared classes
without rows, which no tree votes for (`restored_forest_votes`).
-/

namespace PursuitForest

namespace Forest

/-! ### Shares of votes -/

section
variable {F L : Type} [Scalar F] [Label L]

/-- The share of the votes on every row that each of some classes gets. -/
def shareTable (classes : LabelSet L) (n : Nat) (rows : List (List L)) : FeatureTable F where
  width := classes.size
  rows := rows.map fun votes =>
    classes.toList.map fun c => Scalar.ofNat (votes.count c) / Scalar.ofNat n
  shaped := List.forall_mem_map.2 fun _ _ => List.length_map _

/-- The columns of some classes among those of more. -/
def columnsOf (inner outer : LabelSet L) : List Nat := inner.toList.map (Confusion.place outer)

theorem voteProportions_eq_map (f : Forest F L) (x : FeatureTable F) :
    f.voteProportions x = (f.votes x).map (shareTable f.classes f.size) :=
  bind_pure_comp _ (f.votes x)

theorem getElem?_place {α : Type} {classes : LabelSet L} {c : L} (hc : c ∈ classes) (f : L → α) :
    (classes.toList.map f)[Confusion.place classes c]? = some (f c) := by
  rw [List.getElem?_map, Confusion.place, List.getElem?_idxOf hc]
  rfl

/-- The shares of fewer classes are some of the columns. -/
theorem keepColumns_shareTable {inner outer : LabelSet L} (h : ∀ c ∈ inner, c ∈ outer) (n : Nat)
    (rows : List (List L)) : (shareTable outer n rows : FeatureTable F).keepColumns
      (columnsOf inner outer) = shareTable inner n rows := by
  refine FeatureTable.ext ?_ ?_
  · have hinside : ∀ j ∈ columnsOf inner outer, j < outer.size :=
      List.forall_mem_map.2 fun c hc => Confusion.place_lt_size (h c hc)
    show (List.filter (· < outer.size) _).length = inner.size
    rw [List.filter_eq_self.2 fun j hj => decide_eq_true (hinside j hj), columnsOf, List.length_map]
    rfl
  · show (rows.map _).map _ = rows.map _
    rw [List.map_map]
    refine List.map_congr_left fun votes _ => ?_
    rw [Function.comp_apply, columnsOf, List.filterMap_map]
    exact (List.filterMap_congr fun c hc => getElem?_place (h c hc) _).trans
      (congrFun List.filterMap_eq_map' _)

end

/-! ### Classes of trees -/

section
variable {F L : Type} [Label L] {f : Forest F L}

/-- Trees of one set of classes make a forest of that set. -/
theorem classes_eq_of_roots (h : f.training = none) (hsome : f.members ≠ []) {classes : LabelSet L}
    (hroots : ∀ root ∈ f.members.map (·.tree.root), root.classes = classes) : f.classes = classes := by
  have hmembers := List.forall_mem_map.1 hroots
  refine LabelSet.ext_mem fun label => (mem_classes_of_training_eq_none h).trans ⟨?_, fun hlabel => ?_⟩
  · rintro ⟨m, hm, hlabel⟩
    rwa [← hmembers m hm]
  · obtain ⟨m, hm⟩ := List.exists_mem_of_ne_nil _ hsome
    exact ⟨m, hm, by rwa [Tree.classes, hmembers m hm]⟩

end

variable {F L G : Type} [Scalar F] [Eigensolver F] [Label L] [RandomSource G]
  {settings : ForestSettings F} {data : GroupedDataset F L} {m : Member F L} {f : Forest F L}

/-- A tree of a forest spans the classes that have rows. -/
theorem Trained.spans (h : Trained G settings data m) : m.tree.root.Spans data.presentClasses := by
  obtain ⟨g', hgrow⟩ := h.grows
  have hspans := spans_of_grow hgrow
  rwa [BootstrapDraw.presentClasses_sampleData] at hspans

/-- Votes are for classes that have rows. -/
theorem Grown.mem_presentClasses (h : f.Grown G settings data) {x : FeatureTable F}
    {rows : List (List L)} (hrows : f.votes x = .ok rows) :
    ∀ votes ∈ rows, ∀ vote ∈ votes, vote ∈ data.presentClasses := by
  obtain ⟨predictions, hpredictions, hvotes⟩ := bind_eq_ok_iff.1 hrows
  cases hvotes
  refine List.forall_mem_map.2 fun i _ vote hvote => ?_
  obtain ⟨labels, hlabels, hlabel⟩ := List.mem_filterMap.1 hvote
  obtain ⟨predicted, hpredicted, rfl⟩ := List.mem_map.1 hlabels
  obtain ⟨m, hm, hpredict⟩ := exists_of_mem_mapM hpredictions hpredicted
  obtain ⟨row, -, hvote⟩ := exists_of_mem_mapM hpredict
    (List.mem_of_getElem? (List.getElem?_toArray.symm.trans hlabel))
  exact (h.trained m hm).spans.mem_responses.1 (Node.mem_responses_of_predictRow hvote)

/-- No tree votes for a declared class without rows. -/
theorem Grown.unvoted (h : f.Grown G settings data) {x : FeatureTable F} {shares : FeatureTable F}
    (hshares : f.voteProportions x = .ok shares) {c : L} (hc : c ∈ f.classes)
    (hnone : c ∉ data.presentClasses) : ∀ row ∈ shares.rows,
      row[Confusion.place f.classes c]? = some (Scalar.ofNat 0 / Scalar.ofNat f.size) := by
  rw [voteProportions_eq_map] at hshares
  cases hrows : f.votes x with
  | error e => rw [hrows] at hshares; cases hshares
  | ok rows =>
    rw [hrows] at hshares
    cases hshares
    refine List.forall_mem_map.2 fun votes hvotes => ?_
    rw [getElem?_place hc, List.count_eq_zero.2 fun hvote =>
      hnone (h.mem_presentClasses hrows votes hvotes c hvote)]

end Forest

/-! ### Restored forests -/

section
variable {F L G : Type} [Scalar F] [Eigensolver F] [Label L] [RandomSource G] [ScalarCodec F]
  [LabelCodec L] {finite : F → Prop}

/-- A fitted forest is restored from its text with the classes that have rows, and counts the same votes
for these. -/
theorem Forest.exists_restored (hdefault : (TreeSettings.default : TreeSettings F).Valid)
    {crew : Crew} {settings : ForestSettings.Checked F} {d : Dataset F L} {f : Forest F L}
    (hf : fit G crew settings d = .ok f) (hkept : ∀ m ∈ f.members, m.tree.root.Kept finite)
    (hallowed : ∀ m ∈ f.members, m.tree.root.AllFinite finite ∧ m.tree.depth ≤ 123) :
    ∃ r : Forest F L, ofText f.toText = .ok r ∧ r.classes = d.presentClasses ∧
      ∀ x, r.voteProportions x = (f.votes x).map (shareTable d.presentClasses f.size) := by
  have hgrown := grown_of_fit hf
  have hsome : f.members ≠ [] :=
    List.ne_nil_of_length_pos (hgrown.covered settings.property.1).size_pos
  obtain ⟨r, hr, hroots⟩ := exists_ofText hdefault hsome
    (fun m hm => (Tree.FittedTo.member hf hm).archivable (hkept m hm)) hallowed
  have hsize : r.size = f.size := by simpa [size] using congrArg List.length hroots
  have hclasses : r.classes = d.presentClasses := by
    have hbare := bare_of_ofText hr
    refine classes_eq_of_roots hbare.training_eq (List.ne_nil_of_length_pos hbare.size_pos) ?_
    rw [hroots]
    refine List.forall_mem_map.2 fun m hm => ?_
    rw [(hgrown.trained m hm).spans.classes_eq, GroupedDataset.presentClasses_ofDataset]
  refine ⟨r, hr, hclasses, fun x => ?_⟩
  rw [voteProportions_eq_map, votes_congr hroots, hclasses, hsize]

omit [ScalarCodec F] [LabelCodec L] in
theorem Forest.classes_of_fit {crew : Crew} {settings : ForestSettings.Checked F} {d : Dataset F L}
    {f : Forest F L} (hf : fit G crew settings d = .ok f) : f.classes = d.classes := by
  rw [classes, (grown_of_fit hf).training_eq]
  rfl

/-- A fitted forest is restored from its text with the classes that have rows. Its shares are those of
the fitted forest without the columns of the other classes that the data declare, where all shares are
of no votes. They are the same where all declared classes have rows. -/
theorem restored_forest_votes (hdefault : (TreeSettings.default : TreeSettings F).Valid)
    {crew : Crew} {settings : ForestSettings.Checked F} {d : Dataset F L} {f : Forest F L}
    (hf : Forest.fit G crew settings d = .ok f) (hkept : ∀ m ∈ f.members, m.tree.root.Kept finite)
    (hallowed : ∀ m ∈ f.members, m.tree.root.AllFinite finite ∧ m.tree.depth ≤ 123) :
    ∃ r : Forest F L, Forest.ofText f.toText = .ok r ∧ f.classes = d.classes ∧
      r.classes = d.presentClasses ∧
      (∀ x, r.voteProportions x = (f.voteProportions x).map
        (·.keepColumns (Forest.columnsOf d.presentClasses d.classes))) ∧
      (∀ x shares, f.voteProportions x = .ok shares → ∀ c ∈ d.classes, c ∉ d.presentClasses →
        ∀ row ∈ shares.rows, row[Confusion.place d.classes c]? =
          some (Scalar.ofNat 0 / Scalar.ofNat f.size)) ∧
      (d.presentClasses = d.classes → ∀ x, r.voteProportions x = f.voteProportions x) := by
  have hclasses := Forest.classes_of_fit hf
  have hinside : ∀ c ∈ d.presentClasses, c ∈ d.classes := fun c hc => by
    obtain ⟨o, ho, rfl⟩ := List.mem_map.1 (LabelSet.mem_ofList.1 hc)
    exact d.covered o ho
  obtain ⟨r, hr, hrestored, hshares⟩ := Forest.exists_restored hdefault hf hkept hallowed
  refine ⟨r, hr, hclasses, hrestored, fun x => ?_, fun x shares hx c hc hnone => ?_, fun heq x => ?_⟩
  · rw [hshares, Forest.voteProportions_eq_map, hclasses]
    cases f.votes x with
    | error e => rfl
    | ok rows => exact congrArg Except.ok (Forest.keepColumns_shareTable hinside f.size rows).symm
  · rw [← hclasses] at hc ⊢
    rw [← GroupedDataset.presentClasses_ofDataset] at hnone
    exact (Forest.grown_of_fit hf).unvoted hx hc hnone
  · rw [hshares, Forest.voteProportions_eq_map, hclasses, heq]

end

namespace Exact

/-- Two classes of equal rows, and a declared class without rows. -/
def thirdLetter : Dataset Exact String where
  width := 1
  rows := [⟨[.number 0], "a"⟩, ⟨[.number 0], "a"⟩, ⟨[.number 2], "b"⟩, ⟨[.number 2], "b"⟩]
  classes := .ofList ["a", "b", "c"]
  shaped := by decide
  covered := by decide

theorem exists_fit_thirdLetter : ∃ f, Forest.fit Xoshiro .orderly Forest.threeTrees thirdLetter = .ok f ∧
    ∀ m ∈ f.members, Binary m.tree.root ∧ m.tree.depth ≤ 123 :=
  exists_ok_of_any (by decide +kernel)

end Exact

open Exact in
/-- The third class is lost, and the shares of two classes are left. -/
theorem restored_forest_votes_thirdLetter : ∃ f r : Forest Exact String,
    Forest.fit Xoshiro .orderly Forest.threeTrees thirdLetter = .ok f ∧ Forest.ofText f.toText = .ok r ∧
      f.classes = .ofList ["a", "b", "c"] ∧ r.classes = .ofList ["a", "b"] ∧
      ∀ x, r.voteProportions x = (f.voteProportions x).map (·.keepColumns [0, 1]) := by
  obtain ⟨f, hf, hall⟩ := exists_fit_thirdLetter
  obtain ⟨r, hr, hfitted, hrestored, hshares, -⟩ := restored_forest_votes (by decide +kernel) hf
    (fun m hm => (hall m hm).1.kept) fun m hm => ⟨(hall m hm).1.allFinite, (hall m hm).2⟩
  exact ⟨f, r, hf, hr, hfitted, hrestored.trans (by decide), hshares⟩

open Exact in
/-- A forest fitted with a declared class that has no rows is restored without the class, and has two
columns of shares where it had three. -/
theorem class_lost_thirdLetter : ∃ f r : Forest Exact String,
    Forest.fit Xoshiro .orderly Forest.threeTrees thirdLetter = .ok f ∧
      (∀ m ∈ f.members, m.tree.root.AllFinite (· ≠ undefined) ∧ m.tree.depth ≤ 123) ∧
      Forest.ofText f.toText = .ok r ∧ r.classes ≠ f.classes ∧
      ∃ shares restored, f.voteProportions thirdLetter.features = .ok shares ∧
        r.voteProportions thirdLetter.features = .ok restored ∧ shares.width = 3 ∧
          restored.width = 2 := by
  obtain ⟨f, hf, hall⟩ := exists_fit_thirdLetter
  have hallowed : ∀ m ∈ f.members, m.tree.root.AllFinite (· ≠ undefined) ∧ m.tree.depth ≤ 123 :=
    fun m hm => ⟨(hall m hm).1.allFinite, (hall m hm).2⟩
  obtain ⟨r, hr, hrestored, hshares⟩ := Forest.exists_restored (by decide +kernel) hf
    (fun m hm => (hall m hm).1.kept) hallowed
  have hclasses := Forest.classes_of_fit hf
  have hgrown := Forest.grown_of_fit hf
  obtain ⟨rows, hrows, -⟩ := Forest.exists_votes (f := f) (x := thirdLetter.features)
    fun m hm row hrow => (hgrown.trained m hm).exists_predictRow (thirdLetter.features.shaped row hrow)
  refine ⟨f, r, hf, hallowed, hr, ?_, Forest.shareTable f.classes f.size rows,
    Forest.shareTable thirdLetter.presentClasses f.size rows, ?_, ?_, ?_, ?_⟩
  · rw [hrestored, hclasses]
    decide
  · rw [Forest.voteProportions_eq_map, hrows]
    rfl
  · rw [hshares, hrows]
    rfl
  · rw [hclasses]
    rfl
  · rfl

end PursuitForest
