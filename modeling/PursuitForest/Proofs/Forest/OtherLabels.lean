import PursuitForest.Proofs.Forest.Endings
import PursuitForest.Proofs.Forest.Simulation
import PursuitForest.Proofs.Tree.OtherLabels
/-!
Fitting and predicting under other labels.

Labels act through their order: observations with other labels in the same order give the same trees
and forests with these labels in the place of the old ones, or fail for the same reason, and every
prediction is the image of the old one (`fit_predict_relabelled`). Draws do not see labels, nor do seeds, and
of several labels with the most votes the images of the smallest win.

Where growing comes to spoiled means, this holds of labels of the same kind only, short or long.
Between numbers and texts the outcome may differ then (`not_fit_relabelled_strokes`).
-/

namespace PursuitForest

variable {F L L' : Type} [Label L] [Label L'] {f : L → L'}

/-! ### Votes -/

section

theorem addVote_map (hf : Increasing f) (label : L) : ∀ counts : List (L × Nat),
    addVote (f label) (counts.map (Prod.map f id)) = (addVote label counts).map (Prod.map f id)
  | [] => rfl
  | (l, n) :: rest => by
      simp only [List.map_cons, Prod.map_apply, id, addVote, hf.lt_iff, hf.eq_iff]
      split
      · rfl
      · split
        · rfl
        · rw [addVote_map hf label rest]
          rfl

theorem countVotes_map (hf : Increasing f) (votes : List L) :
    countVotes (votes.map f) = (countVotes votes).map (Prod.map f id) := by
  have hfold : ∀ (rest : List L) (counts : List (L × Nat)),
      (rest.map f).foldl (fun counts label => addVote label counts) (counts.map (Prod.map f id)) =
        (rest.foldl (fun counts label => addVote label counts) counts).map (Prod.map f id) := by
    intro rest
    induction rest with
    | nil => intro counts; rfl
    | cons label rest ih =>
      intro counts
      rw [List.map_cons, List.foldl_cons, addVote_map hf, ih, List.foldl_cons]
  exact hfold votes []

omit [Label L] [Label L'] in
theorem leader_map (f : L → L') : ∀ (counts : List (L × Nat)) (ahead : L × Nat),
    leader (Prod.map f id ahead) (counts.map (Prod.map f id)) = f (leader ahead counts)
  | [], _ => rfl
  | next :: rest, ahead => by
      rw [List.map_cons, leader, leader, ← leader_map f rest, apply_ite (Prod.map f id)]
      rfl

/-- The image of the label that wins a vote wins the vote of the images. -/
theorem winner_map (hf : Increasing f) (votes : List L) : winner (votes.map f) = (winner votes).map f := by
  rw [winner, winner, countVotes_map hf]
  cases countVotes votes with
  | nil => rfl
  | cons first rest => exact congrArg some (leader_map f rest first)

end

/-! ### Trees -/

/-- A tree with other labels. -/
def Tree.relabel (f : L → L') (t : Tree F L) : Tree F L' where
  root := t.root.relabel f
  settings := t.settings
  width := t.width
  training := t.training.map (·.remap f)

section
variable [Scalar F]

namespace Node

omit [Label L] [Label L'] in
theorem project_relabelled (f : L → L') (projector row : List F) :
    Relabelled f id (project projector row) (project projector row) :=
  .ite .ok .error

/-- A row takes the same way down. -/
theorem predictRow_relabelled (f : L → L') (row : List F) : ∀ n : Node F L,
    Relabelled f f (n.predictRow row) ((n.relabel f).predictRow row)
  | .response value => .ok
  | .condition projector threshold classes lower upper => by
      refine (project_relabelled f projector row).bind fun projection => ?_
      dsimp only [id]
      cases side threshold projection with
      | lower => exact predictRow_relabelled f row lower
      | upper => exact predictRow_relabelled f row upper

end Node

namespace Tree

theorem predict_relabelled (f : L → L') (t : Tree F L) (x : FeatureTable F) :
    Relabelled f (List.map f) (t.predict x) ((t.relabel f).predict x) := by
  have hrows : Relabelled f (List.map f) (x.rows.mapM t.predictRow)
      ((x.rows.map id).mapM (t.relabel f).predictRow) :=
    Relabelled.mapM (fun row => t.root.predictRow_relabelled f row) x.rows
  rwa [List.map_id] at hrows

theorem fit_relabelled {G : Type} [Eigensolver F] [RandomSource G] (hf : Increasing f)
    {settings : TreeSettings.Checked F} {d : Dataset F L}
    (h : Label.isShort L = Label.isShort L' ∨
      ¬ ComesToSpoiled settings.val (.ofDataset d) (RandomSource.ofSeed settings.val.seed : G)) :
    Relabelled f (Tree.relabel f) (Tree.fit G settings d) (Tree.fit G settings (d.relabel f)) := by
  have hgrow := grow_relabelled hf h
  rw [← hf.ofDataset_relabel] at hgrow
  rw [treeFit_eq, treeFit_eq]
  refine hgrow.relabelled.map fun root => ?_
  rw [hf.ofDataset_relabel]
  rfl

end Tree

end

/-! ### Forests -/

/-- A member of a forest with other labels: its seed and the places of its draw stay. -/
def Member.relabel (f : L → L') (m : Member F L) : Member F L' :=
  ⟨m.tree.relabel f, m.draw.map (·.relabel f)⟩

/-- A forest with other labels. -/
def Forest.relabel (f : L → L') (p : Forest F L) : Forest F L' where
  members := p.members.map (·.relabel f)
  settings := p.settings
  training := p.training.map (·.remap f)

namespace Forest

section
variable [Scalar F]

theorem votes_relabelled (f : L → L') (p : Forest F L) (x : FeatureTable F) :
    Relabelled f (List.map (List.map f)) (p.votes x) ((p.relabel f).votes x) := by
  have hmembers : Relabelled f (List.map (List.map f)) (p.members.mapM fun m => m.tree.predict x)
      ((p.members.map (Member.relabel f)).mapM fun m => m.tree.predict x) :=
    Relabelled.mapM (fun m => m.tree.predict_relabelled f x) p.members
  refine hmembers.bind fun predictions => Alike.ok ?_
  rw [List.map_map, List.map_map]
  refine List.map_congr_left fun i _ => ?_
  rw [Function.comp_apply, List.filterMap_map, List.filterMap_map, List.map_filterMap]
  refine List.filterMap_congr fun votes _ => ?_
  simp [List.getElem?_map]

theorem predict_relabelled (hf : Increasing f) (p : Forest F L) (x : FeatureTable F) :
    Relabelled f (List.map f) (p.predict x) ((p.relabel f).predict x) := by
  refine (p.votes_relabelled f x).bind fun votes => Alike.ok ?_
  rw [List.filterMap_map, List.map_filterMap]
  exact List.filterMap_congr fun v _ => winner_map hf v

variable [Eigensolver F] {G : Type} [RandomSource G] {settings : ForestSettings F}
  {data : GroupedDataset F L} {index number : Nat}

/-- The growth of an attempt comes to a node whose means are spoiled. -/
def AttemptSpoiled (G : Type) [RandomSource G] (settings : ForestSettings F)
    (data : GroupedDataset F L) (index number : Nat) : Prop :=
  ComesToSpoiled settings.tree (attemptDraw G settings data index number).1.sampleData
    (attemptDraw G settings data index number).2

theorem attempt_relabelled (hf : Increasing f)
    (h : Label.isShort L = Label.isShort L' ∨ ¬ AttemptSpoiled G settings data index number) :
    Relabelled f (Member.relabel f) (attempt G settings data index number)
      (attempt G settings (data.remap f) index number) := by
  have hdraw : attemptDraw G settings (data.remap f) index number =
      ((attemptDraw G settings data index number).1.relabel f,
        (attemptDraw G settings data index number).2) :=
    BootstrapDraw.stratified_remap hf data _
  have hgrow := (grow_relabelled hf h).relabelled
  rw [← BootstrapDraw.sampleData_relabel hf] at hgrow
  rw [attempt_eq, attempt_eq, attemptGrowth, attemptGrowth, hdraw]
  refine hgrow.map fun root => ?_
  rw [attemptMember, hdraw]
  rfl

theorem trainTree_relabelled (hf : Increasing f)
    (h : Label.isShort L = Label.isShort L' ∨
      ∀ number ≤ settings.retries, ¬ AttemptSpoiled G settings data index number) :
    Relabelled f (Member.relabel f) (trainTree G settings data index)
      (trainTree G settings (data.remap f) index) := by
  refine attemptFrom_alike ⟨?_, ?_⟩ fun k hk => ?_
  · rintro e _ rfl
    exact (e.isDegenerate_relabel f).symm
  · rintro e _ rfl n
    rfl
  · rw [Nat.zero_add]
    exact attempt_relabelled hf (h.imp id fun hspoiled => hspoiled k hk)

theorem fit_relabelled (hf : Increasing f) (crew : Crew) {settings : ForestSettings.Checked F}
    {d : Dataset F L}
    (h : Label.isShort L = Label.isShort L' ∨ ∀ index < settings.val.size,
      ∀ number ≤ settings.val.retries,
        ¬ AttemptSpoiled G settings.val (.ofDataset d) index number) :
    Relabelled f (Forest.relabel f) (Forest.fit G crew settings d)
      (Forest.fit G crew settings (d.relabel f)) := by
  refine (fit_alike (P := fun m m' => m' = m.relabel f) crew rfl (d.isEmpty_relabel f).symm ?_
    (Crew.engage_alike (fun _ => rfl) (.inl rfl)) rfl fun _ index hindex => ?_).mono ?_
  · exact (checkWidth_relabelled f settings.val.tree d.width).mono fun _ _ _ => trivial
  · rw [hf.ofDataset_relabel]
    exact trainTree_relabelled hf (h.imp id fun hspoiled => hspoiled index hindex)
  · rintro p p' ⟨hmembers, hsettings, hsettings', htraining, htraining'⟩
    rw [forall₂_eq_map_iff] at hmembers
    obtain ⟨members, settings₁, training⟩ := p
    obtain ⟨members', settings₁', training'⟩ := p'
    dsimp only at hmembers hsettings hsettings' htraining htraining'
    rw [hmembers, hsettings', htraining', hf.ofDataset_relabel, relabel, hsettings, htraining]
    rfl

end

end Forest

/-! ### Both -/

section
variable [Scalar F] [Eigensolver F]

/-- A node whose means are spoiled has more than twenty classes, and a mean that compares as different
from itself. -/
theorem ComesToSpoiled.large {G : Type} [RandomSource G] {settings : TreeSettings F}
    {d : GroupedDataset F L} {g : G} (h : ComesToSpoiled settings d g) :
    20 < d.groupCount ∧ ∃ (node : GroupedDataset F L) (projector : List F),
      ∃ m ∈ projectedMeans node projector, (m.2 == m.2) = false := by
  obtain ⟨n, node, tasks, built, g', hreach, columns, g'', -, projector, -, hmany, hm⟩ := h
  rw [length_projectedMeans] at hmany
  have hle : node.groupCount ≤ d.groupCount := hreach.partOf.groupCount_le
  exact ⟨Nat.lt_of_lt_of_le hmany hle, node, projector, hm⟩

/-- Observations with other labels in the same order give the same trees and forests with these
labels, or fail for the same reason with these labels, and all predictions have these labels: the
projectors, the thresholds, the shapes, the seeds and the places of all draws are the same. This
holds of labels of one kind, short or long, and of all labels unless growing comes to spoiled means,
of more than twenty classes and one of them different from itself. -/
theorem fit_predict_relabelled (G : Type) [RandomSource G] (hf : Increasing f) :
    (∀ (settings : TreeSettings.Checked F) (d : Dataset F L), Label.isShort L = Label.isShort L' ∨
        ¬ ComesToSpoiled settings.val (.ofDataset d) (RandomSource.ofSeed settings.val.seed : G) →
      Relabelled f (Tree.relabel f) (Tree.fit G settings d) (Tree.fit G settings (d.relabel f))) ∧
    (∀ (crew : Crew) (settings : ForestSettings.Checked F) (d : Dataset F L),
      (Label.isShort L = Label.isShort L' ∨
        ∀ index < settings.val.size, ∀ number ≤ settings.val.retries,
          ¬ Forest.AttemptSpoiled G settings.val (.ofDataset d) index number) →
      Relabelled f (Forest.relabel f) (Forest.fit G crew settings d)
        (Forest.fit G crew settings (d.relabel f))) ∧
    (∀ (t : Tree F L) (x : FeatureTable F),
      Relabelled f (List.map f) (t.predict x) ((t.relabel f).predict x)) ∧
    (∀ (p : Forest F L) (x : FeatureTable F),
      Relabelled f (List.map f) (p.predict x) ((p.relabel f).predict x)) ∧
    ∀ (settings : TreeSettings F) (d : GroupedDataset F L) (g : G), ComesToSpoiled settings d g →
      20 < d.groupCount ∧ ∃ (node : GroupedDataset F L) (projector : List F),
        ∃ m ∈ projectedMeans node projector, (m.2 == m.2) = false :=
  ⟨fun _ _ => Tree.fit_relabelled hf, fun crew _ _ => Forest.fit_relabelled hf crew,
    fun t x => t.predict_relabelled f x, fun p x => p.predict_relabelled hf x,
    fun _ _ _ hspoiled => hspoiled.large⟩

end

/-! ### Numbers and texts -/

namespace Exact

/-- A number as a text of so many strokes. -/
def strokes (n : Nat) : String := .ofList (List.replicate n '|')

theorem increasing_strokes : Increasing strokes := by
  intro m n hmn
  show (strokes m).toList < (strokes n).toList
  rw [strokes, strokes, String.toList_ofList, String.toList_ofList]
  -- the shorter of two such texts is the front of the other
  induction m generalizing n with
  | zero =>
    obtain ⟨n, rfl⟩ := Nat.exists_eq_succ_of_ne_zero (Nat.ne_of_gt hmn)
    exact .nil
  | succ m ih =>
    obtain ⟨n, rfl⟩ := Nat.exists_eq_succ_of_ne_zero (Nat.ne_of_gt (Nat.zero_lt_of_lt hmn))
    exact .cons (ih n (Nat.lt_of_succ_lt_succ hmn))

/-- Three classes under numbers and under texts. -/
theorem fit_predict_relabelled_threeClasses : Increasing strokes ∧
    (∃ (t : Tree Exact Nat) (ys : List Nat),
      Tree.fit Xoshiro ⟨.default, by decide⟩ threeClasses.toDataset = .ok t ∧
      Tree.fit Xoshiro ⟨.default, by decide⟩ (threeClasses.toDataset.relabel strokes) =
        .ok (t.relabel strokes) ∧
      t.predict threeClasses.features = .ok ys ∧
      (t.relabel strokes).predict threeClasses.features = .ok (ys.map strokes)) ∧
    ∃ (p : Forest Exact Nat) (ys : List Nat),
      Forest.fit Xoshiro .orderly ⟨.ofSize 1, by decide⟩ threeClasses.toDataset = .ok p ∧
      Forest.fit Xoshiro .orderly ⟨.ofSize 1, by decide⟩ (threeClasses.toDataset.relabel strokes) =
        .ok (p.relabel strokes) ∧
      p.predict threeClasses.features = .ok ys ∧
      (p.relabel strokes).predict threeClasses.features = .ok (ys.map strokes) := by
  obtain ⟨htree, hforest, hpredict, hvote, hlarge⟩ :=
    fit_predict_relabelled (F := Exact) Xoshiro increasing_strokes
  refine ⟨increasing_strokes, ?_, ?_⟩
  · obtain ⟨ys, hys⟩ := exists_ok_of_isOk
      (x := Tree.fit Xoshiro ⟨.default, by decide⟩ threeClasses.toDataset >>= fun t =>
        t.predict threeClasses.features) (by decide +kernel)
    obtain ⟨t, ht, hys⟩ := bind_eq_ok_iff.1 hys
    have hfew : ¬ 20 < (GroupedDataset.ofDataset threeClasses.toDataset).groupCount := by
      decide +kernel
    have ht' := htree ⟨.default, by decide⟩ threeClasses.toDataset
      (.inr fun hspoiled => hfew (hlarge _ _ _ hspoiled).1)
    have hys' := hpredict t threeClasses.features
    rw [ht] at ht'
    rw [hys] at hys'
    exact ⟨t, ys, ht, ht'.eq_ok, hys, hys'.eq_ok⟩
  · obtain ⟨ys, hys⟩ := exists_ok_of_isOk
      (x := Forest.fit Xoshiro .orderly ⟨.ofSize 1, by decide⟩ threeClasses.toDataset >>= fun p =>
        p.predict threeClasses.features) (by decide +kernel)
    obtain ⟨p, hp, hys⟩ := bind_eq_ok_iff.1 hys
    have hfew : ∀ index < 1, ∀ number ≤ 3, ¬ 20 < (Forest.attemptDraw Xoshiro (.ofSize 1)
        (.ofDataset threeClasses.toDataset) index number).1.sampleData.groupCount := by
      decide +kernel
    have hp' := hforest .orderly ⟨.ofSize 1, by decide⟩ threeClasses.toDataset
      (.inr fun index hindex number hnumber hspoiled =>
        hfew index hindex number hnumber (hlarge _ _ _ hspoiled).1)
    have hys' := hvote p threeClasses.features
    rw [hp] at hp'
    rw [hys] at hys'
    exact ⟨p, ys, hp, hp'.eq_ok, hys, hys'.eq_ok⟩

/-- A number that takes more than one word as a label. -/
structure LongNumber where
  value : Nat
deriving DecidableEq

instance : Label LongNumber where
  le a b := a.value ≤ b.value
  lt a b := a.value < b.value
  le_refl a := Nat.le_refl a.value
  le_trans a b c := Nat.le_trans
  le_antisymm := by
    rintro ⟨a⟩ ⟨b⟩ hab hba
    exact congrArg _ (Nat.le_antisymm hab hba)
  le_total a b := Nat.le_total a.value b.value
  lt_iff a b := Nat.lt_iff_le_and_not_ge
  decEq := inferInstance
  decLe a b := inferInstanceAs (Decidable (a.value ≤ b.value))
  decLt a b := inferInstanceAs (Decidable (a.value < b.value))
  isShort := false

/-- As long labels, the classes of the unordered means come out once each. -/
theorem fit_unordered_longNumber_ne : Tree.fit Xoshiro oneColumn (unordered.relabel LongNumber.mk) ≠
    .error (.misuse .inconsistentOrder) := by
  have h : (Tree.fit Xoshiro oneColumn (unordered.relabel LongNumber.mk)).map (fun _ => ()) ≠
      .error (.misuse .inconsistentOrder) := by
    decide +kernel
  exact fun heq => h (map_eq_error_iff.2 heq)

/-- Numbers and texts of as many strokes stand in the same order, and are fitted otherwise. -/
theorem not_fit_relabelled_strokes : ¬ ∀ (f : Nat → String), Increasing f →
    ∀ (settings : TreeSettings.Checked Exact) (d : Dataset Exact Nat),
      Relabelled f (Tree.relabel f) (Tree.fit Xoshiro settings d)
        (Tree.fit Xoshiro settings (d.relabel f)) := by
  intro hall
  have htext := hall strokes increasing_strokes oneColumn unordered
  rw [fit_unordered_eq] at htext
  -- texts and long numbers are of one kind, and long numbers can be sorted inside proofs
  have hlong : Increasing fun a : LongNumber => strokes a.value := fun a b =>
    increasing_strokes a.value b.value
  have hsame : Relabelled _ (Tree.relabel _)
      (Tree.fit Xoshiro oneColumn (unordered.relabel LongNumber.mk)) _ :=
    Tree.fit_relabelled hlong (.inl rfl)
  have hcomp : (unordered.relabel LongNumber.mk).relabel (fun a => strokes a.value) =
      unordered.relabel strokes := Dataset.relabel_relabel unordered LongNumber.mk _
  rw [hcomp, htext.eq_error] at hsame
  obtain ⟨e, he, hrelabel⟩ := hsame.exists_of_error
  cases e <;> cases hrelabel
  exact fit_unordered_longNumber_ne he

end Exact

end PursuitForest
