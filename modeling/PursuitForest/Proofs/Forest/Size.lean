import PursuitForest.Proofs.Forest.Endings
/-!
Forests of different sizes.

A tree comes of its own seeds alone: neither the trees trained beside it nor the number of threads
change it (`ForestSettings.SameTrees.trainTree_eq`). So a smaller forest is the beginning of a larger
one, and where it cannot be grown, neither can the larger one (`fit_take`). The reason that is given
need not be the same where several trees cannot be trained (`not_fit_same_error`).
-/

namespace PursuitForest

/-- Settings that differ in the number of trees and of threads at most. -/
structure ForestSettings.SameTrees {F : Type} (s t : ForestSettings F) : Prop where
  seed_eq : s.seed = t.seed
  retries_eq : s.retries = t.retries
  tree_eq : s.tree = t.tree

variable {F L G : Type} [Scalar F] [Eigensolver F] [Label L] [RandomSource G]

namespace ForestSettings.SameTrees

variable {s t : ForestSettings F} {data : GroupedDataset F L}

theorem attempt_eq (h : s.SameTrees t) (index number : Nat) :
    Forest.attempt G s data index number = Forest.attempt G t data index number := by
  unfold Forest.attempt
  rw [h.seed_eq, h.tree_eq]

theorem attemptFrom_eq (h : s.SameTrees t) (index : Nat) : ∀ left number : Nat,
    Forest.attemptFrom G s data index left number = Forest.attemptFrom G t data index left number
  | left, number => by
      rw [Forest.attemptFrom.eq_def, Forest.attemptFrom.eq_def]
      dsimp only
      rw [h.attempt_eq]
      cases left with
      | zero => rfl
      | succ left => simp only [h.attemptFrom_eq index left (number + 1)]

omit [Scalar F] [Eigensolver F] in
theorem symm (h : s.SameTrees t) : t.SameTrees s :=
  ⟨h.seed_eq.symm, h.retries_eq.symm, h.tree_eq.symm⟩

/-- The number of trees and of threads has no influence on a tree. -/
theorem trainTree_eq (h : s.SameTrees t) (index : Nat) :
    Forest.trainTree G s data index = Forest.trainTree G t data index := by
  rw [Forest.trainTree, Forest.trainTree, h.retries_eq, h.attemptFrom_eq]

theorem trainTree_funext (h : s.SameTrees t) :
    Forest.trainTree G s data = Forest.trainTree G t data :=
  funext h.trainTree_eq

end ForestSettings.SameTrees

namespace Forest

variable {d : Dataset F L} {small large : ForestSettings.Checked F} {crew crew' : Crew}
  {e : Error F L}

/-- What is refused before any tree is trained is refused whatever the number of trees, and by any
crew. -/
theorem exists_refusal {s : ForestSettings F} (h : d.isEmpty = true ∨ s.tree.Exceeds d.width) :
    ∃ e, ∀ (crew : Crew) (settings : ForestSettings.Checked F), settings.val.SameTrees s →
      fit G crew settings d = .error e := by
  cases hd : d.isEmpty with
  | true => exact ⟨.parameter .trainWithoutRows, fun crew settings _ => fit_of_isEmpty crew settings hd⟩
  | false =>
    rw [hd] at h
    obtain ⟨fault, hfault⟩ := checkWidth_of_exceeds (L := L) (h.resolve_left Bool.false_ne_true)
    refine ⟨.parameter fault, fun crew settings hs => fit_of_checkWidth crew hd ?_⟩
    rw [hs.tree_eq, hfault]

/-- The first trees of a larger forest are a forest. -/
theorem exists_part (hs : small.val.SameTrees large.val) (hsize : small.val.size ≤ large.val.size)
    (hcrew : crew.Serves small.val.threads) {forest : Forest F L}
    (h : fit G crew' large d = .ok forest) : ∃ part, fit G crew small d = .ok part ∧
      part.size = small.val.size ∧ part.members = forest.members.take small.val.size := by
  obtain ⟨hd, hwidth, -, members, hmembers, rfl⟩ := fit_eq_ok_iff.1 h
  rw [← hs.trainTree_funext] at hmembers
  have htake := mapM_range_take hsize hmembers
  refine ⟨_, fit_eq_ok_iff.2 ⟨hd, hs.tree_eq ▸ hwidth, hcrew, _, htake, rfl⟩, ?_, rfl⟩
  exact (length_of_mapM htake).trans List.length_range

/-- A failure of a smaller forest is one of the larger, which fails as well, if not of this one. -/
theorem exists_failure (hs : small.val.SameTrees large.val) (hsize : small.val.size ≤ large.val.size)
    (hd : d.isEmpty = false) (hwidth : ¬ small.val.tree.Exceeds d.width)
    (hcrew : crew.Serves small.val.threads) (hcrew' : crew'.Serves large.val.threads)
    (h : fit G crew small d = .error e) :
    (∃ index < small.val.size, trainTree G small.val (.ofDataset d) index = .error e) ∧
      (∃ e', fit G crew' large d = .error e' ∧ ∃ index < large.val.size,
        trainTree G small.val (.ofDataset d) index = .error e') ∧
      ∃ place, fit G (crew'.reporting place) large d = .error e := by
  have hcheck := checkWidth_of_not_exceeds (L := L) hwidth
  have hcheck' : large.val.tree.checkWidth (L := L) d.width = .ok () := hs.tree_eq ▸ hcheck
  obtain ⟨index, hindex, hfails⟩ := exists_trainTree_of_fit_eq_error hd hcheck hcrew h
  refine ⟨⟨index, hindex, hfails⟩, ?_, ?_⟩
  · cases hlarge : fit G crew' large d with
    | ok forest =>
      -- the smaller forest would be a part of it
      obtain ⟨part, hpart, -⟩ := exists_part hs hsize hcrew hlarge
      rw [h] at hpart
      cases hpart
    | error e' =>
      rw [hs.trainTree_funext]
      exact ⟨e', rfl, exists_trainTree_of_fit_eq_error hd hcheck' hcrew' hlarge⟩
  · rw [hs.trainTree_funext] at hfails
    exact exists_reporting_fit hd hcheck' hcrew' (Nat.lt_of_lt_of_le hindex hsize) hfails

/-- Where the first failure is reported, a larger forest fails with the error of the smaller one. -/
theorem fit_eq_error_of_inOrder (hs : small.val.SameTrees large.val)
    (hsize : small.val.size ≤ large.val.size) (hd : d.isEmpty = false)
    (hwidth : ¬ small.val.tree.Exceeds d.width) (hcrew : crew.Serves small.val.threads)
    (hcrew' : crew'.Serves large.val.threads) (horder : crew.InOrder) (horder' : crew'.InOrder)
    (h : fit G crew small d = .error e) : fit G crew' large d = .error e := by
  have hcheck := checkWidth_of_not_exceeds (L := L) hwidth
  rw [fit_eq G hd hcheck hcrew, map_eq_error_iff, horder.collect_map, mapM_range_eq_error_iff] at h
  rw [fit_eq G hd (hs.tree_eq ▸ hcheck) hcrew', map_eq_error_iff, horder'.collect_map,
    mapM_range_eq_error_iff, ← hs.trainTree_funext]
  obtain ⟨index, hindex, hfails, hbefore⟩ := h
  exact ⟨index, Nat.lt_of_lt_of_le hindex hsize, hfails, hbefore⟩

/-- The trees of a forest are the first trees of any larger forest, with the same seeds, draws and
roots, whatever the crews. Where the smaller forest cannot be grown the larger one cannot either. What
is refused before any tree is trained is refused with the same error. Otherwise both fail with the
error of a tree that cannot be trained. That of the smaller forest cannot be trained in the larger one
either, so its error may be reported of both; it is if the first failure is reported. -/
theorem fit_take (hs : small.val.SameTrees large.val) (hsize : small.val.size ≤ large.val.size)
    (hcrew : crew.Serves small.val.threads) (hcrew' : crew'.Serves large.val.threads)
    (d : Dataset F L) :
    (∀ forest, fit G crew' large d = .ok forest → ∃ part, fit G crew small d = .ok part ∧
      part.size = small.val.size ∧ part.members = forest.members.take small.val.size) ∧
    ∀ e, fit G crew small d = .error e →
      (d.isEmpty = true ∨ small.val.tree.Exceeds d.width) ∧ fit G crew' large d = .error e ∨
      (∃ index < small.val.size, trainTree G small.val (.ofDataset d) index = .error e) ∧
        (∃ e', fit G crew' large d = .error e' ∧ ∃ index < large.val.size,
          trainTree G small.val (.ofDataset d) index = .error e') ∧
        (∃ place, fit G (crew'.reporting place) large d = .error e) ∧
        (crew.InOrder → crew'.InOrder → fit G crew' large d = .error e) := by
  refine ⟨fun forest hforest => exists_part hs hsize hcrew hforest, fun e he => ?_⟩
  -- refusals come before any tree, so both forests are refused or neither is
  by_cases hrefused : d.isEmpty = true ∨ small.val.tree.Exceeds d.width
  · obtain ⟨refusal, hrefusal⟩ := exists_refusal (G := G) (L := L) hrefused
    rw [hrefusal crew small ⟨rfl, rfl, rfl⟩] at he
    exact .inl ⟨hrefused, (hrefusal crew' large hs.symm).trans he⟩
  · obtain ⟨hd, hwidth⟩ := not_or.1 hrefused
    rw [Bool.not_eq_true] at hd
    obtain ⟨hsmall, hlarge, hplace⟩ := exists_failure hs hsize hd hwidth hcrew hcrew' he
    exact .inr ⟨hsmall, hlarge, hplace, fun horder horder' =>
      fit_eq_error_of_inOrder hs hsize hd hwidth hcrew hcrew' horder horder' he⟩

/-! ### Examples of exact scalars -/

/-- One tree with one retry. -/
def oneTree : ForestSettings.Checked Exact :=
  ⟨⟨1, 305, none, 1, Exact.oneColumn.val⟩, by decide, by decide, Exact.oneColumn.property⟩

/-- Three such trees, trained on four threads. -/
def threeTrees : ForestSettings.Checked Exact :=
  ⟨⟨3, 305, some 4, 1, Exact.oneColumn.val⟩, by decide, by decide, Exact.oneColumn.property⟩

/-- Two classes of equal rows. -/
def equalRows : Dataset Exact Nat where
  width := 1
  rows := [⟨[1], 0⟩, ⟨[1], 0⟩, ⟨[1], 1⟩, ⟨[1], 1⟩]
  classes := .ofList [0, 1]
  shaped := by decide
  covered := by decide

/-- On three classes the one tree is the first of the three, trained by different crews; on equal rows
neither forest can be grown. -/
theorem fit_take_threeClasses : oneTree.val.SameTrees threeTrees.val ∧
    oneTree.val.size ≤ threeTrees.val.size ∧
    (∃ forest part, fit Xoshiro (.reporting .orderly 2) threeTrees Exact.threeClasses.toDataset =
        .ok forest ∧ fit Xoshiro .orderly oneTree Exact.threeClasses.toDataset = .ok part ∧
      part.size = 1 ∧ part.members = forest.members.take 1) ∧
    ∃ e e', fit Xoshiro .orderly oneTree equalRows = .error e ∧
      fit Xoshiro (.reporting .orderly 2) threeTrees equalRows = .error e' := by
  have hs : oneTree.val.SameTrees threeTrees.val := ⟨rfl, rfl, rfl⟩
  have hsize : oneTree.val.size ≤ threeTrees.val.size := by decide
  have hcrew : Crew.orderly.Serves oneTree.val.threads := by decide
  have hcrew' : (Crew.orderly.reporting 2).Serves threeTrees.val.threads := by decide
  have hok : (fit Xoshiro (.reporting .orderly 2) threeTrees Exact.threeClasses.toDataset).isOk = true := by
    decide +kernel
  have hfails : (fit Xoshiro .orderly oneTree equalRows).isOk = false := by
    decide +kernel
  obtain ⟨forest, hforest⟩ := exists_ok_of_isOk hok
  obtain ⟨e, he⟩ := exists_error_of_isOk hfails
  obtain ⟨part, hpart, hcount, hmembers⟩ :=
    (fit_take hs hsize hcrew hcrew' Exact.threeClasses.toDataset).1 forest hforest
  refine ⟨hs, hsize, ⟨forest, part, hforest, hpart, hcount, hmembers⟩, e, ?_⟩
  rcases (fit_take hs hsize hcrew hcrew' equalRows).2 e he with ⟨-, hlarge⟩ | ⟨-, ⟨e', hlarge, -⟩, -⟩
  · exact ⟨e, he, hlarge⟩
  · exact ⟨e', he, hlarge⟩

/-- Two classes with the same rows. The first column is the same throughout. -/
def sameRows : Dataset Exact Nat where
  width := 2
  rows := [⟨[1, 0], 0⟩, ⟨[1, .number 2], 0⟩, ⟨[1, 0], 1⟩, ⟨[1, .number 2], 1⟩]
  classes := .ofList [0, 1]
  shaped := by decide
  covered := by decide

/-- One tree on one sample. -/
def oneTry : ForestSettings.Checked Exact :=
  ⟨⟨1, 10, some 2, 0, Exact.oneColumn.val⟩, by decide, by decide, Exact.oneColumn.property⟩

/-- Two trees on one sample each, trained on two threads. -/
def twoTries : ForestSettings.Checked Exact :=
  ⟨⟨2, 10, some 2, 0, Exact.oneColumn.val⟩, by decide, by decide, Exact.oneColumn.property⟩

/-- The first tree sees one value only, and the second tree two classes that it cannot tell apart. Of
both trees, the failure of the second may be reported. -/
theorem not_fit_same_error : ¬ ∀ (crew : Crew) (small large : ForestSettings.Checked Exact)
    (d : Dataset Exact Nat), small.val.SameTrees large.val → small.val.size ≤ large.val.size →
      crew.Serves small.val.threads → crew.Serves large.val.threads →
      ∀ e, fit Xoshiro crew small d = .error e → fit Xoshiro crew large d = .error e := by
  intro h
  have hone : fit Xoshiro (.reporting .orderly 1) oneTry sameRows =
      .error (.retriesExhausted 0 (.degenerate .constantFeatures)) :=
    eq_error_of_match (by decide +kernel)
  have htwo : fit Xoshiro (.reporting .orderly 1) twoTries sameRows =
      .error (.retriesExhausted 0 (.degenerate .inseparableClasses)) :=
    eq_error_of_match (by decide +kernel)
  have hsame := h (.reporting .orderly 1) oneTry twoTries sameRows ⟨rfl, rfl, rfl⟩ (by decide)
    (by decide) (by decide) _ hone
  rw [htwo] at hsame
  cases hsame

end Forest
end PursuitForest
