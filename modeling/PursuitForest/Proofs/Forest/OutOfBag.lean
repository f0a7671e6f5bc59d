import PursuitForest.Proofs.Dataset.Layout
import PursuitForest.Proofs.Exact
import PursuitForest.Proofs.Forest.Training
import PursuitForest.Random.Xoshiro
/-!
Rows that are not drawn.

An attempt at a tree reads the rows of its draw and nothing else of the data but their layout
(`attemptGrowth_congr`), and so do the attempts that are made after it. A tree is therefore the same
on data that differ only in rows which no attempt up to the one that grew it has drawn
(`trainTree_congr_of_undrawn`): its out-of-bag rows have no part in it.
-/

namespace PursuitForest
namespace Forest

open GroupedDataset

variable {F L G : Type} [Scalar F] [Eigensolver F] [Label L] [RandomSource G]
  {settings : ForestSettings F} {data other : GroupedDataset F L} {index number : Nat}

/-! ### One attempt -/

/-- Two data agree on the rows that an attempt draws from the first. -/
def AgreeOnDraw (G : Type) [RandomSource G] (settings : ForestSettings F)
    (data other : GroupedDataset F L) (index number : Nat) : Prop :=
  ∀ i ∈ (attemptDraw G settings data index number).1.sample, data.rows[i]? = other.rows[i]?

omit [Scalar F] [Eigensolver F] in
/-- Data of one layout are drawn from alike. -/
theorem attemptDraw_congr (settings : ForestSettings F) (index number : Nat)
    (h : SameLayout data other) :
    (attemptDraw G settings data index number).1.sample =
      (attemptDraw G settings other index number).1.sample ∧
    (attemptDraw G settings data index number).1.outOfBag =
      (attemptDraw G settings other index number).1.outOfBag ∧
    (attemptDraw G settings data index number).2 = (attemptDraw G settings other index number).2 := by
  obtain ⟨hsample, hsource⟩ := BootstrapDraw.stratified_eq h
    (RandomSource.ofSeed (deriveSeed settings.seed (.ofNat index) (.ofNat number)) : G)
  exact ⟨hsample, BootstrapDraw.outOfBag_congr h.size_eq hsample, hsource⟩

/-- What grows in an attempt is decided by the rows that it draws. -/
theorem attemptGrowth_congr (h : SameLayout data other)
    (hagree : AgreeOnDraw G settings data other index number) :
    attemptGrowth G settings data index number = attemptGrowth G settings other index number := by
  obtain ⟨hsample, -, hsource⟩ :=
    attemptDraw_congr (G := G) settings index number h
  have hdata : (attemptDraw G settings data index number).1.sampleData =
      (attemptDraw G settings other index number).1.sampleData :=
    BootstrapDraw.sampleData_congr h hsample hagree
  rw [attemptGrowth, attemptGrowth, hdata, hsource]

theorem attemptDegenerate_congr (h : SameLayout data other)
    (hagree : AgreeOnDraw G settings data other index number)
    (hdeg : AttemptDegenerate G settings data index number) :
    AttemptDegenerate G settings other index number := by
  obtain ⟨e, he, hd⟩ := hdeg
  rw [attempt_eq_error_iff, attemptGrowth_congr h hagree, ← attempt_eq_error_iff] at he
  exact ⟨e, he, hd⟩

/-! ### All attempts -/

/-- The tree at place `index` is that of the attempt of the given number: no attempt before it finds
a split, and there are as many retries. -/
structure TrainsAt (G : Type) [RandomSource G] (settings : ForestSettings F)
    (data : GroupedDataset F L) (index number : Nat) (m : Member F L) : Prop where
  trained : trainTree G settings data index = .ok m
  seed_eq : m.seed = deriveSeed settings.seed (.ofNat index) (.ofNat number)
  number_le : number ≤ settings.retries
  before : ∀ j < number, AttemptDegenerate G settings data index j
  attempt_eq_ok : attempt G settings data index number = .ok m

/-- An attempt that grows a tree trains it if no attempt before finds a split. -/
theorem trainsAt_of_attempt {m : Member F L} (hnumber : number ≤ settings.retries)
    (hm : attempt G settings data index number = .ok m)
    (hbefore : ∀ j < number, AttemptDegenerate G settings data index j) :
    TrainsAt G settings data index number m := by
  obtain ⟨root, -, rfl⟩ := attempt_eq_ok_iff.1 hm
  exact ⟨(trainTree_eq_iff (settled_ok _)).2 ⟨number, hnumber, hm, hbefore⟩, rfl, hnumber, hbefore, hm⟩

/-- A tree is not changed by rows that no attempt up to its own has drawn: on other data of the same
shape, labels and classes that agree on the rows drawn so far, the same attempt trains the same tree,
with the same seed, on a draw of the same places. -/
theorem trainTree_congr_of_undrawn {d e : Dataset F L} {m : Member F L} (hwidth : d.width = e.width)
    (hlabels : d.labels = e.labels) (hclasses : d.classes = e.classes)
    (hm : TrainsAt G settings (.ofDataset d) index number m)
    (hagree : ∀ k ≤ number, AgreeOnDraw G settings (.ofDataset d) (.ofDataset e) index k) :
    ∃ m', TrainsAt G settings (.ofDataset e) index number m' ∧ m'.seed = m.seed ∧
      m'.tree = m.tree ∧ ∃ draw draw', m.draw = some draw ∧ m'.draw = some draw' ∧
        draw'.sample = draw.sample ∧ draw'.outOfBag = draw.outOfBag := by
  have hlayout := sameLayout_ofDataset hwidth hlabels hclasses
  obtain ⟨hsample, hrest, -⟩ :=
    attemptDraw_congr (G := G) settings index number hlayout
  obtain ⟨root, hroot, rfl⟩ := attempt_eq_ok_iff.1 hm.attempt_eq_ok
  rw [attemptGrowth_congr hlayout (hagree number (Nat.le_refl _))] at hroot
  have htree : (attemptMember G settings (ofDataset e) index number root).tree =
      (attemptMember G settings (ofDataset d) index number root).tree := by
    rw [attemptMember, attemptMember, ← hlayout.width_eq]
  refine ⟨attemptMember G settings (ofDataset e) index number root, ?_, rfl, htree, _, _, rfl, rfl,
    hsample.symm, hrest.symm⟩
  -- the attempts before must fail on the other data as well, or their tree would be taken
  refine trainsAt_of_attempt hm.number_le (attempt_eq_ok_iff.2 ⟨root, hroot, rfl⟩) fun j hj => ?_
  exact attemptDegenerate_congr hlayout (hagree j (Nat.le_of_lt hj)) (hm.before j hj)

/-! ### An example of exact scalars -/

/-- Two classes of four rows each, which only the last row tells apart; the fourth row has the given
feature. -/
def lastRowApart (fourth : Exact) : Dataset Exact Nat where
  width := 1
  rows := [⟨[0], 0⟩, ⟨[0], 0⟩, ⟨[0], 0⟩, ⟨[fourth], 0⟩, ⟨[0], 1⟩, ⟨[0], 1⟩, ⟨[0], 1⟩,
    ⟨[.number 5], 1⟩]
  classes := .ofList [0, 1]
  shaped := by simp
  covered := by simp [LabelSet.mem_ofList]

/-- Settings of a forest of 40 trees, with 20 retries and one thread. -/
def fortyTrees : ForestSettings Exact := ⟨40, 3, some 1, 20, ⟨0, .all, 0⟩⟩

/-- The eighth tree comes of its second attempt; the first one does not draw the last row. Neither
draws the fourth row, so it may be anything. -/
theorem trainTree_congr_of_undrawn_fourth :
    (∀ k ≤ 1, AgreeOnDraw Xoshiro fortyTrees (.ofDataset (lastRowApart 0))
      (.ofDataset (lastRowApart (.number 100))) 7 k) ∧
    ∃ m, TrainsAt Xoshiro fortyTrees (.ofDataset (lastRowApart 0)) 7 1 m ∧
      ∃ m', TrainsAt Xoshiro fortyTrees (.ofDataset (lastRowApart (.number 100))) 7 1 m' ∧
        m'.seed = m.seed ∧ m'.tree = m.tree := by
  have hagree : ∀ k < 2, AgreeOnDraw Xoshiro fortyTrees (.ofDataset (lastRowApart 0))
      (.ofDataset (lastRowApart (.number 100))) 7 k := by
    unfold AgreeOnDraw
    decide +kernel
  have hfails : (match attempt Xoshiro fortyTrees (.ofDataset (lastRowApart 0)) 7 0 with
      | .error e => e.isDegenerate
      | .ok _ => false) = true := by
    decide +kernel
  have hgrows : (attempt Xoshiro fortyTrees (.ofDataset (lastRowApart 0)) 7 1).isOk = true := by
    decide +kernel
  replace hagree := fun k hk => hagree k (Nat.lt_succ_of_le hk)
  obtain ⟨m, hm⟩ := exists_ok_of_isOk hgrows
  have hat : TrainsAt Xoshiro fortyTrees (.ofDataset (lastRowApart 0)) 7 1 m := by
    refine trainsAt_of_attempt (by decide) hm fun j hj => ?_
    obtain rfl : j = 0 := Nat.lt_one_iff.1 hj
    split at hfails
    · next e he => exact ⟨e, he, hfails⟩
    · next => cases hfails
  obtain ⟨m', hm', hseed, htree, -⟩ :=
    trainTree_congr_of_undrawn (d := lastRowApart 0) (e := lastRowApart (.number 100)) rfl rfl rfl
      hat hagree
  exact ⟨hagree, m, hat, m', hm', hseed, htree⟩

end Forest
end PursuitForest
