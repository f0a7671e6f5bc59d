import PursuitForest.Proofs.Forest.Endings
import PursuitForest.Proofs.Forest.Simulation
import PursuitForest.Proofs.Random.Choice
import PursuitForest.Proofs.Tree.Simulation
/-!
Choosing as many columns as there are.

Such a choice is all columns, whatever the generator (`ColumnPolicy.select_of_count_eq`), so splits
do not see whether columns are chosen or taken. The generators of the two runs part at the first
choice, but after the bootstrap draw nothing is read off them than choices of columns: the runs grow
the same nodes (`grow_alike_of_count_eq`), and the same trees of a forest on the same draws.
-/

namespace PursuitForest

variable {F L G G' : Type} [RandomSource G] [RandomSource G']

/-! ### Choices of all columns -/

/-- A policy that keeps all columns keeps each in its place. -/
theorem ColumnPolicy.select_of_count_eq {p : ColumnPolicy} {width : Nat} (hp : p.count width = width)
    (g : G) : ∃ g', p.select (F := F) (L := L) width g = .ok (⟨List.range width, width⟩, g') := by
  cases p with
  | all => exact ⟨g, rfl⟩
  | random n =>
    obtain rfl : n = width := hp
    refine ⟨(choose n n g).2, ?_⟩
    rw [select, if_neg (Nat.lt_irrefl n), ← choose_self n g]

theorem TreeSettings.checkWidth_of_count_eq {settings : TreeSettings F} {width : Nat}
    (hs : settings.columns.count width = width) :
    settings.checkWidth (F := F) (L := L) width = .ok () := by
  refine checkWidth_of_not_exceeds ?_
  rintro ⟨n, hn, hlt⟩
  rw [hn] at hs
  exact Nat.ne_of_gt hlt hs

/-! ### Trees -/

variable [Scalar F] [Eigensolver F] [Label L]

/-- The same weight, and all columns. -/
structure TreeSettings.BothTakeAll (s t : TreeSettings F) (width : Nat) : Prop where
  lambda_eq : s.lambda = t.lambda
  left : s.columns.count width = width
  right : t.columns.count width = width

section
variable {s t : TreeSettings F} {d : GroupedDataset F L}

theorem divide_fst_eq (h : s.BothTakeAll t d.width) (g : G) (g' : G') :
    (divide s d g).1 = (divide t d g').1 := by
  obtain ⟨g₁, hg⟩ := ColumnPolicy.select_of_count_eq (F := F) (L := L) h.left g
  obtain ⟨g₁', hg'⟩ := ColumnPolicy.select_of_count_eq (F := F) (L := L) h.right g'
  rw [divide, divide, hg, hg', h.lambda_eq]

/-- Doing a task comes to the same tasks and nodes. -/
theorem perform_fst_eq {task : Task F L} (h : ∀ d, task = .grow d → s.BothTakeAll t d.width)
    (built : List (Node F L)) (g : G) (g' : G') :
    (perform s task built g).1 = (perform t task built g').1 := by
  cases task with
  | assemble projector threshold =>
    simp only [perform]
    split <;> rfl
  | grow d =>
    have hdivide := divide_fst_eq (h d rfl) g g'
    have hbranch : (branch s d g).1 = (branch t d g').1 := by rw [branch_eq, branch_eq, hdivide]
    simp only [perform]
    split
    · rfl
    · rfl
    · rw [hdivide]
    · rw [hbranch]

/-- Trees that take all columns grow alike, whatever the generators. -/
theorem grow_alike_of_count_eq (h : s.BothTakeAll t d.width) (g : G) (g' : G') :
    (grow s d g).1 = (grow t d g').1 := by
  have hcheck : checkGrowth (L := L) s d = checkGrowth t d := by
    rw [checkGrowth, checkGrowth, TreeSettings.checkWidth_of_count_eq h.left,
      TreeSettings.checkWidth_of_count_eq h.right]
  have hstart : (Builder.start d g).Alike Eq Eq (fun _ _ => True) (Builder.start d g') :=
    ⟨.cons rfl .nil, .nil, trivial⟩
  refine (grow_alike rfl ?_ rfl (within_start d g) hstart
    (fun b b₁ hb hround => hb.round hround) ?_).outcome.eq
  · rw [hcheck]
    exact (Alike.refl _).mono fun _ _ _ => trivial
  · rintro b b' hb ⟨-, hbuilt, -⟩ task htask _ rfl
    refine ⟨?_, trivial⟩
    rw [List.forall₂_eq_eq_eq] at hbuilt
    -- all nodes are as wide as the data
    have hall : ∀ part, task = .grow part → s.BothTakeAll t part.width := by
      rintro part rfl
      rwa [(hb part (List.mem_of_mem_head? htask)).width_eq]
    rw [← hbuilt, perform_fst_eq hall b.built b.source b'.source]
    refine (Alike.refl _).mono ?_
    rintro q _ rfl
    rw [List.forall₂_eq_eq_eq, List.forall₂_eq_eq_eq]
    exact ⟨rfl, rfl⟩

end

/-! ### Forests -/

/-- The same number of trees, seed and retries, and trees that take all columns. -/
structure ForestSettings.BothTakeAll (s t : ForestSettings F) (width : Nat) : Prop where
  size_eq : s.size = t.size
  seed_eq : s.seed = t.seed
  retries_eq : s.retries = t.retries
  tree : s.tree.BothTakeAll t.tree width

/-- The same seed, draw and root. -/
structure Member.SameRoot (m m' : Member F L) : Prop where
  seed_eq : m.seed = m'.seed
  draw_eq : m.draw = m'.draw
  root_eq : m.tree.root = m'.tree.root

theorem Forest.trainTree_alike {s t : ForestSettings F} {data : GroupedDataset F L}
    (h : s.BothTakeAll t data.width) (index : Nat) :
    Alike Eq Member.SameRoot (trainTree G s data index) (trainTree G t data index) := by
  rw [trainTree, trainTree, ← h.retries_eq]
  refine attemptFrom_alike retried_eq fun k _ => ?_
  -- the draw is made before any column is chosen
  have hdraw : attemptDraw G t data index (0 + k) = attemptDraw G s data index (0 + k) := by
    rw [attemptDraw, attemptDraw, h.seed_eq]
  have hgrowth : attemptGrowth G s data index (0 + k) = attemptGrowth G t data index (0 + k) := by
    rw [attemptGrowth, attemptGrowth, hdraw]
    exact grow_alike_of_count_eq (d := (attemptDraw G s data index (0 + k)).1.sampleData) h.tree
      (attemptDraw G s data index (0 + k)).2 (attemptDraw G s data index (0 + k)).2
  rw [attempt_eq, attempt_eq, hgrowth]
  refine (Alike.refl _).map ?_
  rintro root _ rfl
  refine ⟨?_, ?_, rfl⟩
  · show deriveSeed s.seed _ _ = deriveSeed t.seed _ _
    rw [h.seed_eq]
  · rw [attemptMember, attemptMember, hdraw]

/-- Trees and forests that choose as many columns for every split as the data have, and those that
take all columns, come to the same roots, whatever the seeds of the trees, or fail with the same
error. The trees of the forests have the same seeds and draws. Forests may be trained on different
numbers of threads where these can be had. -/
theorem fit_chosen_alike_all (G : Type) [RandomSource G] (d : Dataset F L) :
    (∀ s t : TreeSettings.Checked F, s.val.columns = .random d.width → t.val.columns = .all →
      s.val.lambda = t.val.lambda →
        Alike Eq (fun t t' => t.root = t'.root) (Tree.fit G s d) (Tree.fit G t d)) ∧
    ∀ s t : ForestSettings.Checked F, s.val.tree.columns = .random d.width →
      t.val.tree.columns = .all → s.val.tree.lambda = t.val.tree.lambda →
      s.val.size = t.val.size → s.val.seed = t.val.seed → s.val.retries = t.val.retries →
      ∀ crew : Crew, s.val.threads = t.val.threads ∨
          crew.Serves s.val.threads ∧ crew.Serves t.val.threads →
        Alike Eq (fun f f' => List.Forall₂ Member.SameRoot f.members f'.members)
          (Forest.fit G crew s d) (Forest.fit G crew t d) := by
  have hboth : ∀ s t : TreeSettings F, s.columns = .random d.width → t.columns = .all →
      s.lambda = t.lambda → s.BothTakeAll t d.width := fun s t hs ht hlambda =>
    ⟨hlambda, by rw [hs]; rfl, by rw [ht]; rfl⟩
  refine ⟨fun s t hs ht hlambda => ?_,
    fun s t hs ht hlambda hsize hseed hretries crew hthreads => ?_⟩
  · have hgrow := grow_alike_of_count_eq (d := .ofDataset d) (hboth s.val t.val hs ht hlambda)
      (RandomSource.ofSeed s.val.seed : G) (RandomSource.ofSeed t.val.seed : G)
    rw [treeFit_eq, treeFit_eq, hgrow]
    refine (Alike.refl _).map ?_
    rintro root _ rfl
    rfl
  · have hall : s.val.BothTakeAll t.val d.width :=
      ⟨hsize, hseed, hretries, hboth s.val.tree t.val.tree hs ht hlambda⟩
    refine (Forest.fit_alike crew rfl rfl ?_ (Crew.engage_alike (fun _ => rfl) hthreads) hsize
      fun _ index _ => Forest.trainTree_alike hall index).mono fun f f' hf => hf.1
    rw [TreeSettings.checkWidth_of_count_eq hall.tree.left,
      TreeSettings.checkWidth_of_count_eq hall.tree.right]
    exact .ok trivial

/-- Both columns of three classes, chosen and taken. -/
theorem fit_chosen_alike_all_threeClasses :
    (∃ s t : Tree Exact Nat, s.root = t.root ∧
      Tree.fit Xoshiro ⟨⟨0, .random 2, 7⟩, by decide⟩ Exact.threeClasses.toDataset = .ok s ∧
      Tree.fit Xoshiro ⟨⟨0, .all, 0⟩, by decide⟩ Exact.threeClasses.toDataset = .ok t) ∧
    ∃ e f : Forest Exact Nat, List.Forall₂ Member.SameRoot e.members f.members ∧
      Forest.fit Xoshiro .orderly ⟨⟨2, 5, none, 3, ⟨0, .random 2, 0⟩⟩, by decide⟩
        Exact.threeClasses.toDataset = .ok e ∧
      Forest.fit Xoshiro .orderly ⟨⟨2, 5, some 4, 3, ⟨0, .all, 1⟩⟩, by decide⟩
        Exact.threeClasses.toDataset = .ok f := by
  obtain ⟨htree, hforest⟩ := fit_chosen_alike_all Xoshiro Exact.threeClasses.toDataset
  obtain ⟨t, ht⟩ := exists_ok_of_isOk (x := Tree.fit Xoshiro ⟨⟨0, .all, 0⟩, by decide⟩
    Exact.threeClasses.toDataset) (by decide +kernel)
  obtain ⟨f, hf⟩ := exists_ok_of_isOk
    (x := Forest.fit Xoshiro .orderly ⟨⟨2, 5, some 4, 3, ⟨0, .all, 1⟩⟩, by decide⟩
      Exact.threeClasses.toDataset) (by decide +kernel)
  have hs := htree ⟨⟨0, .random 2, 7⟩, by decide⟩ ⟨⟨0, .all, 0⟩, by decide⟩ rfl rfl rfl
  have he := hforest ⟨⟨2, 5, none, 3, ⟨0, .random 2, 0⟩⟩, by decide⟩
    ⟨⟨2, 5, some 4, 3, ⟨0, .all, 1⟩⟩, by decide⟩ rfl rfl rfl rfl rfl rfl .orderly
    (.inr ⟨Crew.serves_orderly _, Crew.serves_orderly _⟩)
  rw [ht] at hs
  rw [hf] at he
  obtain ⟨s, hs, hroot⟩ := hs.exists_of_right
  obtain ⟨e, he, hmembers⟩ := he.exists_of_right
  exact ⟨⟨s, t, hroot, hs, ht⟩, e, f, hmembers, he, hf⟩

end PursuitForest
