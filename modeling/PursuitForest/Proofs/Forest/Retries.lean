import Mathlib.Data.Nat.Find
import PursuitForest.Proofs.Forest.Endings
import PursuitForest.Proofs.Forest.OutOfBag
import PursuitForest.Proofs.Forest.Size
/-!
How often a tree is tried.

The attempts at a tree are written down with what each of them grew (`Attempts`). There is one such
record, and it ends with the first attempt that finds a split or fails otherwise, or else with the last
retry. More retries are only made where these were not enough, so they change no tree of a forest that
can be grown with fewer (`trainTree_eq_first_settled`).
-/

namespace PursuitForest

/-- The settings with another number of retries. -/
def ForestSettings.Checked.withRetries {F : Type} [Scalar F] (s : ForestSettings.Checked F)
    (retries : Nat) : ForestSettings.Checked F :=
  ⟨{ s.val with retries }, s.property⟩

namespace Forest

variable {F L G : Type} [Scalar F] [Eigensolver F] [Label L] [RandomSource G]
  {settings : ForestSettings F} {data : GroupedDataset F L} {index : Nat}

/-! ### Records of attempts -/

/-- An attempt whose draw admits no split. -/
def FindsNoSplit (G : Type) [RandomSource G] (settings : ForestSettings F) (data : GroupedDataset F L)
    (index number : Nat) : Prop :=
  ∃ cause, attemptGrowth G settings data index number = .error (.degenerate cause)

theorem findsNoSplit_iff {number : Nat} : FindsNoSplit G settings data index number ↔
    (match attemptGrowth G settings data index number with
      | .error e => e.isDegenerate
      | .ok _ => false) = true := by
  unfold FindsNoSplit
  cases attemptGrowth G settings data index number with
  | error e => simp [Error.isDegenerate_iff]
  | ok root => simp

instance (number : Nat) : Decidable (FindsNoSplit G settings data index number) :=
  decidable_of_iff _ findsNoSplit_iff.symm

theorem attemptDegenerate_iff {number : Nat} : AttemptDegenerate G settings data index number ↔
    FindsNoSplit G settings data index number := by
  simp only [AttemptDegenerate, attempt_eq_error_iff, Error.isDegenerate_iff, FindsNoSplit]
  constructor
  · rintro ⟨e, he, cause, rfl⟩
    exact ⟨cause, he⟩
  · rintro ⟨cause, he⟩
    exact ⟨_, he, cause, rfl⟩

/-- Attempts from `number` on, as long as `left` retries last: what each of them grew, and what the tree
comes to. -/
inductive Attempts (G : Type) [RandomSource G] (settings : ForestSettings F)
    (data : GroupedDataset F L) (index : Nat) : (left number : Nat) →
      List (Except (Error F L) (Node F L)) → Except (Error F L) (Member F L) → Prop
  | settled {left number : Nat} (h : ¬ FindsNoSplit G settings data index number) :
      Attempts G settings data index left number [attemptGrowth G settings data index number]
        (attempt G settings data index number)
  | exhausted {number : Nat} {cause : Degeneracy F L}
      (h : attemptGrowth G settings data index number = .error (.degenerate cause)) :
      Attempts G settings data index 0 number [attemptGrowth G settings data index number]
        (.error (.retriesExhausted number (.degenerate cause)))
  | again {left number : Nat} {grown : List (Except (Error F L) (Node F L))}
      {outcome : Except (Error F L) (Member F L)} (h : FindsNoSplit G settings data index number)
      (hrest : Attempts G settings data index left (number + 1) grown outcome) :
      Attempts G settings data index (left + 1) number
        (attemptGrowth G settings data index number :: grown) outcome

/-- What as many attempts grow from `number` on. -/
def growths (G : Type) [RandomSource G] (settings : ForestSettings F) (data : GroupedDataset F L)
    (index number count : Nat) : List (Except (Error F L) (Node F L)) :=
  (List.range' number count).map (attemptGrowth G settings data index)

theorem growths_succ (number count : Nat) : growths G settings data index number (count + 1) =
    attemptGrowth G settings data index number :: growths G settings data index (number + 1) count :=
  rfl

/-- The loop comes to what its record says. -/
theorem Attempts.attemptFrom_eq {left number : Nat} {grown : List (Except (Error F L) (Node F L))}
    {outcome : Except (Error F L) (Member F L)}
    (h : Attempts G settings data index left number grown outcome) :
    attemptFrom G settings data index left number = outcome := by
  induction h with
  | @settled left number h =>
    rw [attemptFrom.eq_def]
    dsimp only
    cases hm : attempt G settings data index number with
    | ok m => rfl
    | error e =>
      have hdeg : ¬ e.isDegenerate = true := fun hdeg => h (attemptDegenerate_iff.1 ⟨e, hm, hdeg⟩)
      simp only [hdeg, Bool.false_eq_true, if_false]
  | exhausted h =>
    rw [attemptFrom.eq_def]
    dsimp only
    rw [attempt_eq_error_iff.2 h]
    rfl
  | again h _ ih =>
    obtain ⟨cause, h⟩ := h
    rw [attemptFrom.eq_def]
    dsimp only
    rw [attempt_eq_error_iff.2 h]
    exact ih

/-- There is one record at most. -/
theorem Attempts.grown_eq {left number : Nat} {grown grown' : List (Except (Error F L) (Node F L))}
    {outcome outcome' : Except (Error F L) (Member F L)}
    (h : Attempts G settings data index left number grown outcome)
    (h' : Attempts G settings data index left number grown' outcome') : grown' = grown := by
  induction h generalizing grown' with
  | settled h =>
    cases h' with
    | settled => rfl
    | exhausted => rfl
    | again h' => exact absurd h' h
  | exhausted h =>
    cases h' with
    | settled => rfl
    | exhausted => rfl
  | again h hrest ih =>
    cases h' with
    | settled h' => exact absurd h h'
    | again _ hrest' => rw [ih hrest']

/-- Attempt `last` is the first one that finds a split or fails otherwise. -/
structure FirstSettled (G : Type) [RandomSource G] (settings : ForestSettings F)
    (data : GroupedDataset F L) (index last : Nat) : Prop where
  le_retries : last ≤ settings.retries
  settled : ¬ FindsNoSplit G settings data index last
  before : ∀ a < last, FindsNoSplit G settings data index a

/-- Attempts go on up to the first that settles the tree. -/
theorem attempts_of_settled {k left : Nat} (number : Nat) (hk : k ≤ left)
    (h : ¬ FindsNoSplit G settings data index (number + k))
    (hbefore : ∀ j < k, FindsNoSplit G settings data index (number + j)) :
    Attempts G settings data index left number (growths G settings data index number (k + 1))
      (attempt G settings data index (number + k)) := by
  induction k generalizing left number with
  | zero => exact .settled h
  | succ k ih =>
    obtain ⟨left, rfl⟩ := Nat.exists_eq_add_of_le' hk
    -- the attempts after this one count from the next number on
    have hnext : ∀ j, number + (j + 1) = number + 1 + j := by
      intro j
      omega
    rw [hnext] at h
    rw [hnext, growths_succ]
    refine .again (hbefore 0 (Nat.succ_pos k)) ?_
    refine ih (number + 1) (Nat.le_add_left k left) h ?_
    intro j hj
    rw [← hnext]
    exact hbefore (j + 1) (Nat.succ_lt_succ hj)

/-- Where no attempt settles the tree, all retries are made. -/
theorem attempts_of_exhausted {left : Nat} (number : Nat)
    (h : ∀ j ≤ left, FindsNoSplit G settings data index (number + j)) :
    ∃ cause, attemptGrowth G settings data index (number + left) = .error (.degenerate cause) ∧
      Attempts G settings data index left number (growths G settings data index number (left + 1))
        (.error (.retriesExhausted (number + left) (.degenerate cause))) := by
  induction left generalizing number with
  | zero =>
    obtain ⟨cause, hcause⟩ := h 0 (Nat.le_refl 0)
    exact ⟨cause, hcause, .exhausted hcause⟩
  | succ left ih =>
    have hnext : ∀ j, number + (j + 1) = number + 1 + j := by
      intro j
      omega
    have hrest : ∀ j ≤ left, FindsNoSplit G settings data index (number + 1 + j) := by
      intro j hj
      rw [← hnext]
      exact h (j + 1) (Nat.succ_le_succ hj)
    obtain ⟨cause, hcause, hattempts⟩ := ih (number + 1) hrest
    rw [hnext]
    exact ⟨cause, hcause, .again (h 0 (Nat.zero_le _)) hattempts⟩

section
variable {last : Nat}

theorem FirstSettled.attempts (h : FirstSettled G settings data index last) :
    Attempts G settings data index settings.retries 0 (growths G settings data index 0 (last + 1))
      (attempt G settings data index last) := by
  have hattempts := attempts_of_settled 0 h.le_retries
    (by rw [Nat.zero_add]; exact h.settled)
    (by intro j hj; rw [Nat.zero_add]; exact h.before j hj)
  rwa [Nat.zero_add] at hattempts

theorem FirstSettled.trainTree_eq (h : FirstSettled G settings data index last) :
    trainTree G settings data index = attempt G settings data index last :=
  h.attempts.attemptFrom_eq

/-- Either some attempt is the first to settle the tree or none settles it. -/
theorem exists_firstSettled_or (G : Type) [RandomSource G] (settings : ForestSettings F)
    (data : GroupedDataset F L) (index : Nat) : (∃ last, FirstSettled G settings data index last) ∨
    ∀ a ≤ settings.retries, FindsNoSplit G settings data index a := by
  by_cases h : ∃ a, a ≤ settings.retries ∧ ¬ FindsNoSplit G settings data index a
  · obtain ⟨hle, hsettled⟩ := Nat.find_spec h
    refine .inl ⟨Nat.find h, hle, hsettled, ?_⟩
    intro a ha
    by_contra hnot
    exact Nat.find_min h ha ⟨Nat.le_trans (Nat.le_of_lt ha) hle, hnot⟩
  · refine .inr ?_
    intro a ha
    by_contra hnot
    exact h ⟨a, ha, hnot⟩

end

/-- Where no attempt settles the tree, the cause of the last one is reported. -/
theorem exists_exhausted (h : ∀ a ≤ settings.retries, FindsNoSplit G settings data index a) :
    ∃ cause, attemptGrowth G settings data index settings.retries = .error (.degenerate cause) ∧
      trainTree G settings data index =
        .error (.retriesExhausted settings.retries (.degenerate cause)) ∧
      Attempts G settings data index settings.retries 0
        (growths G settings data index 0 (settings.retries + 1))
        (.error (.retriesExhausted settings.retries (.degenerate cause))) := by
  have hattempts := attempts_of_exhausted 0 (by
    intro j hj
    rw [Nat.zero_add]
    exact h j hj)
  rw [Nat.zero_add] at hattempts
  obtain ⟨cause, hcause, hattempts⟩ := hattempts
  exact ⟨cause, hcause, hattempts.attemptFrom_eq, hattempts⟩

/-- Training has a record, of one attempt more than retries at most. -/
theorem exists_attempts (G : Type) [RandomSource G] (settings : ForestSettings F)
    (data : GroupedDataset F L) (index : Nat) : ∃ count ≤ settings.retries + 1,
      Attempts G settings data index settings.retries 0 (growths G settings data index 0 count)
        (trainTree G settings data index) := by
  rcases exists_firstSettled_or G settings data index with ⟨last, h⟩ | h
  · rw [h.trainTree_eq]
    exact ⟨last + 1, Nat.succ_le_succ h.le_retries, h.attempts⟩
  · obtain ⟨cause, -, htrain, hattempts⟩ := exists_exhausted h
    rw [htrain]
    exact ⟨settings.retries + 1, Nat.le_refl _, hattempts⟩

/-! ### More retries -/

/-- A tree that can be trained is the same with more retries. -/
theorem trainTree_withRetries {settings : ForestSettings.Checked F} {more : Nat}
    (hmore : settings.val.retries ≤ more) {m : Member F L}
    (h : trainTree G settings.val data index = .ok m) :
    trainTree G (settings.withRetries more).val data index = .ok m := by
  rw [trainTree_eq_iff (settled_ok m)] at h ⊢
  obtain ⟨k, hk, hm, hbefore⟩ := h
  exact ⟨k, Nat.le_trans hk hmore, hm, hbefore⟩

/-- A forest that can be grown has the same trees with more retries, whatever the crew. -/
theorem fit_withRetries {crew crew' : Crew} {settings : ForestSettings.Checked F} {more : Nat}
    (hmore : settings.val.retries ≤ more) (hcrew : crew'.Serves settings.val.threads)
    {d : Dataset F L} {f : Forest F L} (h : fit G crew settings d = .ok f) :
    fit G crew' (settings.withRetries more) d =
      .ok { f with settings := (settings.withRetries more).val } := by
  obtain ⟨hd, hwidth, -, members, hmembers, rfl⟩ := fit_eq_ok_iff.1 h
  have htrees := mapM_eq_ok_of_imp (fun _ _ _ => trainTree_withRetries hmore) hmembers
  exact fit_eq_ok_iff.2 ⟨hd, hwidth, hcrew, members, htrees, rfl⟩

/-! ### Trees and their attempts -/

/-- A tree comes of the first attempt that finds a split or fails otherwise: it has the seed and the draw
of that attempt and what was grown on it, or training fails as that attempt did. If no attempt within the
retries is such, they are all made, and the cause of the last one is reported. There is one record of the
attempts in either case, so training ends. A forest that can be grown has the same trees with more
retries, also with another crew that has its threads. -/
theorem trainTree_eq_first_settled (G : Type) [RandomSource G] (settings : ForestSettings.Checked F) :
    (∀ (data : GroupedDataset F L) (index last : Nat), FirstSettled G settings.val data index last →
      Attempts G settings.val data index settings.val.retries 0
        (growths G settings.val data index 0 (last + 1)) (trainTree G settings.val data index) ∧
      (∀ root, attemptGrowth G settings.val data index last = .ok root →
        ∃ m, trainTree G settings.val data index = .ok m ∧ m.tree.root = root ∧
          m.seed = deriveSeed settings.val.seed (.ofNat index) (.ofNat last) ∧
          m.draw = some (BootstrapDraw.stratified data (RandomSource.ofSeed m.seed : G)).1) ∧
      ∀ e, attemptGrowth G settings.val data index last = .error e →
        trainTree G settings.val data index = .error e) ∧
    (∀ (data : GroupedDataset F L) (index : Nat),
      (∀ a ≤ settings.val.retries, FindsNoSplit G settings.val data index a) →
      ∃ cause,
        attemptGrowth G settings.val data index settings.val.retries = .error (.degenerate cause) ∧
        trainTree G settings.val data index =
          .error (.retriesExhausted settings.val.retries (.degenerate cause)) ∧
        Attempts G settings.val data index settings.val.retries 0
          (growths G settings.val data index 0 (settings.val.retries + 1))
          (trainTree G settings.val data index)) ∧
    (∀ (data : GroupedDataset F L) (index : Nat), ∃ count ≤ settings.val.retries + 1,
      ∀ grown outcome, Attempts G settings.val data index settings.val.retries 0 grown outcome ↔
        grown = growths G settings.val data index 0 count ∧
          outcome = trainTree G settings.val data index) ∧
    ∀ (crew crew' : Crew) (d : Dataset F L) (f : Forest F L) (more : Nat),
      settings.val.retries ≤ more → crew'.Serves settings.val.threads →
      fit G crew settings d = .ok f →
        ∃ f', fit G crew' (settings.withRetries more) d = .ok f' ∧ f'.members = f.members := by
  refine ⟨?_, ?_, ?_, ?_⟩
  · intro data index last h
    rw [h.trainTree_eq]
    refine ⟨h.attempts, ?_, ?_⟩
    · intro root hroot
      exact ⟨_, attempt_eq_ok_iff.2 ⟨root, hroot, rfl⟩, rfl, rfl, rfl⟩
    · intro e he
      exact attempt_eq_error_iff.2 he
  · intro data index h
    obtain ⟨cause, hcause, htrain, hattempts⟩ := exists_exhausted h
    rw [htrain]
    exact ⟨cause, hcause, rfl, hattempts⟩
  · intro data index
    obtain ⟨count, hle, hattempts⟩ := exists_attempts G settings.val data index
    refine ⟨count, hle, fun grown outcome => ⟨?_, ?_⟩⟩
    · intro h
      exact ⟨hattempts.grown_eq h, h.attemptFrom_eq.symm⟩
    · rintro ⟨rfl, rfl⟩
      exact hattempts
  · intro crew crew' d f more hmore hcrew h
    exact ⟨_, fit_withRetries hmore hcrew h, rfl⟩

/-- The eighth tree comes of its second attempt. Equal rows are drawn twice, as one retry allows, to no
avail. Three trees that need one retry at most are the same with five. -/
theorem trainTree_eq_first_settled_lastRowApart :
    (∃ m, trainTree Xoshiro fortyTrees (.ofDataset (lastRowApart 0)) 7 = .ok m ∧
      m.seed = deriveSeed 3 7 1) ∧
    (∃ cause, trainTree Xoshiro oneTree.val (.ofDataset equalRows) 0 =
      .error (.retriesExhausted 1 (.degenerate cause))) ∧
    ∃ f f', fit Xoshiro .orderly threeTrees Exact.threeClasses.toDataset = .ok f ∧
      fit Xoshiro .orderly (threeTrees.withRetries 5) Exact.threeClasses.toDataset = .ok f' ∧
      f'.members = f.members := by
  have hvalid : fortyTrees.Valid := by decide
  refine ⟨?_, ?_, ?_⟩
  · have hfirst : FirstSettled Xoshiro fortyTrees (.ofDataset (lastRowApart 0)) 7 1 :=
      ⟨by decide, by decide +kernel, by decide +kernel⟩
    have hgrows :
        (attemptGrowth Xoshiro fortyTrees (.ofDataset (lastRowApart 0)) 7 1).isOk = true := by
      decide +kernel
    obtain ⟨root, hroot⟩ := exists_ok_of_isOk hgrows
    obtain ⟨-, hok, -⟩ := (trainTree_eq_first_settled Xoshiro ⟨fortyTrees, hvalid⟩).1 _ _ _ hfirst
    obtain ⟨m, hm, -, hseed, -⟩ := hok root hroot
    exact ⟨m, hm, hseed⟩
  · have hfails : ∀ a ≤ 1, FindsNoSplit Xoshiro oneTree.val (.ofDataset equalRows) 0 a := by
      decide +kernel
    obtain ⟨cause, -, htrain, -⟩ := (trainTree_eq_first_settled Xoshiro oneTree).2.1 _ 0 hfails
    exact ⟨cause, htrain⟩
  · have hok : (fit Xoshiro .orderly threeTrees Exact.threeClasses.toDataset).isOk = true := by
      decide +kernel
    obtain ⟨f, hf⟩ := exists_ok_of_isOk hok
    have hmore : threeTrees.val.retries ≤ 5 := by decide
    obtain ⟨f', hf', hmembers⟩ :=
      (trainTree_eq_first_settled Xoshiro threeTrees).2.2.2 .orderly .orderly _ f 5 hmore
        (Crew.serves_orderly _) hf
    exact ⟨f, f', hf, hf', hmembers⟩

end Forest
end PursuitForest
