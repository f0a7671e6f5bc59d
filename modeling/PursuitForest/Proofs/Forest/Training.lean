import PursuitForest.Forest.Model
import PursuitForest.Proofs.Dataset.Classes
import PursuitForest.Proofs.Forest.Crews
import PursuitForest.Proofs.Outcomes
/-!
Training the trees of a forest.

A tree that is trained, or an error that is neither for want of a split nor of a retry, comes of the
first attempt that does not fail for want of a split (`trainTree_eq_iff`). All that a tree was grown
on can be had again from its seed (`trained_of_trainTree`), and a fitted forest is made of such trees
(`grown_of_fit`), whatever the crew (`fit_of_serves`). Where none is fitted although there are rows,
columns and threads, the error is that of a tree which cannot be trained
(`exists_trainTree_of_fit_eq_error`), and any crew may report it (`exists_reporting_of_fit_eq_error`).
A sample of data with rows has rows.
-/

namespace PursuitForest

/-! ### Samples -/

section
variable {F L G : Type} [Label L] [RandomSource G]

namespace BootstrapDraw

theorem first_mem_drawBlock {start size : Nat} {g : G} : ∀ {count : Nat}, 0 < count →
    start + (below .whole size g).1 ∈ (drawBlock start size count g).1
  | _ + 1, _ => List.mem_cons_self

omit [Label L] in
/-- Every class that has rows gives some to a sample. -/
theorem exists_drawn : ∀ (start : Nat) (g : G) {cs : List (ClassGroup F L)} {c : ClassGroup F L},
    c ∈ cs → c.rows ≠ [] → ∃ (i : Nat) (r : List F), start + i ∈ (drawBlocks start cs g).1 ∧
      (cs.flatMap fun c => c.rows.map fun r => Observation.mk r c.label)[i]? = some ⟨r, c.label⟩
  | start, g, first :: cs, c, hc, hrows => by
      rw [drawBlocks, List.flatMap_cons]
      rcases List.mem_cons.1 hc with rfl | hc
      · -- the first number drawn is a place of the first block
        have hpos := List.length_pos_iff.2 hrows
        have hlt := below_lt (w := .whole) hpos g
        refine ⟨_, c.rows[(below .whole c.rows.length g).1],
          List.mem_append_left _ (first_mem_drawBlock hpos), ?_⟩
        rw [List.getElem?_append_left (by simpa using hlt), List.getElem?_map,
          List.getElem?_eq_getElem hlt]
        rfl
      · obtain ⟨i, r, hi, hrow⟩ := exists_drawn (start + first.rows.length)
          (drawBlock start first.rows.length first.rows.length g).2 hc hrows
        refine ⟨first.rows.length + i, r, ?_, ?_⟩
        · rw [← Nat.add_assoc]
          exact List.mem_append_right _ hi
        · rw [List.getElem?_append_right (by simp), List.length_map, Nat.add_sub_cancel_left]
          exact hrow

/-- A sample has rows of the classes that the data have rows of. -/
theorem presentClasses_sampleData (data : GroupedDataset F L) (g : G) :
    (stratified data g).1.sampleData.presentClasses = data.presentClasses := by
  refine LabelSet.ext_mem fun label => ?_
  rw [sampleData, GroupedDataset.presentClasses_ofDataset, Dataset.presentClasses, LabelSet.mem_ofList,
    GroupedDataset.mem_presentClasses]
  constructor
  · intro hlabel
    obtain ⟨o, ho, rfl⟩ := List.mem_map.1 hlabel
    obtain ⟨i, -, hi⟩ := List.mem_filterMap.1 ho
    have hmem : o ∈ data.toDataset.rows := List.mem_of_getElem? (List.getElem?_toArray.symm.trans hi)
    obtain ⟨c, hc, hrow⟩ := List.mem_flatMap.1 hmem
    obtain ⟨r, -, rfl⟩ := List.mem_map.1 hrow
    exact ⟨c, hc, rfl⟩
  · rintro ⟨c, hc, rfl⟩
    obtain ⟨i, r, hi, hrow⟩ := exists_drawn 0 g hc (data.inhabited c hc)
    rw [Nat.zero_add] at hi
    refine List.mem_map.2 ⟨⟨r, c.label⟩, List.mem_filterMap.2 ⟨i, hi, ?_⟩, rfl⟩
    exact (List.getElem?_toArray).trans hrow

theorem isEmpty_sampleData {data : GroupedDataset F L} (h : data.isEmpty = false) (g : G) :
    (stratified data g).1.sampleData.isEmpty = false := by
  refine GroupedDataset.isEmpty_eq_false ?_
  rw [← GroupedDataset.size_presentClasses, presentClasses_sampleData,
    GroupedDataset.size_presentClasses]
  exact GroupedDataset.groupCount_pos h

end BootstrapDraw

end

/-! ### Attempts -/

namespace Forest

variable {F L G : Type} [Scalar F] [Eigensolver F] [Label L] [RandomSource G]
  {settings : ForestSettings F} {data : GroupedDataset F L} {index : Nat} {m : Member F L}

/-- A member was grown on the draw of its seed. -/
structure Trained (G : Type) [RandomSource G] (settings : ForestSettings F)
    (data : GroupedDataset F L) (m : Member F L) : Prop where
  draw_eq : m.draw = some (BootstrapDraw.stratified data (RandomSource.ofSeed m.seed : G)).1
  width_eq : m.tree.width = data.width
  grows : ∃ g', grow settings.tree
    (BootstrapDraw.stratified data (RandomSource.ofSeed m.seed : G)).1.sampleData
    (BootstrapDraw.stratified data (RandomSource.ofSeed m.seed : G)).2 = (.ok m.tree.root, g')

theorem trained_of_attempt {number : Nat} (h : attempt G settings data index number = .ok m) :
    Trained G settings data m := by
  obtain ⟨root, hroot, h⟩ := bind_eq_ok_iff.1 h
  cases h
  exact ⟨rfl, rfl, _, Prod.ext hroot rfl⟩

/-- What an attempt draws, and the generator that is left to grow with. -/
def attemptDraw (G : Type) [RandomSource G] (settings : ForestSettings F) (data : GroupedDataset F L)
    (index number : Nat) : BootstrapDraw F L × G :=
  BootstrapDraw.stratified data
    (RandomSource.ofSeed (deriveSeed settings.seed (.ofNat index) (.ofNat number)))

/-- What an attempt grows on its draw. -/
def attemptGrowth (G : Type) [RandomSource G] (settings : ForestSettings F)
    (data : GroupedDataset F L) (index number : Nat) : Except (Error F L) (Node F L) :=
  (grow settings.tree (attemptDraw G settings data index number).1.sampleData
    (attemptDraw G settings data index number).2).1

/-- The tree that an attempt makes of a root. -/
def attemptMember (G : Type) [RandomSource G] (settings : ForestSettings F)
    (data : GroupedDataset F L) (index number : Nat) (root : Node F L) : Member F L where
  tree := ⟨root, settings.tree.withSeed (deriveSeed settings.seed (.ofNat index) (.ofNat number)),
    data.width, none⟩
  draw := some (attemptDraw G settings data index number).1

/-- An attempt comes to what grows on its draw. -/
theorem attempt_eq (G : Type) [RandomSource G] (settings : ForestSettings F)
    (data : GroupedDataset F L) (index number : Nat) : attempt G settings data index number =
      (attemptGrowth G settings data index number).map
        (attemptMember G settings data index number) :=
  bind_pure_comp _ (attemptGrowth G settings data index number)

theorem attempt_eq_ok_iff {number : Nat} : attempt G settings data index number = .ok m ↔
    ∃ root, attemptGrowth G settings data index number = .ok root ∧
      m = attemptMember G settings data index number root := by
  rw [attempt_eq]
  cases attemptGrowth G settings data index number <;> simp [Except.map, eq_comm]

theorem attempt_eq_error_iff {number : Nat} {e : Error F L} :
    attempt G settings data index number = .error e ↔
      attemptGrowth G settings data index number = .error e := by
  rw [attempt_eq, map_eq_error_iff]

/-- An attempt that finds no split. -/
def AttemptDegenerate (G : Type) [RandomSource G] (settings : ForestSettings F)
    (data : GroupedDataset F L) (index number : Nat) : Prop :=
  ∃ e, attempt G settings data index number = .error e ∧ e.isDegenerate = true

/-- A tree, or an error that is neither for want of a split nor for want of a retry. -/
def Settled (outcome : Except (Error F L) (Member F L)) : Prop :=
  ∀ e, outcome = .error e → e.isDegenerate = false ∧ ∀ n source, e ≠ .retriesExhausted n source

omit [Scalar F] [Eigensolver F] in
theorem settled_ok (m : Member F L) : Settled (.ok m) := by
  intro e he
  cases he

/-- A settled outcome is that of the next attempt, or of those after it. -/
theorem attemptFrom_eq_step {outcome : Except (Error F L) (Member F L)} (ho : Settled outcome)
    {left number : Nat} : attemptFrom G settings data index left number = outcome ↔
      attempt G settings data index number = outcome ∨
        AttemptDegenerate G settings data index number ∧
          ∃ l, left = l + 1 ∧ attemptFrom G settings data index l (number + 1) = outcome := by
  rw [attemptFrom.eq_def, AttemptDegenerate]
  dsimp only
  cases hm : attempt G settings data index number with
  | ok m => simp
  | error e =>
    cases hdeg : e.isDegenerate with
    | false => simp [hdeg]
    | true =>
      have hne : .error e ≠ outcome := by
        rintro rfl
        rw [(ho e rfl).1] at hdeg
        cases hdeg
      have hleft : .error (.retriesExhausted number e) ≠ outcome := by
        rintro rfl
        exact (ho _ rfl).2 number e rfl
      cases left with
      | zero => simp [hdeg, hne, hleft]
      | succ left => simp [hdeg, hne]

/-- A settled outcome is that of the first attempt that does not fail for want of a split. -/
theorem attemptFrom_eq_iff {outcome : Except (Error F L) (Member F L)} (ho : Settled outcome) :
    ∀ {left number : Nat}, attemptFrom G settings data index left number = outcome ↔
      ∃ k ≤ left, attempt G settings data index (number + k) = outcome ∧
        ∀ j < k, AttemptDegenerate G settings data index (number + j)
  | 0, number => by
      rw [attemptFrom_eq_step ho]
      constructor
      · rintro (h | ⟨-, l, hl, -⟩)
        · exact ⟨0, Nat.le_refl 0, h, fun j hj => absurd hj (Nat.not_lt_zero j)⟩
        · cases hl
      · rintro ⟨k, hk, h, -⟩
        obtain rfl : k = 0 := Nat.le_zero.1 hk
        exact .inl h
  | left + 1, number => by
      rw [attemptFrom_eq_step ho]
      constructor
      · rintro (h | ⟨hdeg, l, hl, h⟩)
        · exact ⟨0, Nat.zero_le _, h, fun j hj => absurd hj (Nat.not_lt_zero j)⟩
        · cases hl
          -- the recursion counts from the next attempt on, so its numbers are moved by one
          obtain ⟨k, hk, h, hbefore⟩ := (attemptFrom_eq_iff ho).1 h
          refine ⟨k + 1, Nat.succ_le_succ hk, by rwa [Nat.add_right_comm] at h, fun j hj => ?_⟩
          cases j with
          | zero => exact hdeg
          | succ j =>
            have hearlier := hbefore j (Nat.lt_of_succ_lt_succ hj)
            rwa [Nat.add_right_comm] at hearlier
      · rintro ⟨k, hk, h, hbefore⟩
        cases k with
        | zero => exact .inl h
        | succ k =>
          refine .inr ⟨hbefore 0 (Nat.succ_pos k), left, rfl, (attemptFrom_eq_iff ho).2
            ⟨k, Nat.le_of_succ_le_succ hk, by rwa [Nat.add_right_comm], fun j hj => ?_⟩⟩
          have hlater := hbefore (j + 1) (Nat.succ_lt_succ hj)
          rwa [Nat.add_right_comm]

/-- A tree is trained, or training fails otherwise than for want of a split, with the first attempt
that does not fail for want of a split. -/
theorem trainTree_eq_iff {outcome : Except (Error F L) (Member F L)} (ho : Settled outcome) :
    trainTree G settings data index = outcome ↔
      ∃ k ≤ settings.retries, attempt G settings data index k = outcome ∧
        ∀ j < k, AttemptDegenerate G settings data index j := by
  rw [trainTree, attemptFrom_eq_iff ho]
  simp only [Nat.zero_add]

theorem trained_of_trainTree (h : trainTree G settings data index = .ok m) :
    Trained G settings data m := by
  obtain ⟨number, -, hm, -⟩ := (trainTree_eq_iff (settled_ok m)).1 h
  exact trained_of_attempt hm

/-- A tree of a forest has the settings of all its trees, but for the seed. -/
theorem settings_of_trainTree (h : trainTree G settings data index = .ok m) :
    m.tree.settings = settings.tree.withSeed m.seed := by
  obtain ⟨number, -, hm, -⟩ := (trainTree_eq_iff (settled_ok m)).1 h
  obtain ⟨root, -, rfl⟩ := attempt_eq_ok_iff.1 hm
  rfl

/-! ### Fitted forests -/

/-- A forest of as many trained trees as the settings say. -/
structure Grown (G : Type) [RandomSource G] (settings : ForestSettings F)
    (data : GroupedDataset F L) (f : Forest F L) : Prop where
  size_eq : f.size = settings.size
  training_eq : f.training = some data
  trained : ∀ m ∈ f.members, Trained G settings data m

/-- A forest is fitted to data with rows and enough columns, on threads that can be had, if all its
trees are trained. -/
theorem fit_eq_ok_iff {crew : Crew} {settings : ForestSettings.Checked F} {d : Dataset F L}
    {f : Forest F L} : fit G crew settings d = .ok f ↔
      d.isEmpty = false ∧ settings.val.tree.checkWidth (L := L) d.width = .ok () ∧
        crew.Serves settings.val.threads ∧ ∃ members,
          (List.range settings.val.size).mapM (trainTree G settings.val (.ofDataset d)) =
            .ok members ∧ f = ⟨members, settings.val, some (.ofDataset d)⟩ := by
  constructor
  · intro h
    unfold fit at h
    split at h
    · cases h
    · next hd =>
      obtain ⟨⟨⟩, hwidth, h⟩ := bind_eq_ok_iff.1 h
      obtain ⟨⟨⟩, hengage, h⟩ := bind_eq_ok_iff.1 h
      obtain ⟨members, hmembers, h⟩ := bind_eq_ok_iff.1 h
      cases h
      refine ⟨Bool.eq_false_iff.2 hd, hwidth, ?_, members, Crew.collect_map_eq_ok_iff.1 hmembers, rfl⟩
      refine Classical.byContradiction fun hcrew => ?_
      obtain ⟨cause, hcause⟩ := Crew.engage_of_not_serves (F := F) (L := L) hcrew
      rw [hcause] at hengage
      cases hengage
  · rintro ⟨hd, hwidth, hcrew, members, hmembers, rfl⟩
    rw [fit, if_neg (Bool.eq_false_iff.1 hd)]
    refine bind_eq_ok_iff.2 ⟨(), hwidth, bind_eq_ok_iff.2 ⟨(), Crew.engage_of_serves hcrew, ?_⟩⟩
    exact bind_eq_ok_iff.2 ⟨members, Crew.collect_map_eq_ok_iff.2 hmembers, rfl⟩

section
variable {crew : Crew} {settings : ForestSettings.Checked F} {d : Dataset F L} {f : Forest F L}

/-- The trees of a fitted forest are trained, each at its place. -/
theorem exists_trainTree_of_fit (h : fit G crew settings d = .ok f) (hm : m ∈ f.members) :
    ∃ index, trainTree G settings.val (.ofDataset d) index = .ok m := by
  obtain ⟨-, -, -, members, hmembers, rfl⟩ := fit_eq_ok_iff.1 h
  obtain ⟨index, -, htrain⟩ := exists_of_mem_mapM hmembers hm
  exact ⟨index, htrain⟩

theorem grown_of_fit (h : fit G crew settings d = .ok f) :
    f.Grown G settings.val (.ofDataset d) := by
  have htrained : ∀ m ∈ f.members, Trained G settings.val (.ofDataset d) m := fun m hm => by
    obtain ⟨index, htrain⟩ := exists_trainTree_of_fit h hm
    exact trained_of_trainTree htrain
  obtain ⟨-, -, -, members, hmembers, rfl⟩ := fit_eq_ok_iff.1 h
  exact ⟨(length_of_mapM hmembers).trans List.length_range, rfl, htrained⟩

end

/-! ### Forests that are not fitted -/

section
variable {crew crew' : Crew} {settings : ForestSettings.Checked F} {d : Dataset F L} {e : Error F L}

/-- No forest grows on no rows. -/
theorem fit_of_isEmpty (crew : Crew) (settings : ForestSettings.Checked F) (hd : d.isEmpty = true) :
    fit G crew settings d = .error (.parameter .trainWithoutRows) := by
  rw [fit, if_pos hd]
  rfl

/-- Columns that are missing are missed before threads are taken on. -/
theorem fit_of_checkWidth (crew : Crew) (hd : d.isEmpty = false)
    (h : settings.val.tree.checkWidth d.width = .error e) : fit G crew settings d = .error e := by
  unfold fit
  rw [hd, h]
  rfl

theorem fit_of_not_serves (hd : d.isEmpty = false)
    (hwidth : settings.val.tree.checkWidth (L := L) d.width = .ok ())
    (hcrew : ¬ crew.Serves settings.val.threads) :
    ∃ cause, fit G crew settings d = .error (.threadPool cause) := by
  obtain ⟨cause, hcause⟩ := Crew.engage_of_not_serves (F := F) (L := L) hcrew
  refine ⟨cause, ?_⟩
  unfold fit
  rw [hd, hwidth, hcause]
  rfl

/-- With rows, columns and threads, a forest is made of its trees. -/
theorem fit_eq (G : Type) [RandomSource G] (hd : d.isEmpty = false)
    (hwidth : settings.val.tree.checkWidth (L := L) d.width = .ok ())
    (hcrew : crew.Serves settings.val.threads) : fit G crew settings d =
      (crew.collect ((List.range settings.val.size).map (trainTree G settings.val (.ofDataset d)))).map
        fun members => ⟨members, settings.val, some (.ofDataset d)⟩ := by
  unfold fit
  rw [hd, hwidth, Crew.engage_of_serves hcrew]
  exact bind_pure_comp _ (crew.collect _)

/-- The error is that of a tree which cannot be trained. -/
theorem exists_trainTree_of_fit_eq_error (hd : d.isEmpty = false)
    (hwidth : settings.val.tree.checkWidth (L := L) d.width = .ok ())
    (hcrew : crew.Serves settings.val.threads) (h : fit G crew settings d = .error e) :
    ∃ index < settings.val.size, trainTree G settings.val (.ofDataset d) index = .error e := by
  rw [fit_eq G hd hwidth hcrew, map_eq_error_iff] at h
  obtain ⟨index, hindex, hfails⟩ := List.mem_map.1 (Crew.mem_of_collect_eq_error h)
  exact ⟨index, List.mem_range.1 hindex, hfails⟩

/-- The error of any tree which cannot be trained may be the one. -/
theorem exists_reporting_fit (hd : d.isEmpty = false)
    (hwidth : settings.val.tree.checkWidth (L := L) d.width = .ok ())
    (hcrew : crew.Serves settings.val.threads) {index : Nat} (hindex : index < settings.val.size)
    (h : trainTree G settings.val (.ofDataset d) index = .error e) :
    ∃ place, fit G (crew.reporting place) settings d = .error e := by
  have hfails : .error e ∈
      (List.range settings.val.size).map (trainTree G settings.val (.ofDataset d)) :=
    List.mem_map.2 ⟨index, List.mem_range.2 hindex, h⟩
  refine (Crew.exists_reporting_collect crew hfails).imp fun place hplace => ?_
  rw [fit_eq G hd hwidth (Crew.serves_reporting.2 hcrew), hplace]
  rfl

end

end Forest
end PursuitForest
