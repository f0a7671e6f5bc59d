import PursuitForest.Proofs.Exact
import PursuitForest.Proofs.Forest.Training
import PursuitForest.Proofs.Tree.Endings
import PursuitForest.Random.Xoshiro
/-!
How training can end.

Settings and data that do not fit each other are reported before anything is drawn. Where they fit,
a tree is grown, or has no split, or comes to a node whose means cannot be put in order; a forest on
threads that can be had is grown, or runs out of retries for want of a split, or one of its attempts
comes to such a node (`training_ends`). Means can be put in order unless they belong to more than
twenty classes and one of them differs from itself. Then sorting them may fail (`treeFit_unordered`).
-/

namespace PursuitForest

/-- More columns per split are asked for than there are. -/
def TreeSettings.Exceeds {F : Type} (settings : TreeSettings F) (width : Nat) : Prop :=
  ∃ n, settings.columns = .random n ∧ width < n

section
variable {F L : Type} {settings : TreeSettings F} {width : Nat}

theorem checkWidth_of_not_exceeds (h : ¬ settings.Exceeds width) :
    settings.checkWidth (L := L) width = .ok () := by
  unfold TreeSettings.checkWidth
  cases hcolumns : settings.columns with
  | all => rfl
  | random n => exact if_neg fun hlt => h ⟨n, hcolumns, hlt⟩

theorem checkWidth_of_exceeds (h : settings.Exceeds width) :
    ∃ fault, settings.checkWidth (F := F) (L := L) width = .error (.parameter fault) := by
  obtain ⟨n, hcolumns, hlt⟩ := h
  rw [TreeSettings.checkWidth, hcolumns]
  exact ⟨.splitTooWide n width, if_pos hlt⟩

end

variable {F L G : Type} [Scalar F] [Eigensolver F] [Label L] [RandomSource G]

theorem Error.isDegenerate_iff {F L : Type} {e : Error F L} :
    e.isDegenerate = true ↔ ∃ cause, e = .degenerate cause := by
  cases e <;> simp [Error.isDegenerate]

/-! ### Trees -/

section
variable {settings : TreeSettings.Checked F} {d : Dataset F L}

theorem treeFit_eq : Tree.fit G settings d =
    (grow settings.val (.ofDataset d) (RandomSource.ofSeed settings.val.seed : G)).1.map fun root =>
      ⟨root, settings.val, d.width, some (.ofDataset d)⟩ := by
  exact bind_pure_comp _
    (grow settings.val (.ofDataset d) (RandomSource.ofSeed settings.val.seed : G)).1

theorem treeFit_eq_error_iff {e : Error F L} : Tree.fit G settings d = .error e ↔
    (grow settings.val (.ofDataset d) (RandomSource.ofSeed settings.val.seed : G)).1 = .error e := by
  rw [treeFit_eq, map_eq_error_iff]

/-- Data without rows or with too few columns are refused. -/
theorem treeFit_refuses (h : d.isEmpty = true ∨ settings.val.Exceeds d.width) :
    ∃ fault, Tree.fit G settings d = .error (.parameter fault) := by
  simp only [treeFit_eq_error_iff]
  unfold grow checkGrowth
  rw [GroupedDataset.isEmpty_ofDataset]
  cases hd : d.isEmpty with
  | true => exact ⟨.growWithoutRows, rfl⟩
  | false =>
    rw [hd] at h
    obtain ⟨fault, hfault⟩ := checkWidth_of_exceeds (L := L) (h.resolve_left Bool.false_ne_true)
    have hwidth : settings.val.checkWidth (L := L) (GroupedDataset.ofDataset d).width =
      .error (.parameter fault) := hfault
    simp only [Bool.false_eq_true, if_false, hwidth]
    exact ⟨fault, rfl⟩

theorem treeFit_ends (hd : d.isEmpty = false) (hwidth : ¬ settings.val.Exceeds d.width) :
    Ends Error.EndsGrowth (fun _ => True) (Tree.fit G settings d) := by
  have hdata : (GroupedDataset.ofDataset d).isEmpty = false := by
    rw [GroupedDataset.isEmpty_ofDataset, hd]
  have hends := grow_ends (g := (RandomSource.ofSeed settings.val.seed : G)) hdata
    (checkWidth_of_not_exceeds hwidth)
  rw [treeFit_eq]
  exact hends.map

theorem treeFit_eq_inconsistentOrder_iff (hd : d.isEmpty = false)
    (hwidth : ¬ settings.val.Exceeds d.width) :
    Tree.fit G settings d = .error (.misuse .inconsistentOrder) ↔
      ComesToUnsortable settings.val (.ofDataset d) (RandomSource.ofSeed settings.val.seed : G) := by
  rw [treeFit_eq_error_iff]
  refine grow_eq_inconsistentOrder_iff ?_ (checkWidth_of_not_exceeds hwidth)
  rw [GroupedDataset.isEmpty_ofDataset, hd]

end

/-! ### Forests -/

namespace Forest

section
variable {settings : ForestSettings F} {data : GroupedDataset F L} {index number : Nat}

/-- The growth of an attempt comes to a node whose means cannot be put in order. -/
def AttemptUnsortable (G : Type) [RandomSource G] (settings : ForestSettings F)
    (data : GroupedDataset F L) (index number : Nat) : Prop :=
  ComesToUnsortable settings.tree (attemptDraw G settings data index number).1.sampleData
    (attemptDraw G settings data index number).2

theorem attempt_ends (hd : data.isEmpty = false)
    (hwidth : settings.tree.checkWidth (F := F) (L := L) data.width = .ok ()) (index number : Nat) :
    Ends Error.EndsGrowth (fun _ => True) (attempt G settings data index number) := by
  rw [attempt_eq]
  exact (grow_ends (BootstrapDraw.isEmpty_sampleData hd _) hwidth).map

theorem attempt_eq_inconsistentOrder_iff (hd : data.isEmpty = false)
    (hwidth : settings.tree.checkWidth (F := F) (L := L) data.width = .ok ()) :
    attempt G settings data index number = .error (.misuse .inconsistentOrder) ↔
      AttemptUnsortable G settings data index number := by
  rw [attempt_eq_error_iff]
  exact grow_eq_inconsistentOrder_iff (BootstrapDraw.isEmpty_sampleData hd _) hwidth

/-- Attempts end with a tree, without a retry left, or at means that cannot be put in order. -/
theorem attemptFrom_ends (hd : data.isEmpty = false)
    (hwidth : settings.tree.checkWidth (F := F) (L := L) data.width = .ok ()) (index : Nat) :
    ∀ left number, Ends (fun e => (∃ cause, e = .retriesExhausted (number + left) (.degenerate cause)) ∨
        e = .misuse .inconsistentOrder) (fun _ => True)
      (attemptFrom G settings data index left number)
  | left, number => by
      have hends := attempt_ends (G := G) hd hwidth index number
      unfold attemptFrom
      cases hm : attempt G settings data index number with
      | ok m => exact .ok trivial
      | error e =>
        rw [hm] at hends
        rcases hends with hdeg | rfl
        · simp only [hdeg, if_true]
          cases left with
          | zero =>
            obtain ⟨cause, rfl⟩ := Error.isDegenerate_iff.1 hdeg
            exact .error (.inl ⟨cause, rfl⟩)
          | succ left =>
            rw [← Nat.succ_add_eq_add_succ]
            exact attemptFrom_ends hd hwidth index left (number + 1)
        · exact .error (.inr rfl)

/-- A tree is trained, or runs out of retries for want of a split, or comes to means that cannot be put
in order. -/
theorem trainTree_ends (hd : data.isEmpty = false)
    (hwidth : settings.tree.checkWidth (F := F) (L := L) data.width = .ok ()) (index : Nat) :
    Ends (fun e => (∃ cause, e = .retriesExhausted settings.retries (.degenerate cause)) ∨
      e = .misuse .inconsistentOrder) (fun _ => True) (trainTree G settings data index) := by
  have hends := attemptFrom_ends (G := G) hd hwidth index settings.retries 0
  rw [Nat.zero_add] at hends
  exact hends

/-- The first attempt that does not fail for want of a split comes to a node whose means cannot be put
in order. -/
def TreeUnsortable (G : Type) [RandomSource G] (settings : ForestSettings F)
    (data : GroupedDataset F L) (index : Nat) : Prop :=
  ∃ k ≤ settings.retries, AttemptUnsortable G settings data index k ∧
    ∀ j < k, AttemptDegenerate G settings data index j

theorem trainTree_eq_inconsistentOrder_iff (hd : data.isEmpty = false)
    (hwidth : settings.tree.checkWidth (F := F) (L := L) data.width = .ok ()) :
    trainTree G settings data index = .error (.misuse .inconsistentOrder) ↔
      TreeUnsortable G settings data index := by
  have hsettled : Settled (.error (.misuse .inconsistentOrder) : Except (Error F L) (Member F L)) := by
    rintro e ⟨⟩
    exact ⟨rfl, fun n source h => by cases h⟩
  rw [trainTree_eq_iff hsettled, TreeUnsortable]
  simp only [attempt_eq_inconsistentOrder_iff hd hwidth]

end

section
variable {crew : Crew} {settings : ForestSettings.Checked F} {d : Dataset F L}

theorem fit_ends (hd : d.isEmpty = false) (hwidth : ¬ settings.val.tree.Exceeds d.width)
    (hcrew : crew.Serves settings.val.threads) :
    Ends (fun e => (∃ cause, e = .retriesExhausted settings.val.retries (.degenerate cause)) ∨
      e = .misuse .inconsistentOrder) (fun _ => True) (fit G crew settings d) := by
  have hdata : (GroupedDataset.ofDataset d).isEmpty = false := by
    rw [GroupedDataset.isEmpty_ofDataset, hd]
  rw [fit_eq G hd (checkWidth_of_not_exceeds hwidth) hcrew]
  refine Ends.map (Ends.collect crew fun o ho => ?_)
  obtain ⟨index, -, rfl⟩ := List.mem_map.1 ho
  exact trainTree_ends hdata (checkWidth_of_not_exceeds hwidth) index

/-- A forest is fitted if threads can be had and every tree can be trained. -/
theorem exists_fit_iff (hd : d.isEmpty = false) (hwidth : ¬ settings.val.tree.Exceeds d.width) :
    (∃ f, fit G crew settings d = .ok f) ↔ crew.Serves settings.val.threads ∧
      ∀ index < settings.val.size, ∃ m, trainTree G settings.val (.ofDataset d) index = .ok m := by
  simp only [fit_eq_ok_iff]
  constructor
  · rintro ⟨f, -, -, hcrew, members, hmembers, rfl⟩
    refine ⟨hcrew, fun index hindex => ?_⟩
    obtain ⟨m, -, hm⟩ := getElem?_of_mapM hmembers (List.getElem?_range hindex)
    exact ⟨m, hm⟩
  · rintro ⟨hcrew, htrees⟩
    obtain ⟨members, hmembers⟩ := exists_mapM fun index hindex => htrees index (List.mem_range.1 hindex)
    exact ⟨_, hd, checkWidth_of_not_exceeds hwidth, hcrew, members, hmembers, rfl⟩

/-- Some crew reports means that cannot be put in order if some tree comes to such means. -/
theorem exists_fit_eq_inconsistentOrder_iff (hd : d.isEmpty = false)
    (hwidth : ¬ settings.val.tree.Exceeds d.width) :
    (∃ crew : Crew, crew.Serves settings.val.threads ∧
      fit G crew settings d = .error (.misuse .inconsistentOrder)) ↔
      ∃ index < settings.val.size, TreeUnsortable G settings.val (.ofDataset d) index := by
  have hcheck := checkWidth_of_not_exceeds (L := L) hwidth
  have hdata : (GroupedDataset.ofDataset d).isEmpty = false := by
    rw [GroupedDataset.isEmpty_ofDataset, hd]
  constructor
  · rintro ⟨crew, hcrew, h⟩
    obtain ⟨index, hindex, hfails⟩ := exists_trainTree_of_fit_eq_error hd hcheck hcrew h
    exact ⟨index, hindex, (trainTree_eq_inconsistentOrder_iff hdata hcheck).1 hfails⟩
  · rintro ⟨index, hindex, hun⟩
    have horderly := Crew.serves_orderly settings.val.threads
    obtain ⟨place, hplace⟩ := exists_reporting_fit hd hcheck horderly hindex
      ((trainTree_eq_inconsistentOrder_iff hdata hcheck).2 hun)
    exact ⟨_, Crew.serves_reporting.2 horderly, hplace⟩

end

end Forest

/-! ### Both -/

/-- A node whose means cannot be put in order has more than twenty classes, and a mean that compares
as different from itself. -/
theorem ComesToUnsortable.large {settings : TreeSettings F} {d : GroupedDataset F L} {g : G}
    (h : ComesToUnsortable settings d g) : 20 < d.groupCount ∧ ∃ (node : GroupedDataset F L)
      (projector : List F), ∃ m ∈ projectedMeans node projector, (m.2 == m.2) = false := by
  obtain ⟨n, node, tasks, built, g', hreach, -, columns, g'', -, hun⟩ := h
  obtain ⟨hlarge, projector, hm⟩ := hun.large
  have hle : node.groupCount ≤ d.groupCount := hreach.partOf.groupCount_le
  exact ⟨Nat.lt_of_lt_of_le hlarge hle, node, projector, hm⟩

/-- How fitting ends. A tree is refused exactly where the data have no rows or too few columns, and
ends otherwise with a tree, for want of a split, or exactly where growing comes to means that cannot
be put in order, for their order. A forest that is not refused fails for want of threads where they
cannot be had. Where they can, it ends with its trees, if all of them can be trained, without a retry
left, or for the order of means; for the last some crew does exactly where a tree comes to means that
cannot be put in order. -/
theorem training_ends (F L G : Type) [Scalar F] [Eigensolver F] [Label L] [RandomSource G] :
    (∀ (settings : TreeSettings.Checked F) (d : Dataset F L),
      ((∃ fault, Tree.fit G settings d = .error (.parameter fault)) ↔
        d.isEmpty = true ∨ settings.val.Exceeds d.width) ∧
      (d.isEmpty = false ∧ ¬ settings.val.Exceeds d.width →
        ((∃ t, Tree.fit G settings d = .ok t) ∨
          (∃ cause, Tree.fit G settings d = .error (.degenerate cause)) ∨
          Tree.fit G settings d = .error (.misuse .inconsistentOrder)) ∧
        (Tree.fit G settings d = .error (.misuse .inconsistentOrder) ↔
          ComesToUnsortable settings.val (.ofDataset d)
            (RandomSource.ofSeed settings.val.seed : G)))) ∧
    (∀ (settings : ForestSettings.Checked F) (d : Dataset F L),
      d.isEmpty = false ∧ ¬ settings.val.tree.Exceeds d.width →
        (∀ crew : Crew,
          (¬ crew.Serves settings.val.threads →
            ∃ cause, Forest.fit G crew settings d = .error (.threadPool cause)) ∧
          (crew.Serves settings.val.threads →
            (∃ f, Forest.fit G crew settings d = .ok f) ∨
            (∃ cause, Forest.fit G crew settings d =
              .error (.retriesExhausted settings.val.retries (.degenerate cause))) ∨
            Forest.fit G crew settings d = .error (.misuse .inconsistentOrder)) ∧
          ((∃ f, Forest.fit G crew settings d = .ok f) ↔
            crew.Serves settings.val.threads ∧ ∀ index < settings.val.size,
              ∃ m, Forest.trainTree G settings.val (.ofDataset d) index = .ok m)) ∧
        ((∃ crew : Crew, crew.Serves settings.val.threads ∧
            Forest.fit G crew settings d = .error (.misuse .inconsistentOrder)) ↔
          ∃ index < settings.val.size,
            Forest.TreeUnsortable G settings.val (.ofDataset d) index)) ∧
    ∀ (settings : TreeSettings F) (d : GroupedDataset F L) (g : G),
      ComesToUnsortable settings d g → 20 < d.groupCount ∧
        ∃ (node : GroupedDataset F L) (projector : List F),
          ∃ m ∈ projectedMeans node projector, (m.2 == m.2) = false := by
  refine ⟨fun settings d => ⟨⟨?_, treeFit_refuses⟩, ?_⟩, ?_, fun settings d g h => h.large⟩
  · rintro ⟨fault, hfault⟩
    cases hd : d.isEmpty with
    | true => exact .inl rfl
    | false =>
      refine .inr (Classical.byContradiction fun hwidth => ?_)
      have hends := treeFit_ends (G := G) hd hwidth
      rw [hfault] at hends
      rcases hends with h | h <;> cases h
  · rintro ⟨hd, hwidth⟩
    refine ⟨?_, treeFit_eq_inconsistentOrder_iff hd hwidth⟩
    rcases (treeFit_ends (G := G) hd hwidth).cases with ⟨t, ht, -⟩ | ⟨e, he, hdeg | rfl⟩
    · exact .inl ⟨t, ht⟩
    · obtain ⟨cause, rfl⟩ := Error.isDegenerate_iff.1 hdeg
      exact .inr (.inl ⟨cause, he⟩)
    · exact .inr (.inr he)
  · rintro settings d ⟨hd, hwidth⟩
    refine ⟨fun crew => ⟨?_, fun hcrew => ?_, Forest.exists_fit_iff hd hwidth⟩,
      Forest.exists_fit_eq_inconsistentOrder_iff hd hwidth⟩
    · exact Forest.fit_of_not_serves hd (checkWidth_of_not_exceeds hwidth)
    · rcases (Forest.fit_ends (G := G) hd hwidth hcrew).cases with
        ⟨f, hf, -⟩ | ⟨e, he, ⟨cause, rfl⟩ | rfl⟩
      · exact .inl ⟨f, hf⟩
      · exact .inr (.inl ⟨cause, he⟩)
      · exact .inr (.inr he)

/-! ### Means without an order -/

/-- A row for each of twenty-one classes; two of them lack their second value. -/
def Exact.unordered : Dataset Exact Nat :=
  let row (label : Nat) (value : Rat) : Observation Exact Nat :=
    ⟨[.number value, if label = 4 ∨ label = 14 then .undefined else 0], label⟩
  { width := 2
    rows := List.zipWith row (List.range 21) [-244, 201, 128, 264, 186, -240, 255, -199, -85, 37, 187,
      205, -24, -159, -102, 179, -109, -158, 11, 64, 7]
    classes := .ofList (List.range 21)
    shaped := by decide
    covered := by decide }

/-- Full scatter on one column drawn for every split. -/
def Exact.oneColumn : TreeSettings.Checked Exact := ⟨⟨0, .random 1, 0⟩, by decide +kernel⟩

theorem isEmpty_unordered : Exact.unordered.isEmpty = false := by decide +kernel

theorem not_exceeds_unordered : ¬ Exact.oneColumn.val.Exceeds Exact.unordered.width := by
  rintro ⟨n, hn, hlt⟩
  cases hn
  exact absurd hlt (by decide)

theorem fit_unordered_eq : Tree.fit Xoshiro Exact.oneColumn Exact.unordered =
    .error (.misuse .inconsistentOrder) :=
  eq_error_of_match (by decide +kernel)

/-- The first column is drawn, and values that are missing in the second spoil two of the means. -/
theorem comesToUnsortable_unordered : Exact.unordered.isEmpty = false ∧
    ¬ Exact.oneColumn.val.Exceeds Exact.unordered.width ∧
    ComesToUnsortable Exact.oneColumn.val (.ofDataset Exact.unordered) (Xoshiro.ofSeed 0) := by
  have hsuits := And.intro isEmpty_unordered not_exceeds_unordered
  have hall := ((training_ends Exact Nat Xoshiro).1 Exact.oneColumn Exact.unordered).2 hsuits
  exact ⟨isEmpty_unordered, not_exceeds_unordered, hall.2.1 fit_unordered_eq⟩

/-- Growing may end neither with a tree nor for want of a split. -/
theorem treeFit_unordered : ¬ ∀ (settings : TreeSettings.Checked Exact) (d : Dataset Exact Nat),
    d.isEmpty = false ∧ ¬ settings.val.Exceeds d.width →
      (∃ t, Tree.fit Xoshiro settings d = .ok t) ∨
        ∃ cause, Tree.fit Xoshiro settings d = .error (.degenerate cause) := by
  intro h
  have hends := h Exact.oneColumn Exact.unordered ⟨isEmpty_unordered, not_exceeds_unordered⟩
  rw [fit_unordered_eq] at hends
  rcases hends with ⟨t, ht⟩ | ⟨cause, hcause⟩
  · cases ht
  · cases hcause

end PursuitForest
