import PursuitForest.Proofs.Confusion.Tally
import PursuitForest.Proofs.Dataset.Draws
import PursuitForest.Proofs.Forest.Voting
/-!
Votes on rows that were not drawn.

The out-of-bag vote on a row is that of the trees which did not draw it: the votes of all trees are
kept with the places of their rows, and what is kept with a place are these votes
(`Trained.exists_outOfBagVotes`). So the out-of-bag table of a fitted forest tallies one pair for every row
that some tree did not draw (`outOfBagConfusion_spec`). A tree alone sorts its rows before it looks
at them, which changes nothing since they are in label order already.
-/

namespace PursuitForest

variable {F L : Type} [Label L]

/-- Whether a tree has a draw that left a row out. -/
def Member.leavesOut (m : Member F L) (i : Nat) : Bool :=
  match m.draw with
  | some draw => decide (i ∉ draw.sample)
  | none => false

theorem Member.leavesOut_eq {m : Member F L} {draw : BootstrapDraw F L} (h : m.draw = some draw)
    (i : Nat) : m.leavesOut i = decide (i ∉ draw.sample) := by
  rw [leavesOut, h]

/-! ### Votes with their places -/

/-- The votes that are kept with a place. -/
def votesAt (i : Nat) (votes : List (Nat × L)) : List L :=
  votes.filterMap fun (j, vote) => if j = i then some vote else none

omit [Label L] in
theorem votesAt_cons (i j : Nat) (vote : L) (votes : List (Nat × L)) :
    votesAt i ((j, vote) :: votes) =
      if j = i then vote :: votesAt i votes else votesAt i votes := by
  rw [votesAt, List.filterMap_cons]
  by_cases h : j = i
  · simp only [if_pos h, votesAt]
  · simp only [if_neg h, votesAt]

omit [Label L] in
/-- Every place but `i` is passed over. -/
theorem votesAt_zip_of_notMem {i : Nat} : ∀ {places : List Nat} {votes : List L}, i ∉ places →
    votesAt i (places.zip votes) = []
  | [], _, _ => rfl
  | _ :: _, [], _ => rfl
  | j :: places, vote :: votes, h => by
      obtain ⟨hj, hplaces⟩ := not_or.1 (mt List.mem_cons.2 h)
      rw [List.zip_cons_cons, votesAt_cons, if_neg (Ne.symm hj)]
      exact votesAt_zip_of_notMem hplaces

omit [Label L] in
/-- The vote on a row that is gathered at its place. -/
theorem votesAt_zip_of_mem {ε : Type} {rows : List (List F)} {predict : List F → Except ε L} {i : Nat}
    {row : List F} (hrow : rows[i]? = some row) : ∀ {places : List Nat} {votes : List L},
      places.Nodup → (∀ j ∈ places, j < rows.length) →
      (places.filterMap (rows[·]?)).mapM predict = .ok votes → i ∈ places →
        ∃ vote, predict row = .ok vote ∧ votesAt i (places.zip votes) = [vote]
  | j :: places, votes, hnodup, hplaces, hvotes, hi => by
      obtain ⟨hj, hnodup⟩ := List.nodup_cons.1 hnodup
      obtain ⟨hlt, hplaces⟩ := List.forall_mem_cons.1 hplaces
      rw [List.filterMap_cons, List.getElem?_eq_getElem hlt, List.mapM_cons] at hvotes
      obtain ⟨vote, hvote, hvotes⟩ := bind_eq_ok_iff.1 hvotes
      obtain ⟨rest, hrest, hvotes⟩ := bind_eq_ok_iff.1 hvotes
      cases hvotes
      rw [List.zip_cons_cons, votesAt_cons]
      by_cases heq : j = i
      · subst heq
        rw [List.getElem?_eq_getElem hlt, Option.some.injEq] at hrow
        subst hrow
        exact ⟨vote, hvote, by rw [if_pos rfl, votesAt_zip_of_notMem hj]⟩
      · rw [if_neg heq]
        exact votesAt_zip_of_mem hrow hnodup hplaces hrest
          ((List.mem_cons.1 hi).resolve_left (Ne.symm heq))

omit [Label L] in
theorem votesAt_append (i : Nat) (xs ys : List (Nat × L)) :
    votesAt i (xs ++ ys) = votesAt i xs ++ votesAt i ys :=
  List.filterMap_append

namespace Forest

variable {G : Type} [Scalar F] [Eigensolver F] [RandomSource G]

section
variable {settings : ForestSettings F} {data : GroupedDataset F L} {m : Member F L}

/-- A tree has a draw from the data. -/
theorem Trained.exists_draw (h : Trained G settings data m) :
    ∃ draw, m.draw = some draw ∧ draw.full = data :=
  ⟨_, h.draw_eq, rfl⟩

/-- A tree votes on every row it left out, and on no other. -/
theorem Trained.exists_outOfBagVotes (h : Trained G settings data m) :
    ∃ votes, outOfBagVotes data m = .ok votes ∧
      ∀ (i : Nat) (row : List F), data.rows[i]? = some row →
        (m.leavesOut i = true →
          ∃ vote, m.tree.predictRow row = .ok vote ∧ votesAt i votes = [vote]) ∧
        (m.leavesOut i = false → votesAt i votes = []) := by
  obtain ⟨draw, hdraw, hfull⟩ := h.exists_draw
  have hrows : (data.features.gather draw.outOfBag).rows =
      draw.outOfBag.filterMap (data.rows[·]?) :=
    FeatureTable.rows_gather data.features draw.outOfBag
  have hlt : ∀ j ∈ draw.outOfBag, j < data.rows.length := by
    intro j hj
    have hj := (BootstrapDraw.mem_outOfBag.1 hj).1
    rwa [hfull] at hj
  obtain ⟨predictions, hpredictions⟩ := exists_mapM fun row hrow =>
    h.exists_predictRow ((data.features.gather draw.outOfBag).shaped row hrow)
  have hpredict : m.tree.predict (data.features.gather draw.outOfBag) = .ok predictions :=
    hpredictions
  refine ⟨draw.outOfBag.zip predictions, ?_, fun i row hrow => ⟨fun hleft => ?_, fun hleft => ?_⟩⟩
  · rw [outOfBagVotes, Member.requireDraw, hdraw]
    simp only [bind, Except.bind, hpredict]
    rfl
  · rw [hrows] at hpredictions
    refine votesAt_zip_of_mem hrow (draw.pairwise_outOfBag.imp Nat.ne_of_lt) hlt hpredictions ?_
    have hi : i < draw.full.size := by
      rw [hfull]
      exact (List.getElem?_eq_some_iff.1 hrow).1
    rw [Member.leavesOut_eq hdraw] at hleft
    exact BootstrapDraw.mem_outOfBag.2 ⟨hi, of_decide_eq_true hleft⟩
  · refine votesAt_zip_of_notMem fun hi => ?_
    rw [Member.leavesOut_eq hdraw] at hleft
    exact of_decide_eq_false hleft (BootstrapDraw.mem_outOfBag.1 hi).2

/-- What is kept with a place are the votes of the trees that left its row out. -/
theorem exists_outOfBagVotes : ∀ {members : List (Member F L)},
    (∀ m ∈ members, Trained G settings data m) →
      ∃ votes, members.mapM (outOfBagVotes data) = .ok votes ∧
        ∀ (i : Nat) (row : List F), data.rows[i]? = some row →
          ((members.filter (·.leavesOut i)).mapM fun m => m.tree.predictRow row) =
            .ok (votesAt i votes.flatten)
  | [], _ => ⟨[], rfl, fun _ _ _ => rfl⟩
  | m :: members, h => by
      obtain ⟨hm, hmembers⟩ := List.forall_mem_cons.1 h
      obtain ⟨first, hfirst, hkept⟩ := hm.exists_outOfBagVotes
      obtain ⟨rest, hrest, hvotes⟩ := exists_outOfBagVotes hmembers
      refine ⟨first :: rest, ?_, fun i row hrow => ?_⟩
      · rw [List.mapM_cons, hfirst, hrest]
        rfl
      · rw [List.flatten_cons, votesAt_append]
        cases hleft : m.leavesOut i with
        | true =>
          obtain ⟨vote, hvote, hat⟩ := (hkept i row hrow).1 hleft
          rw [List.filter_cons, if_pos hleft, List.mapM_cons, hvote, hvotes i row hrow, hat]
          rfl
        | false =>
          have hat := (hkept i row hrow).2 hleft
          rw [List.filter_cons, hleft, hat]
          exact hvotes i row hrow

end

/-! ### Outcomes -/

/-- What becomes of a row that some tree left out: the most voted label, and its own. -/
structure OutOfBagOutcome (f : Forest F L) (data : GroupedDataset F L) (i : Nat) (outcome : L × L) :
    Prop where
  label_eq : data.labels[i]? = some outcome.2
  mostVoted : ∃ row votes, data.rows[i]? = some row ∧
    ((f.members.filter (·.leavesOut i)).mapM fun m => m.tree.predictRow row) = .ok votes ∧
      MostVoted votes outcome.1

/-- The places of the rows that some tree left out. -/
def outOfBagRows (f : Forest F L) (data : GroupedDataset F L) : List Nat :=
  (List.range data.size).filter fun i => f.members.any (·.leavesOut i)

/-- Values at some of the places of a list, one for each of them. -/
theorem forall₂_filterMap_zipIdx {α β : Type} {R : Nat → β → Prop} {p : Nat → Bool}
    {g : α × Nat → Option β} : ∀ {xs : List α} {k : Nat},
      (∀ (i : Nat) (x : α), xs[i]? = some x →
        (p (k + i) = true → ∃ y, g (x, k + i) = some y ∧ R (k + i) y) ∧
        (p (k + i) = false → g (x, k + i) = none)) →
      List.Forall₂ R ((List.range' k xs.length).filter p) ((xs.zipIdx k).filterMap g)
  | [], _, _ => .nil
  | x :: xs, k, h => by
      have hrest : List.Forall₂ R ((List.range' (k + 1) xs.length).filter p)
          ((xs.zipIdx (k + 1)).filterMap g) := forall₂_filterMap_zipIdx fun i y hy => by
        have hi := h (i + 1) y hy
        rwa [Nat.add_comm i 1, ← Nat.add_assoc] at hi
      obtain ⟨hpos, hneg⟩ := h 0 x rfl
      rw [List.length_cons, List.range'_succ, List.zipIdx_cons, List.filterMap_cons]
      cases hp : p k with
      | true =>
        obtain ⟨y, hy, hR⟩ := hpos hp
        rw [List.filter_cons_of_pos hp, show g (x, k) = some y from hy]
        exact .cons hR hrest
      | false =>
        rw [List.filter_cons_of_neg (by simp [hp]), show g (x, k) = none from hneg hp]
        exact hrest

section
variable {settings : ForestSettings F} {data : GroupedDataset F L} {f : Forest F L}
  {m : Member F L}

omit [Eigensolver F] in
/-- Trees that left a row out cast votes on it, so it has a winner. -/
theorem winner_of_leavesOut {i : Nat} {row : List F} {votes : List L}
    (hvotes : ((f.members.filter (·.leavesOut i)).mapM fun m => m.tree.predictRow row) = .ok votes) :
    (f.members.any (·.leavesOut i) = true → ∃ label, winner votes = some label) ∧
      (f.members.any (·.leavesOut i) = false → winner votes = none) := by
  have hlength := length_of_mapM hvotes
  constructor
  · intro hany
    obtain ⟨m, hm, hleft⟩ := List.any_eq_true.1 hany
    refine exists_winner ?_
    rintro rfl
    have hmem : m ∈ f.members.filter (·.leavesOut i) := List.mem_filter.2 ⟨hm, hleft⟩
    rw [List.length_nil, eq_comm, List.length_eq_zero_iff] at hlength
    rw [hlength] at hmem
    cases hmem
  · intro hnone
    have hfilter : f.members.filter (·.leavesOut i) = [] :=
      List.filter_eq_nil_iff.2 (List.any_eq_false.1 hnone)
    rw [hfilter, List.length_nil, List.length_eq_zero_iff] at hlength
    rw [hlength]
    rfl

/-- The out-of-bag table tallies one outcome for every row that some tree left out. -/
theorem Grown.exists_outcomes (hf : f.Grown G settings data) : ∃ outcomes : List (L × L),
    List.Forall₂ (f.OutOfBagOutcome data) (f.outOfBagRows data) outcomes ∧
      f.outOfBagConfusion = Confusion.tally (outcomes.map (·.1)) (outcomes.map (·.2)) := by
  obtain ⟨votes, hvotes, hat⟩ := exists_outOfBagVotes hf.trained
  refine ⟨data.labels.zipIdx.filterMap fun entry =>
    (winner (votesAt entry.2 votes.flatten)).map fun vote => (vote, entry.1), ?_, ?_⟩
  · rw [outOfBagRows, List.range_eq_range', ← data.length_labels]
    refine forall₂_filterMap_zipIdx fun i label hlabel => ?_
    rw [Nat.zero_add]
    have hi : i < data.rows.length := by
      have hlt := (List.getElem?_eq_some_iff.1 hlabel).1
      rwa [data.length_labels] at hlt
    have hrow : data.rows[i]? = some data.rows[i] := List.getElem?_eq_getElem hi
    obtain ⟨hsome, hnone⟩ := winner_of_leavesOut (hat i _ hrow)
    refine ⟨fun hany => ?_, fun hany => ?_⟩
    · obtain ⟨vote, hvote⟩ := hsome hany
      exact ⟨(vote, label), congrArg (Option.map fun vote => (vote, label)) hvote, hlabel, _, _, hrow,
        hat i _ hrow, winner_eq_some_iff.1 hvote⟩
    · exact congrArg (Option.map fun vote => (vote, label)) (hnone hany)
  · rw [outOfBagConfusion, requireTraining, hf.training_eq]
    simp only [bind, Except.bind, hvotes]
    rfl

end

end Forest

/-! ### One tree -/

namespace Forest

section
variable {G : Type} [Scalar F] [Eigensolver F] [RandomSource G] {settings : ForestSettings F}
  {data : GroupedDataset F L} {f : Forest F L} {m : Member F L}

omit [Eigensolver F] in
/-- The outcomes of a single tree are its predictions and the labels of its rows. -/
theorem outcomes_singleton (hm : f.members = [m]) {places : List Nat} {outcomes : List (L × L)}
    (h : List.Forall₂ (f.OutOfBagOutcome data) places outcomes) :
    (places.filterMap (data.rows[·]?)).mapM m.tree.predictRow = .ok (outcomes.map (·.1)) ∧
      places.filterMap (data.labels[·]?) = outcomes.map (·.2) := by
  induction h with
  | nil => exact ⟨rfl, rfl⟩
  | @cons i outcome places outcomes houtcome _ ih =>
    obtain ⟨row, votes, hrow, hvotes, hmost⟩ := houtcome.mostVoted
    have hpredict : m.tree.predictRow row = .ok outcome.1 := by
      rw [hm] at hvotes
      cases hleft : m.leavesOut i with
      | true =>
        rw [List.filter_cons, hleft] at hvotes
        obtain ⟨vote, hvote, hvotes⟩ := bind_eq_ok_iff.1 hvotes
        cases hvotes
        rwa [List.mem_singleton.1 hmost.voted]
      | false =>
        rw [List.filter_cons, hleft] at hvotes
        cases hvotes
        cases hmost.voted
    rw [List.filterMap_cons, hrow, List.filterMap_cons, houtcome.label_eq, List.mapM_cons, hpredict,
      ih.1, ih.2]
    exact ⟨rfl, rfl⟩

/-- A single tree and its forest tally the same. -/
theorem Grown.outOfBagConfusion_singleton (hf : f.Grown G settings data) (hm : f.members = [m]) :
    f.outOfBagConfusion = m.outOfBagConfusion := by
  have htrained := hf.trained m (by rw [hm]; exact List.mem_singleton_self m)
  obtain ⟨draw, hdraw, hfull⟩ := htrained.exists_draw
  obtain ⟨outcomes, houtcomes, hconfusion⟩ := hf.exists_outcomes
  have hplaces : f.outOfBagRows data = draw.outOfBag := by
    rw [outOfBagRows, draw.outOfBag_eq_filter, hfull]
    refine List.filter_congr fun i _ => ?_
    rw [hm, List.any_cons, List.any_nil, Bool.or_false, Member.leavesOut_eq hdraw]
  rw [hplaces] at houtcomes
  obtain ⟨hpredictions, hlabels⟩ := outcomes_singleton hm houtcomes
  obtain ⟨hbagRows, hbagLabels⟩ := draw.parts_outOfBagData
  have hpredict : m.tree.predict draw.outOfBagData.features = .ok (outcomes.map (·.1)) := by
    rw [Tree.predict, hbagRows, hfull]
    exact hpredictions
  have hbag : m.outOfBag = .ok draw.outOfBagData := by
    rw [Member.outOfBag, Member.requireDraw, hdraw]
    rfl
  rw [hconfusion, Member.outOfBagConfusion, hbag]
  simp only [bind, Except.bind, hpredict]
  rw [hbagLabels, hfull, hlabels]

/-- What an out-of-bag table tallies: an outcome for every row that some tree left out. -/
structure OutOfBagTally (f : Forest F L) (data : GroupedDataset F L) (rows : List Nat)
    (outcomes : List (L × L)) (confusion : Confusion L) : Prop where
  ascending : rows.Pairwise (· < ·)
  mem_rows : ∀ i, i ∈ rows ↔ ∃ m ∈ f.members, ∃ draw, m.draw = some draw ∧ i ∈ draw.outOfBag
  decided : List.Forall₂ (f.OutOfBagOutcome data) rows outcomes
  tallied : (Confusion.tally (outcomes.map (·.1)) (outcomes.map (·.2)) : Except (Error F L) _) =
    .ok confusion
  total_eq : confusion.total = rows.length

theorem Grown.mem_outOfBagRows (hf : f.Grown G settings data) {i : Nat} :
    i ∈ f.outOfBagRows data ↔ ∃ m ∈ f.members, ∃ draw, m.draw = some draw ∧ i ∈ draw.outOfBag := by
  rw [outOfBagRows, List.mem_filter, List.mem_range, List.any_eq_true]
  constructor
  · rintro ⟨hi, m, hm, hleft⟩
    obtain ⟨draw, hdraw, hfull⟩ := (hf.trained m hm).exists_draw
    rw [Member.leavesOut_eq hdraw] at hleft
    rw [← hfull] at hi
    exact ⟨m, hm, _, hdraw, BootstrapDraw.mem_outOfBag.2 ⟨hi, of_decide_eq_true hleft⟩⟩
  · rintro ⟨m, hm, draw, hdraw, hi⟩
    obtain ⟨hlt, hsample⟩ := BootstrapDraw.mem_outOfBag.1 hi
    obtain ⟨drawn, hdrawn, hfull⟩ := (hf.trained m hm).exists_draw
    obtain rfl : draw = drawn := Option.some.inj (hdraw.symm.trans hdrawn)
    rw [hfull] at hlt
    refine ⟨hlt, m, hm, ?_⟩
    rw [Member.leavesOut_eq hdraw]
    exact decide_eq_true hsample

theorem Grown.exists_outOfBagTally (hf : f.Grown G settings data) :
    ∃ rows outcomes confusion, f.outOfBagConfusion = .ok confusion ∧
      f.OutOfBagTally data rows outcomes confusion := by
  obtain ⟨outcomes, houtcomes, hconfusion⟩ := hf.exists_outcomes
  have hlength : (outcomes.map (·.1)).length = (outcomes.map (·.2)).length := by simp
  obtain ⟨confusion, htally, htotal⟩ := Confusion.exists_tally (F := F) hlength
  refine ⟨f.outOfBagRows data, outcomes, confusion, hconfusion.trans htally,
    List.pairwise_lt_range.filter _, fun i => hf.mem_outOfBagRows, houtcomes, htally, ?_⟩
  rw [htotal, List.length_map, houtcomes.length_eq]

end

/-- Out-of-bag evaluation of a fitted forest succeeds and tallies one outcome for every row that is
out of the bag of some tree; with one tree it is that of the tree. A restored forest has neither. -/
theorem outOfBagConfusion_spec {G : Type} [Scalar F] [Eigensolver F] [RandomSource G]
    [ScalarCodec F] [LabelCodec L] (f : Forest F L) :
    (∀ crew settings d, fit G crew settings d = .ok f →
      (∃ rows outcomes confusion, f.outOfBagConfusion = .ok confusion ∧
        f.OutOfBagTally (.ofDataset d) rows outcomes confusion) ∧
      ∀ m, f.members = [m] → f.outOfBagConfusion = m.outOfBagConfusion) ∧
    ∀ s, ofText s = .ok f → f.outOfBagConfusion = .error (.missing .forestTraining) ∧
      ∀ m ∈ f.members, m.outOfBagConfusion = .error (.missing .bootstrapSample) := by
  refine ⟨fun crew settings d h => ?_, fun s h => ⟨?_, fun m hm => ?_⟩⟩
  · have hf := grown_of_fit h
    exact ⟨hf.exists_outOfBagTally, fun m hm => hf.outOfBagConfusion_singleton hm⟩
  · rw [outOfBagConfusion, requireTraining, (bare_of_ofText h).training_eq]
    rfl
  · rw [Member.outOfBagConfusion, Member.outOfBag, Member.requireDraw, (bare_of_ofText h).draw_eq m hm]
    rfl

/-- A restored tree that always answers seven. -/
def alwaysSeven : Forest Exact UInt8 :=
  ⟨[⟨⟨.response 7, .default, 0, none⟩, none⟩], .ofSize 1, none⟩

/-- Six of nine rows are out of the bag of one of three trees; one tree alone leaves three out. -/
theorem outOfBagConfusion_spec_byteClasses :
    (∃ f rows outcomes confusion, fit Xoshiro .orderly threeTrees byteClasses = .ok f ∧
      f.outOfBagConfusion = .ok confusion ∧ confusion.total = 6 ∧
      f.OutOfBagTally (.ofDataset byteClasses) rows outcomes confusion) ∧
    (∃ f m, fit Xoshiro .orderly oneTree byteClasses = .ok f ∧ f.members = [m] ∧
      f.outOfBagConfusion = m.outOfBagConfusion) ∧
    ∃ f : Forest Exact UInt8, ofText alwaysSeven.toText = .ok f ∧
      f.outOfBagConfusion = .error (.missing .forestTraining) := by
  have hthree : ((fit Xoshiro .orderly threeTrees byteClasses).bind (·.outOfBagConfusion)).toOption.map
      (·.total) = some 6 := by
    decide +kernel
  have hone : (fit Xoshiro .orderly oneTree byteClasses).toOption.map (·.members.length) = some 1 := by
    decide +kernel
  have hseven : (ofText alwaysSeven.toText : Except (Error Exact UInt8) _).isOk = true := by
    decide +kernel
  refine ⟨?_, ?_, ?_⟩
  · cases hf : fit Xoshiro .orderly threeTrees byteClasses with
    | error e => rw [hf] at hthree; cases hthree
    | ok f =>
      obtain ⟨rows, outcomes, confusion, hconfusion, htally⟩ :=
        ((outOfBagConfusion_spec (G := Xoshiro) f).1 _ _ _ hf).1
      rw [hf, Except.bind, hconfusion] at hthree
      exact ⟨f, rows, outcomes, confusion, rfl, hconfusion, Option.some.inj hthree, htally⟩
  · cases hf : fit Xoshiro .orderly oneTree byteClasses with
    | error e => rw [hf] at hone; cases hone
    | ok f =>
      rw [hf] at hone
      obtain ⟨m, hm⟩ := List.length_eq_one_iff.1 (Option.some.inj hone)
      exact ⟨f, m, rfl, hm, ((outOfBagConfusion_spec f).1 _ _ _ hf).2 m hm⟩
  · obtain ⟨f, hf⟩ := exists_ok_of_isOk hseven
    exact ⟨f, hf, ((outOfBagConfusion_spec (G := Xoshiro) f).2 _ hf).1⟩

end Forest
end PursuitForest
