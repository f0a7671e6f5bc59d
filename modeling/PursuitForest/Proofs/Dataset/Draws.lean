import PursuitForest.Dataset.Bootstrap
import PursuitForest.Proofs.Dataset.BlockIndex
import PursuitForest.Proofs.Dataset.Relabelling
import PursuitForest.Random.Xoshiro
/-!
What draws take and what they leave out.

A draw divides the rows into those it takes and those it leaves out (`BootstrapDraw.divides`). A draw that
goes through the blocks and takes from each as many places as it has rows (`ClassBlock.Drawn`) reads the
labels of the data once more, row by row, although it may read other rows (`ClassBlock.Drawn.labels_eq`).
So sorting leaves its sample as it was drawn, in the blocks of the full data
(`BootstrapDraw.proportional_of_drawn`). Random draws are of this kind whatever their source
(`BootstrapDraw.drawn_stratified`).
-/

namespace PursuitForest

variable {F L : Type}

/-! ### Gathering in label order -/

/-- Where every entry is found, gathering loses none. -/
theorem map_some_filterMap {α β : Type} {f : α → Option β} : ∀ {xs : List α},
    (∀ x ∈ xs, (f x).isSome = true) → (xs.filterMap f).map some = xs.map f
  | [], _ => rfl
  | x :: xs, h => by
      obtain ⟨hx, hxs⟩ := List.forall_mem_cons.1 h
      obtain ⟨y, hy⟩ := Option.isSome_iff_exists.1 hx
      rw [List.filterMap_cons_some hy, List.map_cons, List.map_cons, hy, map_some_filterMap hxs]

section
variable [Label L]

theorem Dataset.labels_gather (d : Dataset F L) (places : List Nat) :
    (d.gather places).labels = places.filterMap (d.labels[·]?) :=
  congrArg (·.labels) (d.table_gather places)

namespace GroupedDataset

variable {d : GroupedDataset F L} {places : List Nat}

/-- Rows that are gathered in label order stay where they are. -/
theorem toDataset_gather (h : (places.filterMap (d.labels[·]?)).Pairwise (· ≤ ·)) :
    (ofDataset (d.toDataset.gather places)).toDataset = d.toDataset.gather places := by
  rw [← labels_toDataset, ← Dataset.labels_gather, Dataset.labels, List.pairwise_map] at h
  exact Dataset.ext rfl (rows_ofDataset_of_pairwise h) rfl

/-- One row for every place, in their order. -/
theorem map_some_rows_gather (h : ∀ i ∈ places, i < d.size) :
    (d.toDataset.gather places).rows.map some = places.map (d.toDataset.rows[·]?) := by
  have hsize : d.toDataset.rows.length = d.size := by
    rw [← length_labels, ← labels_toDataset, Dataset.labels, List.length_map]
  rw [Dataset.rows_gather]
  refine map_some_filterMap fun i hi => ?_
  rw [List.getElem?_eq_getElem (hsize ▸ h i hi)]
  rfl

/-- Data of the same labels, row by row, have the same blocks. -/
theorem blocks_congr {d e : GroupedDataset F L} (h : d.labels = e.labels) : d.blocks = e.blocks := by
  have hscan := d.scan_labels
  rw [h, e.scan_labels] at hscan
  exact (Except.ok.inj hscan).symm

end GroupedDataset

end

/-! ### Places drawn block by block -/

namespace ClassBlock

/-- Places drawn from some blocks, one block after the other: from every block as many as it has rows,
in any order and with repetitions. -/
inductive Drawn : List (ClassBlock L) → List Nat → Prop
  | nil : Drawn [] []
  | cons {b : ClassBlock L} {bs : List (ClassBlock L)} {xs ys : List Nat} (hlength : xs.length = b.size)
      (hplaces : ∀ i ∈ xs, i ∈ b.places) (hrest : Drawn bs ys) : Drawn (b :: bs) (xs ++ ys)

namespace Drawn

variable {bs : List (ClassBlock L)} {places : List Nat}

theorem exists_block (h : Drawn bs places) {i : Nat} (hi : i ∈ places) : ∃ b ∈ bs, i ∈ b.places := by
  induction h with
  | nil => cases hi
  | @cons b _ _ _ _ hplaces _ ih =>
    rcases List.mem_append.1 hi with hi | hi
    · exact ⟨b, List.mem_cons_self, hplaces i hi⟩
    · obtain ⟨c, hc, hic⟩ := ih hi
      exact ⟨c, List.mem_cons_of_mem b hc, hic⟩

/-- Of every block as many places are drawn as it has rows. -/
theorem length_filter (h : Drawn bs places) (hbs : bs.Pairwise (·.stop ≤ ·.start)) {c : ClassBlock L}
    (hc : c ∈ bs) : (places.filter (· ∈ c.places)).length = c.size := by
  induction h with
  | nil => cases hc
  | @cons b bs xs ys hlength hplaces hrest ih =>
    obtain ⟨hb, hbs⟩ := List.pairwise_cons.1 hbs
    rw [List.filter_append]
    rcases List.mem_cons.1 hc with rfl | hc
    · -- later blocks start where this one has stopped
      have hxs : xs.filter (· ∈ c.places) = xs :=
        List.filter_eq_self.2 fun i hi => decide_eq_true (hplaces i hi)
      have hys : ys.filter (· ∈ c.places) = [] := by
        refine List.filter_eq_nil_iff.2 fun i hi hic => ?_
        obtain ⟨b, hbs, hib⟩ := hrest.exists_block hi
        have hstop := (mem_places.1 (of_decide_eq_true hic)).2
        have hstart := (mem_places.1 hib).1
        exact absurd (Nat.le_trans (hb b hbs) hstart) (Nat.not_le_of_lt hstop)
      rw [hxs, hys, List.append_nil, hlength]
    · have hxs : xs.filter (· ∈ c.places) = [] := by
        refine List.filter_eq_nil_iff.2 fun i hi hic => ?_
        have hstop := (mem_places.1 (hplaces i hi)).2
        have hstart := (mem_places.1 (of_decide_eq_true hic)).1
        exact absurd (Nat.le_trans (hb c hc) hstart) (Nat.not_le_of_lt hstop)
      rw [hxs, List.nil_append, ih hbs hc]

/-- What is drawn carries the labels of the blocks. -/
theorem filterMap_labels {labels : List L} (h : Drawn bs places)
    (hbs : ∀ b ∈ bs, ∀ i ∈ b.places, labels[i]? = some b.label) :
    places.filterMap (labels[·]?) = bs.flatMap fun b => List.replicate b.size b.label := by
  induction h with
  | nil => rfl
  | @cons b bs xs ys hlength hplaces hrest ih =>
    obtain ⟨hb, hbs⟩ := List.forall_mem_cons.1 hbs
    have hxs : xs.filterMap (labels[·]?) = List.replicate b.size b.label := by
      rw [List.filterMap_congr fun i hi => hb i (hplaces i hi), ← hlength, ← List.map_const']
      exact congrFun List.filterMap_eq_map _
    rw [List.filterMap_append, hxs, ih hbs, List.flatMap_cons]

end Drawn
end ClassBlock

section
variable [Label L]

namespace GroupedDataset

omit [Label L] in
theorem flatMap_label_blocksFrom : ∀ (start : Nat) (gs : List (ClassGroup F L)),
    ((blocksFrom start gs).flatMap fun b => List.replicate b.size b.label) =
      gs.flatMap fun g => g.rows.map fun _ => g.label
  | _, [] => rfl
  | start, g :: gs => by
      rw [blocksFrom, List.flatMap_cons, List.flatMap_cons, flatMap_label_blocksFrom _ gs, List.map_const']

/-- A draw from all blocks reads the labels of the data once more. -/
theorem labels_of_drawn {d : GroupedDataset F L} {places : List Nat}
    (h : ClassBlock.Drawn d.blocks.toList places) : places.filterMap (d.labels[·]?) = d.labels := by
  rw [h.filterMap_labels fun b hb i hi => (mem_places_iff hb).1 hi]
  exact flatMap_label_blocksFrom 0 d.groups

end GroupedDataset

/-! ### Draws -/

namespace BootstrapDraw

open GroupedDataset

variable {b : BootstrapDraw F L}

theorem getD_foldl_setIfInBounds {i : Nat} : ∀ (sample : List Nat) {drawn : Array Bool},
    i < drawn.size → (sample.foldl (fun drawn j => drawn.setIfInBounds j true) drawn).getD i false =
      (drawn.getD i false || decide (i ∈ sample))
  | [], _, _ => by simp
  | j :: sample, drawn, hi => by
      rw [List.foldl_cons, getD_foldl_setIfInBounds sample (by simpa using hi)]
      by_cases hij : i = j
      · subst hij
        simp [hi]
      · simp [Ne.symm hij, hij]

/-- Marking what was drawn leaves what was not. -/
theorem outOfBag_eq_filter (b : BootstrapDraw F L) :
    b.outOfBag = (List.range b.full.size).filter fun i => decide (i ∉ b.sample) := by
  refine List.filter_congr fun i hi => ?_
  have hlt := List.mem_range.1 hi
  rw [getD_foldl_setIfInBounds b.sample (by simpa using hlt)]
  simp [hlt]

theorem mem_outOfBag {i : Nat} : i ∈ b.outOfBag ↔ i < b.full.size ∧ i ∉ b.sample := by
  rw [outOfBag_eq_filter, List.mem_filter, List.mem_range, decide_eq_true_iff]

theorem pairwise_outOfBag (b : BootstrapDraw F L) : b.outOfBag.Pairwise (· < ·) :=
  List.pairwise_lt_range.filter _

/-- The rows are those drawn and those left out. The latter are listed from top to bottom. -/
structure Divides (b : BootstrapDraw F L) : Prop where
  ascending : b.outOfBag.Pairwise (· < ·)
  disjoint : ∀ i ∈ b.sample, i ∉ b.outOfBag
  covers : ∀ i, i < b.full.size ↔ i ∈ b.sample ∨ i ∈ b.outOfBag

theorem divides (b : BootstrapDraw F L) : b.Divides where
  ascending := b.pairwise_outOfBag
  disjoint _ hi hout := (mem_outOfBag.1 hout).2 hi
  covers i := by
    rw [mem_outOfBag]
    constructor
    · intro hlt
      by_cases hi : i ∈ b.sample
      · exact .inl hi
      · exact .inr ⟨hlt, hi⟩
    · rintro (hi | ⟨hlt, -⟩)
      · exact b.inRange i hi
      · exact hlt

/-- Rows that were not drawn are gathered in label order already. -/
theorem toDataset_outOfBagData (b : BootstrapDraw F L) :
    b.outOfBagData.toDataset = b.full.toDataset.gather b.outOfBag := by
  refine toDataset_gather (List.pairwise_filterMap.2 ?_)
  refine b.pairwise_outOfBag.imp fun {i j} hij x hx y hy => ?_
  obtain ⟨hi, rfl⟩ := List.getElem?_eq_some_iff.1 hx
  obtain ⟨hj, rfl⟩ := List.getElem?_eq_some_iff.1 hy
  exact List.pairwise_iff_getElem.1 b.full.pairwise_labels i j hi hj hij

/-- The features and the labels of the rows that were not drawn. -/
theorem parts_outOfBagData (b : BootstrapDraw F L) :
    b.outOfBagData.features.rows = b.outOfBag.filterMap (b.full.rows[·]?) ∧
      b.outOfBagData.labels = b.outOfBag.filterMap (b.full.labels[·]?) := by
  have htable := b.full.toDataset.table_gather b.outOfBag
  rw [← b.toDataset_outOfBagData] at htable
  simp only [Dataset.table, features_toDataset, labels_toDataset, LabelledTable.mk.injEq] at htable
  obtain ⟨hfeatures, hlabels, -⟩ := htable
  refine ⟨?_, hlabels⟩
  rw [hfeatures, FeatureTable.rows_gather]
  rfl

/-- What comes of a draw that takes from every block as many rows as it has: the sample holds the drawn
rows in the order of the draw and in the blocks of the full data, the rows left out are held in their
order, and a class of one row leaves none out. -/
structure Proportional (b : BootstrapDraw F L) : Prop where
  count_eq : ∀ c ∈ b.full.blocks.toList, (b.sample.filter (· ∈ c.places)).length = c.size
  sample_rows : b.sampleData.toDataset.rows.map some = b.sample.map (b.full.toDataset.rows[·]?)
  sample_blocks : b.sampleData.blocks = b.full.blocks
  outOfBag_rows : b.outOfBagData.toDataset.rows.map some = b.outOfBag.map (b.full.toDataset.rows[·]?)
  single : ∀ c ∈ b.full.blocks.toList, c.size = 1 → ∀ i ∈ c.places, i ∉ b.outOfBag

theorem proportional_of_drawn (h : ClassBlock.Drawn b.full.blocks.toList b.sample) :
    b.Proportional := by
  have hlabels := labels_of_drawn h
  have hsample : b.sampleData.toDataset = b.full.toDataset.gather b.sample :=
    toDataset_gather (by rw [hlabels]; exact b.full.pairwise_labels)
  have hcount : ∀ c ∈ b.full.blocks.toList, (b.sample.filter (· ∈ c.places)).length = c.size :=
    fun c hc => h.length_filter (pairwise_blocksFrom 0 b.full.groups) hc
  refine ⟨hcount, ?_, blocks_congr ?_, ?_, fun c hc hone i hi hout => ?_⟩
  · rw [hsample, map_some_rows_gather b.inRange]
  · rw [← labels_toDataset, hsample, Dataset.labels_gather, labels_toDataset, hlabels]
  · rw [toDataset_outOfBagData, map_some_rows_gather fun i hi => (mem_outOfBag.1 hi).1]
  · -- the one place drawn from the block is its only place
    obtain ⟨j, hj⟩ := List.length_eq_one_iff.1 ((hcount c hc).trans hone)
    obtain ⟨hjs, hjc⟩ := List.mem_filter.1 (hj ▸ List.mem_singleton_self j)
    obtain rfl : i = j := by
      have hi := ClassBlock.mem_places.1 hi
      have hj := ClassBlock.mem_places.1 (of_decide_eq_true hjc)
      rw [ClassBlock.stop, hone] at hi hj
      omega
    exact (mem_outOfBag.1 hout).2 hjs

/-! ### Random draws -/

section
variable {G : Type} [RandomSource G]

theorem length_drawBlock (start size : Nat) : ∀ (count : Nat) (g : G),
    (drawBlock start size count g).1.length = count
  | 0, _ => rfl
  | k + 1, g => congrArg (· + 1) (length_drawBlock start size k (below .whole size g).2)

omit [Label L] in
theorem drawn_drawBlocks : ∀ (start : Nat) {cs : List (ClassGroup F L)} (g : G),
    (∀ c ∈ cs, c.rows ≠ []) → ClassBlock.Drawn (blocksFrom start cs) (drawBlocks start cs g).1
  | _, [], _, _ => .nil
  | start, c :: cs, g, hcs => by
      obtain ⟨hc, hcs⟩ := List.forall_mem_cons.1 hcs
      refine .cons (length_drawBlock start c.rows.length c.rows.length g) (fun i hi => ?_)
        (drawn_drawBlocks _ _ hcs)
      exact ClassBlock.mem_places.2 (mem_drawBlock (List.length_pos_iff.2 hc) hi)

/-- Whatever its source, a random draw goes through all blocks. -/
theorem drawn_stratified (full : GroupedDataset F L) (g : G) :
    ClassBlock.Drawn full.blocks.toList (stratified full g).1.sample :=
  drawn_drawBlocks 0 g full.inhabited

end

/-! ### Given places -/

/-- Given places are refused with the first that is no row. -/
theorem ofPlaces_eq_error_iff {full : GroupedDataset F L} {places : List Nat} {e : Error F L} :
    ofPlaces full places = .error e ↔ ∃ before i after, places = before ++ i :: after ∧
      (∀ j ∈ before, j < full.size) ∧ full.size ≤ i ∧
        e = .shapeMismatch .sampleIndex full.size i := by
  have hfirst : ∀ i, places.find? (fun i => decide (full.size ≤ i)) = some i ↔
      ∃ before after, places = before ++ i :: after ∧ (∀ j ∈ before, j < full.size) ∧
        full.size ≤ i := fun i => by
    rw [List.find?_eq_some_iff_append]
    simp only [decide_eq_true_eq, Bool.not_eq_true', decide_eq_false_iff_not, Nat.not_le]
    constructor
    · rintro ⟨hi, before, after, hplaces, hbefore⟩
      exact ⟨before, after, hplaces, hbefore, hi⟩
    · rintro ⟨before, after, hplaces, hbefore, hi⟩
      exact ⟨hi, before, after, hplaces, hbefore⟩
  unfold ofPlaces
  split
  · next i hi =>
    constructor
    · intro he
      cases he
      obtain ⟨before, after, hplaces, hbefore, hle⟩ := (hfirst i).1 hi
      exact ⟨before, i, after, hplaces, hbefore, hle, rfl⟩
    · rintro ⟨before, j, after, hplaces, hbefore, hle, rfl⟩
      rw [(hfirst j).2 ⟨before, after, hplaces, hbefore, hle⟩] at hi
      cases hi
      rfl
  · next hnone =>
    constructor
    · intro he
      cases he
    · rintro ⟨before, j, after, hplaces, hbefore, hle, -⟩
      rw [(hfirst j).2 ⟨before, after, hplaces, hbefore, hle⟩] at hnone
      cases hnone

theorem exists_ofPlaces {full : GroupedDataset F L} {places : List Nat}
    (h : ∀ i ∈ places, i < full.size) :
    ∃ b, ofPlaces full places = .ok b ∧ b.full = full ∧ b.sample = places := by
  cases hb : ofPlaces full places with
  | error e =>
    obtain ⟨before, i, after, rfl, -, hle, -⟩ := ofPlaces_eq_error_iff.1 hb
    have hlt := h i (List.mem_append_right before List.mem_cons_self)
    exact absurd hlt (Nat.not_lt_of_le hle)
  | ok b =>
    unfold ofPlaces at hb
    split at hb
    · cases hb
    · cases hb
      exact ⟨_, rfl, rfl, rfl⟩

/-- What draws keep of the data they draw from. Given places make a draw unless one of them is no row,
and the first such place is reported. A draw divides the rows. If it takes from every block as many
places as it has rows, as random draws do from any source, then its sample is the drawn rows in their
order and in the blocks of the full data, and what it leaves out are the other rows in theirs. -/
theorem draws_divide_rows (full : GroupedDataset F L) :
    (∀ (places : List Nat) (e : Error F L), ofPlaces full places = .error e ↔
      ∃ before i after, places = before ++ i :: after ∧ (∀ j ∈ before, j < full.size) ∧
        full.size ≤ i ∧ e = .shapeMismatch .sampleIndex full.size i) ∧
    (∀ places : List Nat, (∀ i ∈ places, i < full.size) →
      ∃ b, ofPlaces full places = .ok b ∧ b.full = full ∧ b.sample = places ∧ b.Divides) ∧
    (∀ b : BootstrapDraw F L, b.full = full → ClassBlock.Drawn full.blocks.toList b.sample →
      b.Divides ∧ b.Proportional) ∧
    ∀ (G : Type) [RandomSource G] (g : G), (stratified full g).1.full = full ∧
      (stratified full g).1.Divides ∧ (stratified full g).1.Proportional := by
  refine ⟨fun places e => ofPlaces_eq_error_iff, fun places hplaces => ?_, ?_, fun G _ g => ?_⟩
  · obtain ⟨b, hb, hfull, hsample⟩ := exists_ofPlaces hplaces
    exact ⟨b, hb, hfull, hsample, b.divides⟩
  · rintro b rfl hdrawn
    exact ⟨b.divides, proportional_of_drawn hdrawn⟩
  · exact ⟨rfl, divides _, proportional_of_drawn (drawn_stratified full g)⟩

/-- Two rows of the first class, one of the second, and two of the third. Row seven is the first that is
missing. Three places leave out three rows; rows of one class may be drawn in any order. -/
theorem draws_divide_rows_fiveRows :
    ofPlaces fiveRows [1, 7, 9] = .error (.shapeMismatch .sampleIndex 5 7) ∧
    (∃ b, ofPlaces fiveRows [1, 2, 2] = .ok b ∧ b.outOfBag = [0, 3, 4] ∧ b.Divides) ∧
    (∃ b : BootstrapDraw Nat Nat, b.full = fiveRows ∧ b.sample = [1, 0, 2, 4, 4] ∧
      ClassBlock.Drawn fiveRows.blocks.toList b.sample ∧ b.Proportional) ∧
    (stratified fiveRows (Xoshiro.ofSeed 7)).1.Proportional := by
  obtain ⟨hfails, hdraws, hproportional, hrandom⟩ := draws_divide_rows fiveRows
  refine ⟨?_, ?_, ?_, (hrandom Xoshiro (Xoshiro.ofSeed 7)).2.2⟩
  · exact (hfails [1, 7, 9] _).2 ⟨[1], 7, [9], rfl, by decide, by decide, rfl⟩
  · obtain ⟨b, hb, hfull, hsample, hdivides⟩ := hdraws [1, 2, 2] (by decide)
    refine ⟨b, hb, ?_, hdivides⟩
    rw [outOfBag_eq_filter, hfull, hsample]
    decide
  · have hdrawn : ClassBlock.Drawn fiveRows.blocks.toList ([1, 0] ++ ([2] ++ ([4, 4] ++ []))) :=
      .cons rfl (by decide) (.cons rfl (by decide) (.cons rfl (by decide) .nil))
    exact ⟨⟨fiveRows, [1, 0, 2, 4, 4], by decide⟩, rfl, rfl, hdrawn, (hproportional _ rfl hdrawn).2⟩

end BootstrapDraw

end

end PursuitForest
