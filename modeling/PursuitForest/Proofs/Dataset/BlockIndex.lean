import PursuitForest.Dataset.Grouped
/-!
The index of class blocks.

Reading the labels of grouped observations from top to bottom finds exactly their blocks
(`GroupedDataset.scan_labels`). The blocks follow one another from the first row to the last
(`ClassBlock.Follow`), and the places of a block are those of the rows with its label
(`GroupedDataset.mem_places_iff`), so gathering the places of some blocks gives the rows of their
classes (`GroupedDataset.filterMap_places`).
-/

namespace PursuitForest

/-- The entries at consecutive places are a stretch of the list. -/
theorem filterMap_range'_getElem? {α : Type} (xs : List α) : ∀ start n : Nat,
    (List.range' start n).filterMap (xs[·]?) = (xs.drop start).take n
  | _, 0 => by simp
  | start, n + 1 => by
      have ih := filterMap_range'_getElem? xs (start + 1) n
      rw [List.range'_succ, List.filterMap_cons]
      by_cases h : start < xs.length
      · rw [List.getElem?_eq_getElem h, ih, List.drop_eq_getElem_cons h, List.take_succ_cons]
      · rw [List.getElem?_eq_none (Nat.le_of_not_lt h), ih, List.drop_eq_nil_of_le (by omega),
          List.drop_eq_nil_of_le (by omega)]
        simp

/-- The values at all places are the list. -/
theorem filterMap_range_getElem? {α : Type} (xs : List α) :
    (List.range xs.length).filterMap (xs[·]?) = xs := by
  rw [List.range_eq_range', filterMap_range'_getElem?, List.drop_zero, List.take_length]

namespace ClassBlock

variable {L : Type}

/-- The places of the rows of a block. -/
def places (b : ClassBlock L) : List Nat := List.range' b.start b.size

theorem mem_places {b : ClassBlock L} {i : Nat} : i ∈ b.places ↔ b.start ≤ i ∧ i < b.stop := by
  rw [places, List.mem_range'_1, stop]

/-- Blocks that follow one another from `first` to before `last`, without gap or overlap. -/
def Follow : (first : Nat) → List (ClassBlock L) → (last : Nat) → Prop
  | first, [], last => first = last
  | first, b :: bs, last => b.start = first ∧ Follow b.stop bs last

end ClassBlock

namespace ClassBlocks

variable {F L : Type} [Label L]

/-! ### Scanning -/

/-- A block of a label after all others is placed last. -/
theorem place_eq_append {b : ClassBlock L} : ∀ {bs : List (ClassBlock L)},
    (∀ c ∈ bs, c.label < b.label) → place b bs = bs ++ [b]
  | [], _ => rfl
  | c :: bs, h => by
      obtain ⟨hc, hbs⟩ := List.forall_mem_cons.1 h
      have hnot : ¬ b.label < c.label := fun hbc => Label.lt_irrefl _ (Label.lt_trans hc hbc)
      rw [place, if_neg hnot, if_neg (Label.ne_of_lt hc).symm, place_eq_append hbs]
      rfl

theorem find?_eq_none {s : ClassBlocks L} {label : L} (h : ∀ b ∈ s.toList, b.label < label) :
    s.find? label = none := by
  refine List.find?_eq_none.2 fun b hb => ?_
  simp only [decide_eq_true_eq]
  exact Label.ne_of_lt (h b hb)

/-- The block of a label is found by it. -/
theorem find?_label {s : ClassBlocks L} {b : ClassBlock L} (hb : b ∈ s.toList) :
    s.find? b.label = some b := by
  obtain ⟨before, after, hs⟩ := List.append_of_mem hb
  have hlt : ∀ c ∈ before, c.label < b.label := fun c hc =>
    (List.pairwise_append.1 (hs ▸ s.ascending)).2.2 c hc b List.mem_cons_self
  refine List.find?_eq_some_iff_append.2 ⟨by simp, before, after, hs, fun c hc => ?_⟩
  simp only [Bool.not_eq_true', decide_eq_false_iff_not]
  exact Label.ne_of_lt (hlt c hc)

/-- One more row of the last label makes the last block longer. -/
theorem toList_extend {s : ClassBlocks L} {bs : List (ClassBlock L)} {b : ClassBlock L}
    (hs : s.toList = bs ++ [b]) :
    (s.extend b.label).toList = bs ++ [{ b with size := b.size + 1 }] := by
  have hlt : ∀ c ∈ bs, c.label < b.label := fun c hc =>
    (List.pairwise_append.1 (hs ▸ s.ascending)).2.2 c hc b List.mem_cons_self
  have hbefore : bs.map (fun c => if c.label = b.label then { c with size := c.size + 1 } else c) =
      bs := by
    refine (List.map_congr_left fun c hc => if_neg ?_).trans (List.map_id bs)
    exact Label.ne_of_lt (hlt c hc)
  show s.toList.map _ = _
  rw [hs, List.map_append, hbefore]
  simp

/-- Further rows of the label of the last block belong to it. -/
theorem scanFrom_replicate (rest : List L) : ∀ (n row : Nat) {s : ClassBlocks L}
    {bs : List (ClassBlock L)} {b : ClassBlock L}, s.toList = bs ++ [b] →
    ∃ t : ClassBlocks L, t.toList = bs ++ [{ b with size := b.size + n }] ∧
      scanFrom (F := F) row (some b.label) s (List.replicate n b.label ++ rest) =
        scanFrom (row + n) (some b.label) t rest
  | 0, row, s, bs, b, hs => ⟨s, hs, rfl⟩
  | n + 1, row, s, bs, b, hs => by
      obtain ⟨t, ht, hscan⟩ := scanFrom_replicate rest n (row + 1) (toList_extend hs)
      refine ⟨t, ?_, ?_⟩
      · rw [ht, Nat.add_assoc, Nat.add_comm 1 n]
      · rw [List.replicate_succ, List.cons_append, scanFrom, if_pos rfl, hscan, Nat.add_assoc,
          Nat.add_comm 1 n]

end ClassBlocks

namespace GroupedDataset

variable {F L : Type} [Label L]

open ClassBlocks in
/-- Scanning the labels of further groups finds their blocks, if their labels come after those of
the blocks so far. -/
theorem scanFrom_groups : ∀ (gs : List (ClassGroup F L)) (row : Nat) (current : Option L)
    {s : ClassBlocks L}, gs.Pairwise (·.label < ·.label) → (∀ g ∈ gs, g.rows ≠ []) →
    (∀ b ∈ s.toList, ∀ g ∈ gs, b.label < g.label) →
    (∀ label, current = some label → ∃ b ∈ s.toList, b.label = label) →
    ∃ t : ClassBlocks L, t.toList = s.toList ++ blocksFrom row gs ∧
      scanFrom (F := F) row current s (gs.flatMap fun g => g.rows.map fun _ => g.label) = .ok t
  | [], _, _, s, _, _, _, _ => ⟨s, (List.append_nil _).symm, rfl⟩
  | g :: gs, row, current, s, hgs, hin, hs, hcurrent => by
      obtain ⟨hg, hgs⟩ := List.pairwise_cons.1 hgs
      obtain ⟨hrows, hin⟩ := List.forall_mem_cons.1 hin
      have hbefore : ∀ b ∈ s.toList, b.label < g.label := fun b hb => hs b hb g List.mem_cons_self
      obtain ⟨n, hn⟩ := Nat.exists_eq_add_of_lt (List.length_pos_iff.2 hrows)
      rw [Nat.zero_add] at hn
      have hnew : current ≠ some g.label := fun heq => by
        obtain ⟨b, hb, hlabel⟩ := hcurrent g.label heq
        exact Label.ne_of_lt (hbefore b hb) hlabel
      -- the first row opens the block, the others make it longer
      have hinsert : (s.insert ⟨g.label, row, 1⟩).toList = s.toList ++ [⟨g.label, row, 1⟩] :=
        place_eq_append hbefore
      obtain ⟨t, ht, hscan⟩ := scanFrom_replicate (F := F)
        (gs.flatMap fun g => g.rows.map fun _ => g.label) n (row + 1) hinsert
      have hblock : t.toList = s.toList ++ [⟨g.label, row, g.rows.length⟩] := by
        rw [ht, hn, Nat.add_comm 1 n]
      have hafter : ∀ b ∈ t.toList, ∀ g' ∈ gs, b.label < g'.label := by
        intro b hb g' hg'
        rw [hblock, List.mem_append, List.mem_singleton] at hb
        rcases hb with hb | rfl
        · exact hs b hb g' (List.mem_cons_of_mem g hg')
        · exact hg g' hg'
      have hlast : ∀ label, some g.label = some label → ∃ b ∈ t.toList, b.label = label := by
        rintro _ ⟨⟩
        exact ⟨_, hblock ▸ List.mem_append_right _ List.mem_cons_self, rfl⟩
      obtain ⟨u, hu, hscan'⟩ := scanFrom_groups gs (row + g.rows.length) (some g.label) hgs hin hafter hlast
      refine ⟨u, ?_, ?_⟩
      · rw [hu, hblock, blocksFrom, List.append_assoc]
        rfl
      · rw [List.flatMap_cons, List.map_const', hn, List.replicate_succ, List.cons_append, scanFrom,
          if_neg hnew, find?_eq_none hbefore]
        simp only [Option.isSome_none, Bool.false_eq_true, if_false]
        rw [hscan, Nat.add_assoc, Nat.add_comm 1 n, ← hn, hscan']

/-- Scanning the labels of grouped observations finds their blocks. -/
theorem scan_labels (d : GroupedDataset F L) :
    ClassBlocks.scan (F := F) d.labels = .ok d.blocks := by
  obtain ⟨t, ht, hscan⟩ := scanFrom_groups d.groups 0 none (s := .empty) d.ascending d.inhabited
    (fun b hb => nomatch hb) (fun label h => nomatch h)
  obtain rfl : t = d.blocks := ClassBlocks.ext ht
  exact hscan

theorem labels_blocks (d : GroupedDataset F L) : d.blocks.labels = d.presentClasses :=
  LabelSet.ext (map_label_blocksFrom 0 d.groups)

/-! ### Places -/

omit [Label L] in
/-- Gathering the places of some blocks gives what stands in the groups of their labels. Here every
group stands for `f g`, a list of as many entries as it has rows. -/
theorem filterMap_places {α : Type} {f : ClassGroup F L → List α}
    (hf : ∀ g, (f g).length = g.rows.length) (p : L → Bool) :
    ∀ (gs : List (ClassGroup F L)) (before : List α),
      (((blocksFrom before.length gs).filter (p ·.label)).flatMap (·.places)).filterMap
        ((before ++ gs.flatMap f)[·]?) = (gs.filter (p ·.label)).flatMap f
  | [], _ => rfl
  | g :: gs, before => by
      have ih := filterMap_places hf p gs (before ++ f g)
      rw [List.length_append, hf, List.append_assoc] at ih
      have hfirst : (List.range' before.length g.rows.length).filterMap
          ((before ++ (f g ++ gs.flatMap f))[·]?) = f g := by
        rw [filterMap_range'_getElem?, List.drop_left, ← hf, List.take_left]
      rw [blocksFrom, List.flatMap_cons, List.filter_cons, List.filter_cons]
      by_cases hp : p g.label
      · rw [if_pos hp, if_pos hp, List.flatMap_cons, List.filterMap_append, List.flatMap_cons, ih]
        exact congrArg (· ++ _) hfirst
      · rw [if_neg hp, if_neg hp, ih]

omit [Label L] in
theorem follow_blocksFrom : ∀ (first : Nat) (gs : List (ClassGroup F L)),
    ClassBlock.Follow first (blocksFrom first gs) (first + (gs.flatMap (·.rows)).length)
  | _, [] => rfl
  | first, g :: gs => by
      rw [List.flatMap_cons, List.length_append, ← Nat.add_assoc]
      exact ⟨rfl, follow_blocksFrom (first + g.rows.length) gs⟩

omit [Label L] in
theorem size_pos_of_mem_blocksFrom {b : ClassBlock L} : ∀ {first : Nat}
    {gs : List (ClassGroup F L)}, (∀ g ∈ gs, g.rows ≠ []) → b ∈ blocksFrom first gs → 0 < b.size
  | _, [], _, hb => nomatch hb
  | first, g :: gs, h, hb => by
      obtain ⟨hg, hgs⟩ := List.forall_mem_cons.1 h
      rcases List.mem_cons.1 hb with rfl | hb
      · exact List.length_pos_iff.2 hg
      · exact size_pos_of_mem_blocksFrom hgs hb

omit [Label L] in
/-- As many copies of a value as the rows of some blocks. -/
theorem flatMap_replicate_blocksFrom {α : Type} (x : α) (p : L → Bool) :
    ∀ (first : Nat) (gs : List (ClassGroup F L)),
      ((blocksFrom first gs).filter (p ·.label)).flatMap (fun b => List.replicate b.size x) =
        ((gs.filter (p ·.label)).flatMap (·.rows)).map fun _ => x
  | _, [] => rfl
  | first, g :: gs => by
      have ih := flatMap_replicate_blocksFrom x p (first + g.rows.length) gs
      rw [blocksFrom, List.filter_cons, List.filter_cons]
      by_cases hp : p g.label
      · simp [hp, ih, List.map_const']
      · simp [hp, ih]

omit [Label L] in
theorem le_start_of_mem_blocksFrom {b : ClassBlock L} : ∀ {first : Nat}
    {gs : List (ClassGroup F L)}, b ∈ blocksFrom first gs → first ≤ b.start
  | _, [], hb => nomatch hb
  | first, g :: gs, hb => by
      rcases List.mem_cons.1 hb with rfl | hb
      · exact Nat.le_refl first
      · exact Nat.le_trans (Nat.le_add_right _ _) (le_start_of_mem_blocksFrom hb)

omit [Label L] in
theorem pairwise_blocksFrom : ∀ (first : Nat) (gs : List (ClassGroup F L)),
    (blocksFrom first gs).Pairwise (·.stop ≤ ·.start)
  | _, [] => List.Pairwise.nil
  | first, g :: gs => by
      refine List.pairwise_cons.2 ⟨?_, pairwise_blocksFrom (first + g.rows.length) gs⟩
      intro b hb
      exact le_start_of_mem_blocksFrom hb

omit [Label L] in
theorem label_of_mem_blocksFrom {b : ClassBlock L} {first : Nat} {gs : List (ClassGroup F L)}
    (hb : b ∈ blocksFrom first gs) : ∃ g ∈ gs, g.label = b.label := by
  have hmem : b.label ∈ (blocksFrom first gs).map (·.label) := List.mem_map_of_mem hb
  rw [map_label_blocksFrom] at hmem
  exact List.mem_map.1 hmem

/-- A block is made of the rows that carry its label. -/
theorem mem_places_blocksFrom {b : ClassBlock L} : ∀ {gs : List (ClassGroup F L)} {first i : Nat},
    gs.Pairwise (·.label < ·.label) → b ∈ blocksFrom first gs →
    (first + i ∈ b.places ↔ (gs.flatMap fun g => g.rows.map fun _ => g.label)[i]? = some b.label)
  | [], _, _, _, hb => nomatch hb
  | g :: gs, first, i, hgs, hb => by
      obtain ⟨hg, hgs⟩ := List.pairwise_cons.1 hgs
      rw [List.flatMap_cons, ClassBlock.mem_places, ClassBlock.stop]
      rcases List.mem_cons.1 hb with rfl | hb
      · by_cases hi : i < g.rows.length
        · rw [List.getElem?_append_left (by simpa using hi)]
          simp [hi]
        · rw [List.getElem?_append_right (by simpa using hi)]
          -- all later rows have larger labels
          refine iff_of_false (by simpa using hi) fun h => ?_
          obtain ⟨g', hg', hlabel⟩ := List.mem_flatMap.1 (List.mem_of_getElem? h)
          obtain ⟨-, -, hlabel⟩ := List.mem_map.1 hlabel
          exact Label.ne_of_lt (hg g' hg') hlabel.symm
      · have hstart := le_start_of_mem_blocksFrom hb
        by_cases hi : i < g.rows.length
        · rw [List.getElem?_append_left (by simpa using hi)]
          refine iff_of_false (by omega) fun h => ?_
          obtain ⟨g', hg', hlabel⟩ := label_of_mem_blocksFrom hb
          simp only [List.getElem?_map, Option.map_eq_some_iff] at h
          obtain ⟨-, -, heq⟩ := h
          exact Label.ne_of_lt (hg g' hg') (heq.trans hlabel.symm)
        · rw [List.getElem?_append_right (by simpa using hi), List.length_map,
            ← mem_places_blocksFrom hgs hb, ClassBlock.mem_places, ClassBlock.stop]
          have hsum : first + g.rows.length + (i - g.rows.length) = first + i := by omega
          rw [hsum]

theorem mem_places_iff {d : GroupedDataset F L} {b : ClassBlock L} (hb : b ∈ d.blocks.toList)
    {i : Nat} : i ∈ b.places ↔ d.labels[i]? = some b.label := by
  have h := mem_places_blocksFrom (i := i) d.ascending hb
  rwa [Nat.zero_add] at h

end GroupedDataset
end PursuitForest
