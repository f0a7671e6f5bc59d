import PursuitForest.Proofs.Dataset.BlockIndex
import PursuitForest.Proofs.Outcomes
/-!
Which labels have blocks.

A list of labels is contiguous when no label occurs again after a different one has followed it, that is
when no row takes up a label that was left before (`contiguous_iff`). The scan keeps the blocks of what it
has read (`Indexes.extend`, `Indexes.insert`) and stops at the first row that takes up a label again, so it
accepts exactly the contiguous lists, in whatever order their labels come (`scan_spec`).
-/

namespace PursuitForest

/-- An entry of a list with one more at the end. -/
theorem getElem?_concat_eq_some_iff {α : Type} {xs : List α} {x y : α} {i : Nat} :
    (xs ++ [x])[i]? = some y ↔ xs[i]? = some y ∨ i = xs.length ∧ x = y := by
  rcases Nat.lt_trichotomy i xs.length with h | rfl | h
  · simp [List.getElem?_append_left h, Nat.ne_of_lt h]
  · simp
  · rw [List.getElem?_eq_none (by rw [List.length_append, List.length_singleton]; omega),
      List.getElem?_eq_none (Nat.le_of_lt h)]
    simp [Nat.ne_of_gt h]

/-! ### Contiguous labels -/

section
variable {L : Type}

/-- No label occurs again after a different one has followed it. -/
def Contiguous (labels : List L) : Prop :=
  ∀ (i j k : Nat) (x : L), i < j → j < k → labels[i]? = some x → labels[k]? = some x →
    labels[j]? = some x

/-- The label of a row occurred before, but not in the row directly above. -/
def TakesUp (labels : List L) (row : Nat) : Prop :=
  ∃ x, labels[row]? = some x ∧ (∃ i < row, labels[i]? = some x) ∧ labels[row - 1]? ≠ some x

theorem TakesUp.lt_length {labels : List L} {row : Nat} (h : TakesUp labels row) :
    row < labels.length := by
  obtain ⟨x, hx, -⟩ := h
  exact (List.getElem?_eq_some_iff.1 hx).1

/-- Labels are contiguous if no row takes up a label that was left. -/
theorem contiguous_iff {labels : List L} : Contiguous labels ↔ ∀ row, ¬ TakesUp labels row := by
  constructor
  · rintro h row ⟨x, hrow, ⟨i, hi, hx⟩, habove⟩
    have hne : i ≠ row - 1 := by
      rintro rfl
      exact habove hx
    exact habove (h i (row - 1) row x (by omega) (by omega) hx hrow)
  · intro h i j k x hij hjk hi hk
    by_contra hj
    -- from the row with a different label on, none can carry the first label again
    have hleft : ∀ d, labels[j + d]? ≠ some x := by
      intro d
      induction d with
      | zero => exact hj
      | succ d ih => exact fun hd => h (j + d + 1) ⟨x, hd, ⟨i, by omega, hi⟩, ih⟩
    exact hleft (k - j) (by rwa [Nat.add_sub_cancel' (Nat.le_of_lt hjk)])

/-- What comes later does not matter to a row. -/
theorem takesUp_append_iff {labels : List L} (rest : List L) {row : Nat} (h : row < labels.length) :
    TakesUp (labels ++ rest) row ↔ TakesUp labels row := by
  have hget : ∀ i ≤ row, (labels ++ rest)[i]? = labels[i]? := fun i hi =>
    List.getElem?_append_left (Nat.lt_of_le_of_lt hi h)
  unfold TakesUp
  rw [hget row (Nat.le_refl row), hget (row - 1) (Nat.sub_le row 1)]
  have hbefore : ∀ x, (∃ i < row, (labels ++ rest)[i]? = some x) ↔ ∃ i < row, labels[i]? = some x :=
    fun x => exists_congr fun i => and_congr_right fun hi => by rw [hget i (Nat.le_of_lt hi)]
  simp only [hbefore]

/-- The next row takes up a label if this occurred, but not last. -/
theorem takesUp_length_iff {labels rest : List L} {x : L} :
    TakesUp (labels ++ x :: rest) labels.length ↔ x ∈ labels ∧ labels.getLast? ≠ some x := by
  have hx : (labels ++ x :: rest)[labels.length]? = some x := by simp
  constructor
  · rintro ⟨y, hy, ⟨i, hi, hbefore⟩, habove⟩
    obtain rfl := Option.some.inj (hy.symm.trans hx)
    rw [List.getElem?_append_left hi] at hbefore
    rw [List.getElem?_append_left (by omega), ← List.getLast?_eq_getElem?] at habove
    exact ⟨List.mem_of_getElem? hbefore, habove⟩
  · rintro ⟨hmem, hlast⟩
    obtain ⟨i, hi, hbefore⟩ := List.getElem_of_mem hmem
    refine ⟨x, hx, ⟨i, hi, ?_⟩, ?_⟩
    · rw [List.getElem?_append_left hi, List.getElem?_eq_getElem hi, hbefore]
    · rwa [List.getElem?_append_left (by omega), ← List.getLast?_eq_getElem?]

/-- One more row that does not take up its label leaves none that does. -/
theorem not_takesUp_concat {labels rest : List L} {x : L} (hlabels : ∀ row, ¬ TakesUp labels row)
    (hx : ¬ TakesUp (labels ++ x :: rest) labels.length) (row : Nat) : ¬ TakesUp (labels ++ [x]) row := by
  intro htakes
  have hlt := htakes.lt_length
  rw [List.length_append, List.length_singleton] at hlt
  rcases Nat.lt_or_eq_of_le (Nat.le_of_lt_succ hlt) with hlt | rfl
  · exact hlabels row ((takesUp_append_iff [x] hlt).1 htakes)
  · rw [takesUp_length_iff] at htakes hx
    exact hx htakes

end

namespace ClassBlocks

variable {F L : Type} [Label L]

/-! ### Blocks of what was read -/

/-- Every label has a block, and every block is made of the rows with its label. -/
structure Indexes (s : ClassBlocks L) (labels : List L) : Prop where
  size_pos : ∀ b ∈ s.toList, 0 < b.size
  mem_places_iff : ∀ b ∈ s.toList, ∀ row, row ∈ b.places ↔ labels[row]? = some b.label
  exists_block : ∀ label ∈ labels, ∃ b ∈ s.toList, b.label = label

theorem indexes_empty : (empty : ClassBlocks L).Indexes [] where
  size_pos _ hb := nomatch hb
  mem_places_iff _ hb := nomatch hb
  exists_block _ hlabel := nomatch hlabel

theorem isSome_find?_iff {s : ClassBlocks L} {label : L} :
    (s.find? label).isSome = true ↔ ∃ b ∈ s.toList, b.label = label := by
  simp [find?]

/-- A block whose label is new is put beside the others. -/
theorem mem_place_iff {b x : ClassBlock L} : ∀ {bs : List (ClassBlock L)},
    (∀ c ∈ bs, c.label ≠ b.label) → (x ∈ place b bs ↔ x = b ∨ x ∈ bs)
  | [], _ => by simp [place]
  | c :: bs, h => by
      obtain ⟨hc, hbs⟩ := List.forall_mem_cons.1 h
      rw [place]
      split
      · exact List.mem_cons
      · rw [if_neg hc.symm, List.mem_cons, mem_place_iff hbs, List.mem_cons]
        exact or_left_comm

namespace Indexes

variable {s : ClassBlocks L} {labels : List L} {label : L}

/-- A label has a block if it occurs. -/
theorem isSome_find? (h : s.Indexes labels) : (s.find? label).isSome = true ↔ label ∈ labels := by
  refine isSome_find?_iff.trans ⟨?_, h.exists_block label⟩
  rintro ⟨b, hb, rfl⟩
  have hstart : b.start ∈ b.places :=
    ClassBlock.mem_places.2 ⟨Nat.le_refl _, Nat.lt_add_of_pos_right (h.size_pos b hb)⟩
  exact List.mem_of_getElem? ((h.mem_places_iff b hb b.start).1 hstart)

/-- The block of the last label ends at the last row. -/
theorem stop_eq (h : s.Indexes labels) {b : ClassBlock L} (hb : b ∈ s.toList)
    (hlast : labels.getLast? = some b.label) : b.stop = labels.length := by
  have hpos := h.size_pos b hb
  rw [List.getLast?_eq_getElem?] at hlast
  have hstop := (ClassBlock.mem_places.1 ((h.mem_places_iff b hb _).2 hlast)).2
  have hmem : b.stop - 1 ∈ b.places := by
    rw [ClassBlock.mem_places, ClassBlock.stop]
    omega
  obtain ⟨hlt, -⟩ := List.getElem?_eq_some_iff.1 ((h.mem_places_iff b hb _).1 hmem)
  omega

/-- One more row of the last label. -/
theorem extend (h : s.Indexes labels) (hlast : labels.getLast? = some label) :
    (s.extend label).Indexes (labels ++ [label]) := by
  refine ⟨?_, ?_, ?_⟩
  · refine List.forall_mem_map.2 fun b hb => ?_
    have hpos := h.size_pos b hb
    split
    · exact Nat.succ_pos b.size
    · exact hpos
  · refine List.forall_mem_map.2 fun b hb row => ?_
    rw [getElem?_concat_eq_some_iff]
    have hmem := h.mem_places_iff b hb row
    split
    · next heq =>
      subst heq
      have hstop := h.stop_eq hb hlast
      rw [← hmem, ClassBlock.mem_places, ClassBlock.mem_places, ClassBlock.stop, ClassBlock.stop]
      rw [ClassBlock.stop] at hstop
      simp only [and_true]
      omega
    · next hne => simp [hmem, Ne.symm hne]
  · intro other hother
    have hold : other ∈ labels := by
      rcases List.mem_append.1 hother with hother | hother
      · exact hother
      · rw [List.mem_singleton.1 hother]
        exact List.mem_of_getLast? hlast
    obtain ⟨b, hb, rfl⟩ := h.exists_block other hold
    refine ⟨_, List.mem_map_of_mem hb, ?_⟩
    split <;> rfl

/-- A row with a new label. -/
theorem insert (h : s.Indexes labels) (hnew : label ∉ labels) :
    (s.insert ⟨label, labels.length, 1⟩).Indexes (labels ++ [label]) := by
  have hfresh : ∀ c ∈ s.toList, c.label ≠ label := fun c hc heq =>
    hnew (h.isSome_find?.1 (isSome_find?_iff.2 ⟨c, hc, heq⟩))
  have hmem : ∀ b, b ∈ (s.insert ⟨label, labels.length, 1⟩).toList ↔
      b = ⟨label, labels.length, 1⟩ ∨ b ∈ s.toList := fun b => mem_place_iff hfresh
  refine ⟨?_, ?_, ?_⟩
  · intro b hb
    rcases (hmem b).1 hb with rfl | hb
    · exact Nat.one_pos
    · exact h.size_pos b hb
  · intro b hb row
    rw [getElem?_concat_eq_some_iff]
    rcases (hmem b).1 hb with rfl | hb
    · have hnot : labels[row]? ≠ some label := fun heq => hnew (List.mem_of_getElem? heq)
      rw [ClassBlock.mem_places, ClassBlock.stop]
      simp only [hnot, false_or, and_true]
      omega
    · simp [h.mem_places_iff b hb row, (hfresh b hb).symm]
  · intro other hother
    rcases List.mem_append.1 hother with hother | hother
    · obtain ⟨b, hb, hlabel⟩ := h.exists_block other hother
      exact ⟨b, (hmem b).2 (.inr hb), hlabel⟩
    · exact ⟨_, (hmem _).2 (.inl rfl), (List.mem_singleton.1 hother).symm⟩

end Indexes

/-- The error of the first row that takes up a label again. -/
def FirstTakenUp (labels : List L) (e : Error F L) : Prop :=
  ∃ label row, e = .splitBlock label row ∧ labels[row]? = some label ∧ TakesUp labels row ∧
    ∀ k < row, ¬ TakesUp labels k

/-- From where the scan has come without such a row, it goes on to the end or stops at the first one. -/
theorem scanFrom_ends : ∀ (rest : List L) {labels : List L} {s : ClassBlocks L}, s.Indexes labels →
    (∀ row, ¬ TakesUp labels row) →
    Ends (FirstTakenUp (F := F) (labels ++ rest))
      (fun t => t.Indexes (labels ++ rest) ∧ ∀ row, ¬ TakesUp (labels ++ rest) row)
      (scanFrom labels.length labels.getLast? s rest)
  | [], labels, s, hs, hlabels => by
      rw [List.append_nil]
      exact .ok ⟨hs, hlabels⟩
  | label :: rest, labels, s, hs, hlabels => by
      have hbefore : ∀ k < labels.length, ¬ TakesUp (labels ++ label :: rest) k := fun k hk htakes =>
        hlabels k ((takesUp_append_iff (label :: rest) hk).1 htakes)
      -- if this row does not take up its label, the scan goes on with one more label read
      have hnext : ¬ TakesUp (labels ++ label :: rest) labels.length → ∀ {t : ClassBlocks L},
          t.Indexes (labels ++ [label]) →
          Ends (FirstTakenUp (F := F) (labels ++ label :: rest))
            (fun u => u.Indexes (labels ++ label :: rest) ∧
              ∀ row, ¬ TakesUp (labels ++ label :: rest) row)
            (scanFrom (labels.length + 1) (some label) t rest) := by
        intro hnot t ht
        have ih := scanFrom_ends rest ht (not_takesUp_concat hlabels hnot)
        rwa [List.append_assoc, List.length_append, List.length_singleton,
          List.getLast?_concat] at ih
      rw [scanFrom]
      refine .ite (fun hlast => ?_) fun hlast => .ite (fun hfound => ?_) fun hfound => ?_
      · rw [hlast]
        exact hnext (fun htakes => (takesUp_length_iff.1 htakes).2 hlast) (hs.extend hlast)
      · have htakes : TakesUp (labels ++ label :: rest) labels.length :=
          takesUp_length_iff.2 ⟨hs.isSome_find?.1 hfound, hlast⟩
        exact .error ⟨label, labels.length, rfl, by simp, htakes, hbefore⟩
      · have hnew : label ∉ labels := fun hmem => hfound (hs.isSome_find?.2 hmem)
        exact hnext (fun htakes => hnew (takesUp_length_iff.1 htakes).1) (hs.insert hnew)

theorem scan_ends (labels : List L) : Ends (FirstTakenUp (F := F) labels)
    (fun s => s.Indexes labels ∧ ∀ row, ¬ TakesUp labels row) (scan labels) :=
  scanFrom_ends labels indexes_empty fun _ h => Nat.not_lt_zero _ h.lt_length

/-! ### The index of a list of labels -/

/-- Blocks that divide the rows: none is empty, no two share a row, together they have all rows, and a row
is in the block of a label exactly if it carries the label. -/
structure Partitions (s : ClassBlocks L) (labels : List L) : Prop where
  size_pos : ∀ b ∈ s.toList, 0 < b.size
  disjoint : s.toList.Pairwise fun b c => ∀ row ∈ b.places, row ∉ c.places
  covers : ∀ row, row < labels.length ↔ ∃ b ∈ s.toList, row ∈ b.places
  mem_block_iff : ∀ label row,
    (∃ b, s.find? label = some b ∧ row ∈ b.places) ↔ labels[row]? = some label

theorem label_of_find? {s : ClassBlocks L} {label : L} {b : ClassBlock L}
    (h : s.find? label = some b) : b ∈ s.toList ∧ b.label = label := by
  unfold find? at h
  exact ⟨List.mem_of_find?_eq_some h, by simpa using List.find?_some h⟩

theorem Indexes.partitions {s : ClassBlocks L} {labels : List L} (h : s.Indexes labels) :
    s.Partitions labels where
  size_pos := h.size_pos
  disjoint := by
    refine s.ascending.imp_of_mem fun {b c} hb hc hlt row hrow hrow' => ?_
    rw [h.mem_places_iff b hb] at hrow
    rw [h.mem_places_iff c hc] at hrow'
    exact Label.ne_of_lt hlt (Option.some.inj (hrow.symm.trans hrow'))
  covers row := by
    constructor
    · intro hlt
      obtain ⟨b, hb, hlabel⟩ := h.exists_block labels[row] (List.getElem_mem hlt)
      refine ⟨b, hb, (h.mem_places_iff b hb row).2 ?_⟩
      rw [hlabel, List.getElem?_eq_getElem hlt]
    · rintro ⟨b, hb, hrow⟩
      exact (List.getElem?_eq_some_iff.1 ((h.mem_places_iff b hb row).1 hrow)).1
  mem_block_iff label row := by
    constructor
    · rintro ⟨b, hfind, hrow⟩
      obtain ⟨hb, rfl⟩ := label_of_find? hfind
      exact (h.mem_places_iff b hb row).1 hrow
    · intro hrow
      obtain ⟨b, hb, rfl⟩ := h.exists_block label (List.mem_of_getElem? hrow)
      exact ⟨b, find?_label hb, (h.mem_places_iff b hb row).2 hrow⟩

/-- Blocks are found exactly in contiguous labels, and they divide the rows by label. In any other list
the scan names the first row that takes up a label which was left before. -/
theorem scan_spec (labels : List L) :
    ((∃ s, (scan labels : Except (Error F L) (ClassBlocks L)) = .ok s) ↔ Contiguous labels) ∧
    (∀ s, (scan labels : Except (Error F L) (ClassBlocks L)) = .ok s → s.Partitions labels) ∧
    ∀ e, (scan labels : Except (Error F L) (ClassBlocks L)) = .error e →
      ∃ label row, e = .splitBlock label row ∧ labels[row]? = some label ∧ TakesUp labels row ∧
        ∀ k < row, ¬ TakesUp labels k := by
  have hscan := scan_ends (F := F) labels
  refine ⟨?_, ?_, ?_⟩
  · rw [contiguous_iff]
    constructor
    · rintro ⟨s, hs⟩
      exact (hscan.of_eq_ok hs).2
    · intro hnone
      obtain ⟨s, hs, -⟩ | ⟨e, -, label, row, -, -, htakes, -⟩ := hscan.cases
      · exact ⟨s, hs⟩
      · exact absurd htakes (hnone row)
  · intro s hs
    exact (hscan.of_eq_ok hs).1.partitions
  · intro e he
    rw [he] at hscan
    exact hscan

/-- Blocks need not come in label order, while a block that goes on later is refused where it does. -/
theorem scan_spec_threeRows : (∃ s : ClassBlocks Nat,
      (scan [3, 3, 1] : Except (Error Nat Nat) _) = .ok s ∧ s.toList = [⟨1, 2, 1⟩, ⟨3, 0, 2⟩] ∧
        s.Partitions [3, 3, 1]) ∧
    (scan [0, 1, 0] : Except (Error Nat Nat) _) = .error (.splitBlock 0 2) ∧
      TakesUp [0, 1, 0] 2 ∧ ¬ Contiguous [0, 1, 0] := by
  obtain ⟨-, hpartitions, -⟩ := scan_spec (F := Nat) [3, 3, 1]
  obtain ⟨hiff, -, herror⟩ := scan_spec (F := Nat) [0, 1, 0]
  have hsplit : (scan [0, 1, 0] : Except (Error Nat Nat) _) = .error (.splitBlock 0 2) := by decide
  obtain ⟨label, row, heq, -, htakes, -⟩ := herror _ hsplit
  cases heq
  refine ⟨⟨_, rfl, rfl, hpartitions _ rfl⟩, hsplit, htakes, fun hcontiguous => ?_⟩
  obtain ⟨s, hs⟩ := hiff.2 hcontiguous
  rw [hsplit] at hs
  cases hs

end ClassBlocks
end PursuitForest
