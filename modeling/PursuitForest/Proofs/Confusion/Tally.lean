import PursuitForest.Confusion.Counts
/-!
Every pair is tallied once.

A tally has a row and a column for every label that occurs, so each pair falls into one cell of it
(`place_lt_size`), and the cells add up to the number of pairs (`exists_tally`).
-/

namespace PursuitForest

/-- One more in one place is one more in all. -/
theorem totalCount_map_modify {α : Type} {w : α → Nat} {g : α → α} : ∀ {xs : List α} {i : Nat},
    (∀ x ∈ xs, w (g x) = w x + 1) → i < xs.length →
      totalCount ((xs.modify i g).map w) = totalCount (xs.map w) + 1
  | x :: xs, 0, h, _ => by
      have hx := h x List.mem_cons_self
      simp only [List.modify_zero_cons, List.map_cons, totalCount_cons]
      omega
  | x :: xs, i + 1, h, hi => by
      have ih := totalCount_map_modify (fun y hy => h y (List.mem_cons_of_mem x hy))
        (Nat.lt_of_succ_lt_succ hi)
      simp only [List.modify_succ_cons, List.map_cons, totalCount_cons]
      omega

namespace Confusion

/-- As many rows as columns. -/
structure Square (n : Nat) (counts : List (List Nat)) : Prop where
  length_eq : counts.length = n
  length_row : ∀ row ∈ counts, row.length = n

theorem Square.bump {n : Nat} {counts : List (List Nat)} (h : Square n counts) (i j : Nat) :
    Square n (bump counts i j) := by
  refine ⟨(List.length_modify _ _ _).trans h.length_eq, fun row hrow => ?_⟩
  obtain ⟨k, hk, rfl⟩ := List.mem_iff_getElem.1 hrow
  simp only [Confusion.bump, List.getElem_modify]
  split
  · rw [List.length_modify]
    exact h.length_row _ (List.getElem_mem _)
  · exact h.length_row _ (List.getElem_mem _)

/-- One more in a cell is one more in all. -/
theorem total_bump {n : Nat} {counts : List (List Nat)} (h : Square n counts) {i j : Nat}
    (hi : i < n) (hj : j < n) :
    totalCount ((bump counts i j).map totalCount) = totalCount (counts.map totalCount) + 1 := by
  refine totalCount_map_modify (fun row hrow => ?_) (h.length_eq ▸ hi)
  have hrow' : j < row.length := h.length_row row hrow ▸ hj
  have hcell := totalCount_map_modify (w := id) (g := (· + 1)) (fun _ _ => rfl) hrow'
  rwa [List.map_id, List.map_id] at hcell

variable {F L : Type} [Label L]

theorem place_lt_size {labels : LabelSet L} {label : L} (h : label ∈ labels) :
    place labels label < labels.size :=
  List.idxOf_lt_length_of_mem h

/-- Pairs of known labels all go into the tally. -/
theorem total_foldl (labels : LabelSet L) : ∀ (pairs : List (L × L)) (counts : List (List Nat)),
    Square labels.size counts → (∀ p ∈ pairs, p.1 ∈ labels ∧ p.2 ∈ labels) →
      totalCount ((pairs.foldl (fun counts (p, a) =>
        bump counts (place labels a) (place labels p)) counts).map totalCount) =
          totalCount (counts.map totalCount) + pairs.length
  | [], _, _, _ => rfl
  | (p, a) :: pairs, counts, hcounts, hpairs => by
      obtain ⟨⟨hp, ha⟩, hrest⟩ := List.forall_mem_cons.1 hpairs
      rw [List.foldl_cons, total_foldl labels pairs _ (hcounts.bump _ _) hrest,
        total_bump hcounts (place_lt_size ha) (place_lt_size hp), List.length_cons]
      omega

/-- As many predicted as actual labels can be tallied, and every pair is counted once. -/
theorem exists_tally {predicted actual : List L} (h : predicted.length = actual.length) :
    ∃ m, (tally predicted actual : Except (Error F L) (Confusion L)) = .ok m ∧
      m.total = actual.length := by
  have hsquare : Square (LabelSet.ofList (predicted ++ actual)).size
      (List.replicate (LabelSet.ofList (predicted ++ actual)).size
        (List.replicate (LabelSet.ofList (predicted ++ actual)).size 0)) := by
    refine ⟨List.length_replicate, fun row hrow => ?_⟩
    rw [List.eq_of_mem_replicate hrow, List.length_replicate]
  have hzero : ∀ n k : Nat,
      totalCount ((List.replicate n (List.replicate k 0)).map totalCount) = 0 := by
    intro n k
    have hrow : totalCount (List.replicate k 0) = 0 := by
      induction k with
      | zero => rfl
      | succ k ih => rw [List.replicate_succ, totalCount_cons, ih]
    induction n with
    | zero => rfl
    | succ n ih => rw [List.replicate_succ, List.map_cons, totalCount_cons, hrow, ih]
  have htotal := total_foldl _ (predicted.zip actual) _ hsquare fun p hp => by
    obtain ⟨hp1, hp2⟩ := List.of_mem_zip hp
    exact ⟨LabelSet.mem_ofList.2 (List.mem_append_left _ hp1),
      LabelSet.mem_ofList.2 (List.mem_append_right _ hp2)⟩
  rw [hzero, Nat.zero_add, List.length_zip, h, Nat.min_self] at htotal
  rw [tally, if_neg (not_not_intro h)]
  exact ⟨_, rfl, htotal⟩

end Confusion
end PursuitForest
