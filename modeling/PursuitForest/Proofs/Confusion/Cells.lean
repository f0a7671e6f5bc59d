import Mathlib.Data.List.Count
import Mathlib.Data.List.Zip
import Mathlib.Data.Prod.Basic
import PursuitForest.Proofs.Confusion.Tally
import PursuitForest.Proofs.Forest.Plurality
/-!
The cells of a confusion matrix.

A tally has the labels of either list in ascending order, and the cell of two labels counts the positions
where they meet (`exists_tallies`). Rows add up to the counts of the actual labels, columns to those of the
predicted ones, and the diagonal to the positions where both agree. Only the pairs matter and not their
order (`Tallies.of_perm`), and the tally of the exchanged lists is the transpose (`Tallies.transpose`).
-/

namespace PursuitForest
namespace Confusion

/-! ### Tables -/

section
variable {α : Type}

/-- A table with a row and a column for every member of a list. -/
def table (xs : List α) (f : α → α → Nat) : List (List Nat) := xs.map fun a => xs.map (f a)

/-- The columns of a table are the rows of the table that is read the other way. -/
theorem columns_table (xs : List α) (f : α → α → Nat) :
    ((List.range xs.length).map fun j => (table xs f).map (·.getD j 0)) =
      table xs fun p a => f a p := by
  refine List.ext_getElem (by simp [table]) fun j hj _ => ?_
  have hlt : j < xs.length := by simpa using hj
  simp [table, hlt]

theorem diagonal_table (xs : List α) (f : α → α → Nat) :
    ((table xs f).zipIdx.map fun (row, i) => row.getD i 0) = xs.map fun c => f c c := by
  refine List.ext_getElem (by simp [table]) fun i hi _ => ?_
  have hlt : i < xs.length := by simpa [table] using hi
  simp [table, hlt]

/-- Changing the entry at the place of `x` changes what the entries are of at `x` alone. -/
theorem modify_idxOf {β : Type} [DecidableEq α] (x : α) (f : α → β) (g : β → β) :
    ∀ {xs : List α}, xs.Nodup →
      (xs.map f).modify (xs.idxOf x) g = xs.map fun y => if y = x then g (f y) else f y
  | [], _ => rfl
  | y :: ys, h => by
      obtain ⟨hy, hys⟩ := List.nodup_cons.1 h
      by_cases hyx : y = x
      · subst hyx
        have hrest : ys.map (fun z => if z = y then g (f z) else f z) = ys.map f :=
          List.map_congr_left fun z hz => if_neg (ne_of_mem_of_not_mem hz hy)
        rw [List.idxOf_cons_self, List.map_cons, List.modify_zero_cons, List.map_cons, hrest,
          if_pos rfl]
      · rw [List.idxOf_cons_ne _ hyx, List.map_cons, List.modify_succ_cons, modify_idxOf x f g hys,
          List.map_cons, if_neg hyx]

end

variable {F L : Type} [Label L]

/-! ### Counting pairs -/

/-- One more for a pair of labels. -/
theorem bump_table (labels : LabelSet L) (f : L → L → Nat) (p a : L) :
    bump (table labels.toList f) (place labels a) (place labels p) =
      table labels.toList fun a' p' => f a' p' + if (p, a) == (p', a') then 1 else 0 := by
  rw [bump, place, table, modify_idxOf a _ _ labels.nodup]
  refine List.map_congr_left fun a' _ => ?_
  by_cases ha : a' = a
  · rw [if_pos ha, place, modify_idxOf p _ _ labels.nodup]
    refine List.map_congr_left fun p' _ => ?_
    by_cases hp : p' = p
    · simp [ha, hp]
    · simp [hp, Ne.symm hp]
  · rw [if_neg ha]
    refine List.map_congr_left fun p' _ => ?_
    simp [Ne.symm ha]

/-- Every cell grows by the number of its pairs. -/
theorem foldl_bump_table (labels : LabelSet L) : ∀ (pairs : List (L × L)) (f : L → L → Nat),
    pairs.foldl (fun counts (p, a) => bump counts (place labels a) (place labels p))
      (table labels.toList f) = table labels.toList fun a p => f a p + pairs.count (p, a)
  | [], f => by simp
  | (p, a) :: pairs, f => by
      rw [List.foldl_cons]
      dsimp only
      rw [bump_table, foldl_bump_table labels pairs]
      refine congrArg (table labels.toList) (funext₂ fun a' p' => ?_)
      rw [List.count_cons, Nat.add_right_comm, Nat.add_assoc]

/-- Every pair on the graph of a function is counted at its first label. -/
theorem totalCount_count_graph (labels : LabelSet L) {pairs : List (L × L)}
    (hpairs : ∀ x ∈ pairs, x.1 ∈ labels) (g : L → L) :
    totalCount (labels.toList.map fun p => pairs.count (p, g p)) =
      pairs.countP fun x => decide (x.2 = g x.1) := by
  have hcount : ∀ p, pairs.count (p, g p) =
      ((pairs.filter fun x => decide (x.2 = g x.1)).map Prod.fst).count p := fun p => by
    rw [List.count_eq_countP, List.count_eq_countP, List.countP_map, List.countP_filter]
    refine List.countP_congr fun x _ => ?_
    simp only [beq_iff_eq, Function.comp_apply, Bool.and_eq_true, decide_eq_true_eq, Prod.ext_iff]
    constructor
    · rintro ⟨rfl, h⟩
      exact ⟨rfl, h⟩
    · rintro ⟨rfl, h⟩
      exact ⟨rfl, h⟩
  simp only [hcount]
  rw [totalCount_count labels, List.length_map, List.countP_eq_length_filter]
  intro p hp
  obtain ⟨x, hx, rfl⟩ := List.mem_map.1 hp
  exact hpairs x (List.mem_filter.1 hx).1

/-- Pairs are counted alike with their labels exchanged. -/
theorem count_zip_comm (predicted actual : List L) (p a : L) :
    (predicted.zip actual).count (p, a) = (actual.zip predicted).count (a, p) := by
  rw [← List.zip_swap actual predicted]
  exact List.count_map_of_injective _ _ Prod.swap_injective (a, p)

/-! ### Tallies -/

/-- The matrix with rows and columns exchanged. -/
def transpose (m : Confusion L) : Confusion L where
  labels := m.labels
  counts := (List.range m.labels.size).map fun j => m.counts.map (·.getD j 0)

/-- A matrix of the labels of two lists, in which the cell of an actual and a predicted label is the number
of positions where they meet. -/
structure Tallies (predicted actual : List L) (m : Confusion L) : Prop where
  mem_labels : ∀ label, label ∈ m.labels ↔ label ∈ predicted ∨ label ∈ actual
  counts_eq : m.counts = table m.labels.toList fun a p => (predicted.zip actual).count (p, a)

/-- Lists of equal length are tallied. -/
theorem exists_tallies {predicted actual : List L} (h : predicted.length = actual.length) :
    ∃ m, (tally predicted actual : Except (Error F L) (Confusion L)) = .ok m ∧
      m.Tallies predicted actual ∧ m.total = actual.length := by
  obtain ⟨m, hm, htotal⟩ := exists_tally (F := F) h
  refine ⟨m, hm, ?_, htotal⟩
  rw [tally, if_neg (not_not_intro h)] at hm
  cases hm
  refine ⟨fun label => by rw [LabelSet.mem_ofList, List.mem_append], ?_⟩
  have hzeros : ∀ labels : LabelSet L,
      List.replicate labels.size (List.replicate labels.size 0) =
        table labels.toList fun _ _ => 0 := fun labels => by
    simp [table, LabelSet.size, List.map_const']
  rw [hzeros, foldl_bump_table]
  simp only [Nat.zero_add]

namespace Tallies

variable {predicted actual : List L} {m : Confusion L}

/-- The two lists determine the matrix. -/
theorem unique {m' : Confusion L} (h : m.Tallies predicted actual) (h' : m'.Tallies predicted actual) :
    m = m' := by
  have hlabels : m.labels = m'.labels :=
    LabelSet.ext_mem fun label => (h.mem_labels label).trans (h'.mem_labels label).symm
  have hcounts : m.counts = m'.counts := by rw [h.counts_eq, h'.counts_eq, hlabels]
  cases m
  cases m'
  cases hlabels
  cases hcounts
  rfl

/-- The order of the positions does not matter. -/
theorem of_perm {predicted' actual' : List L} (h : m.Tallies predicted actual)
    (hlength : predicted.length = actual.length) (hlength' : predicted'.length = actual'.length)
    (hperm : (predicted'.zip actual').Perm (predicted.zip actual)) :
    m.Tallies predicted' actual' := by
  have hpredicted : predicted'.Perm predicted := by
    have := hperm.map Prod.fst
    rwa [List.map_fst_zip (Nat.le_of_eq hlength'), List.map_fst_zip (Nat.le_of_eq hlength)] at this
  have hactual : actual'.Perm actual := by
    have := hperm.map Prod.snd
    rwa [List.map_snd_zip (Nat.le_of_eq hlength'.symm),
      List.map_snd_zip (Nat.le_of_eq hlength.symm)] at this
  refine ⟨fun label => ?_, ?_⟩
  · rw [h.mem_labels, hpredicted.mem_iff, hactual.mem_iff]
  · rw [h.counts_eq]
    simp only [hperm.count_eq]

/-- Exchanging the lists exchanges rows and columns. -/
theorem transpose (h : m.Tallies predicted actual) : m.transpose.Tallies actual predicted := by
  refine ⟨fun label => (h.mem_labels label).trans or_comm, ?_⟩
  show ((List.range m.labels.toList.length).map fun j => m.counts.map (·.getD j 0)) = _
  rw [h.counts_eq, columns_table]
  exact congrArg (table m.labels.toList) (funext₂ fun p a => count_zip_comm predicted actual p a)

theorem fst_mem_labels (h : m.Tallies predicted actual) :
    ∀ x ∈ predicted.zip actual, x.1 ∈ m.labels := fun x hx =>
  (h.mem_labels x.1).2 (.inl (List.of_mem_zip hx).1)

/-- Rows add up to the actual labels. -/
theorem actualCounts_eq (h : m.Tallies predicted actual) (hlength : predicted.length = actual.length) :
    m.actualCounts = m.labels.toList.map fun c => actual.count c := by
  rw [actualCounts, h.counts_eq, table, List.map_map]
  refine List.map_congr_left fun a _ => ?_
  rw [Function.comp_apply, totalCount_count_graph m.labels h.fst_mem_labels fun _ => a]
  conv_rhs => rw [← List.map_snd_zip (Nat.le_of_eq hlength.symm), List.count_eq_countP, List.countP_map]
  rfl

/-- Columns add up to the predicted labels. -/
theorem predictedCounts_eq (h : m.Tallies predicted actual)
    (hlength : predicted.length = actual.length) :
    m.predictedCounts = m.labels.toList.map fun c => predicted.count c := by
  have hcolumns : m.predictedCounts = m.transpose.actualCounts := by
    rw [predictedCounts, actualCounts, Confusion.transpose, List.map_map]
    rfl
  rw [hcolumns, h.transpose.actualCounts_eq hlength.symm]
  rfl

theorem diagonal_eq (h : m.Tallies predicted actual) :
    m.diagonal = m.labels.toList.map fun c => (predicted.zip actual).count (c, c) := by
  rw [diagonal, h.counts_eq, diagonal_table]

/-- The diagonal adds up to the positions where both labels agree. -/
theorem totalCount_diagonal (h : m.Tallies predicted actual) :
    totalCount m.diagonal = (predicted.zip actual).countP fun x => decide (x.1 = x.2) := by
  have hgraph := totalCount_count_graph m.labels h.fst_mem_labels id
  rw [h.diagonal_eq]
  refine hgraph.trans (List.countP_congr fun x _ => ?_)
  simp [eq_comm]

end Tallies

end Confusion
end PursuitForest
