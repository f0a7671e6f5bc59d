import Mathlib.Tactic.FieldSimp
import Mathlib.Tactic.NormNum
import Mathlib.Tactic.Ring
import PursuitForest.Proofs.Confusion.Cells
import PursuitForest.Proofs.OrderedScalar
/-!
Scores of a confusion matrix.

Without rounding, the error is the share of the positions with two labels, and the harmonic mean of
precision and sensitivity of a class is twice its cell on the diagonal over its row and its column
together, which are never both empty. So the mean does not change with rows and columns exchanged,
while precision and sensitivity change places (`tally_spec`).
-/

namespace PursuitForest
namespace Confusion

variable {K L : Type} [OrderedScalar K] [Label L]

/-! ### Shares -/

omit [Label L] in
/-- A share of nothing is zero in a field as well. -/
theorem shares_eq (parts wholes : List Nat) :
    (shares parts wholes : List K) =
      List.zipWith (fun (n d : Nat) => (n / d : K)) parts wholes := by
  refine congrArg (fun f => List.zipWith f parts wholes) (funext₂ fun n d => ?_)
  by_cases hd : d = 0
  · rw [if_pos hd, hd, Nat.cast_zero, div_zero]
  · exact if_neg hd

omit [Label L] in
/-- The harmonic mean of two shares of one part is twice the part over both wholes. -/
theorem harmonicMean_eq {v r c : Nat} (hr : v ≤ r) (hc : v ≤ c) :
    (if 0 < (v / c + v / r : K) then Scalar.two * (v / c) * (v / r) / (v / c + v / r) else 0 : K) =
      2 * v / (r + c) := by
  rw [OrderedScalar.two_eq]
  rcases Nat.eq_zero_or_pos v with rfl | hv
  · simp
  · have hv' : (0 : K) < v := Nat.cast_pos.2 hv
    have hr' : (0 : K) < r := Nat.cast_pos.2 (hv.trans_le hr)
    have hc' : (0 : K) < c := Nat.cast_pos.2 (hv.trans_le hc)
    rw [if_pos (add_pos (div_pos hv' hc') (div_pos hv' hr'))]
    field_simp

/-! ### Scores of a tally -/

/-- Totals of a matrix: all positions, those of an actual label in its row, and those of a predicted label
in its column. -/
structure Margins (predicted actual : List L) (m : Confusion L) : Prop where
  total_eq : m.total = actual.length
  actualCounts_eq : m.actualCounts = m.labels.toList.map fun c => actual.count c
  predictedCounts_eq : m.predictedCounts = m.labels.toList.map fun c => predicted.count c

/-- Scores without rounding. -/
structure ExactScores (K : Type) [OrderedScalar K] (predicted actual : List L) (m : Confusion L) :
    Prop where
  error_eq : (m.error : K) = if actual.length = 0 then 0 else
    (((predicted.zip actual).countP fun x => decide (x.1 ≠ x.2) : Nat) / actual.length : K)
  accuracy_eq : (m.accuracy : K) = 1 - m.error
  f1_eq : (m.f1 : List K) = m.labels.toList.map fun c =>
    (2 * (predicted.zip actual).count (c, c) / (actual.count c + predicted.count c) : K)
  weight_pos : ∀ c ∈ m.labels, 0 < actual.count c + predicted.count c

/-- What becomes of the scores when rows and columns are exchanged. -/
structure ExchangedScores (K R : Type) [OrderedScalar K] [Scalar R] (m : Confusion L) : Prop where
  precision_eq : (m.transpose.precision : List R) = m.sensitivity
  sensitivity_eq : (m.transpose.sensitivity : List R) = m.precision
  error_eq : (m.transpose.error : R) = m.error
  f1_eq : (m.transpose.f1 : List K) = m.f1

namespace Tallies

variable {predicted actual : List L} {m : Confusion L}

theorem error_eq (h : m.Tallies predicted actual) (hlength : predicted.length = actual.length)
    (htotal : m.total = actual.length) : (m.error : K) = if actual.length = 0 then 0 else
      (((predicted.zip actual).countP fun x => decide (x.1 ≠ x.2) : Nat) / actual.length : K) := by
  rw [error, htotal]
  split
  · rfl
  · next hn =>
    have hsplit : (predicted.zip actual).countP (fun x => decide (x.1 = x.2)) +
        (predicted.zip actual).countP (fun x => decide (x.1 ≠ x.2)) = actual.length := by
      have hpairs := List.length_eq_countP_add_countP (l := predicted.zip actual)
        fun x => decide (x.1 = x.2)
      rw [List.length_zip, hlength, Nat.min_self] at hpairs
      simpa using hpairs.symm
    have hn' : (actual.length : K) ≠ 0 := Nat.cast_ne_zero.2 hn
    show 1 - ((totalCount m.diagonal : Nat) : K) / ((actual.length : Nat) : K) = _
    rw [h.totalCount_diagonal, eq_div_iff hn', sub_mul, one_mul, div_mul_cancel₀ _ hn', ← hsplit]
    push_cast
    ring

/-- A class occurs as an actual or as a predicted label. -/
theorem weight_pos (h : m.Tallies predicted actual) {c : L} (hc : c ∈ m.labels) :
    0 < actual.count c + predicted.count c := by
  rcases (h.mem_labels c).1 hc with hp | ha
  · exact Nat.add_pos_right _ (List.count_pos_iff.2 hp)
  · exact Nat.add_pos_left (List.count_pos_iff.2 ha) _

/-- No class is met on both sides more often than on either. -/
theorem count_pair_le (hlength : predicted.length = actual.length) (c : L) :
    (predicted.zip actual).count (c, c) ≤ actual.count c ∧
      (predicted.zip actual).count (c, c) ≤ predicted.count c := by
  have hle : ∀ f : L × L → L, f (c, c) = c →
      (predicted.zip actual).count (c, c) ≤ ((predicted.zip actual).map f).count c := fun f hf => by
    have hmap := List.count_le_count_map (l := predicted.zip actual) (f := f) (x := (c, c))
    rwa [hf] at hmap
  have hactual := hle Prod.snd rfl
  have hpredicted := hle Prod.fst rfl
  rw [List.map_snd_zip hlength.ge] at hactual
  rw [List.map_fst_zip hlength.le] at hpredicted
  exact ⟨hactual, hpredicted⟩

theorem f1_eq (h : m.Tallies predicted actual) (hlength : predicted.length = actual.length) :
    (m.f1 : List K) = m.labels.toList.map fun c =>
      (2 * (predicted.zip actual).count (c, c) / (actual.count c + predicted.count c) : K) := by
  rw [f1, precision, sensitivity, shares_eq, shares_eq, h.diagonal_eq, h.predictedCounts_eq hlength,
    h.actualCounts_eq hlength]
  simp only [List.zipWith_map, List.zipWith_self]
  refine List.map_congr_left fun c _ => ?_
  obtain ⟨hactual, hpredicted⟩ := count_pair_le hlength c
  exact harmonicMean_eq hactual hpredicted

theorem exactScores (h : m.Tallies predicted actual) (hlength : predicted.length = actual.length)
    (htotal : m.total = actual.length) : m.ExactScores K predicted actual where
  error_eq := h.error_eq hlength htotal
  accuracy_eq := rfl
  f1_eq := h.f1_eq hlength
  weight_pos _ hc := h.weight_pos hc

theorem diagonal_transpose (h : m.Tallies predicted actual) : m.transpose.diagonal = m.diagonal := by
  rw [h.diagonal_eq, h.transpose.diagonal_eq]
  exact List.map_congr_left fun c _ => count_zip_comm actual predicted c c

variable {R : Type} [Scalar R]

/-- Precision and sensitivity change places, so what is symmetric in them stays. -/
theorem exchangedScores (h : m.Tallies predicted actual) (hlength : predicted.length = actual.length)
    (htotal : m.transpose.total = m.total) : m.ExchangedScores K R := by
  have hpredicted : m.transpose.predictedCounts = m.actualCounts :=
    (h.transpose.predictedCounts_eq hlength.symm).trans (h.actualCounts_eq hlength).symm
  have hactual : m.transpose.actualCounts = m.predictedCounts :=
    (h.transpose.actualCounts_eq hlength.symm).trans (h.predictedCounts_eq hlength).symm
  refine ⟨?_, ?_, ?_, ?_⟩
  · rw [precision, hpredicted, h.diagonal_transpose, sensitivity]
  · rw [sensitivity, hactual, h.diagonal_transpose, precision]
  · rw [error, htotal, h.diagonal_transpose, error]
  · rw [h.transpose.f1_eq hlength.symm, h.f1_eq hlength]
    refine List.map_congr_left fun c _ => ?_
    rw [count_zip_comm actual predicted, add_comm]

end Tallies

variable {F R : Type} [Scalar R]

/-- Only lists of equal length are tallied. The cell of an actual and a predicted label then counts the
positions where they meet, rows and columns add up to the labels of either list, and the scores are the
shares that they should be. Positions in another order give the same matrix, and exchanged lists its
transpose, in which precision and sensitivity have changed places. -/
theorem tally_spec (predicted actual : List L) :
    (predicted.length ≠ actual.length → (tally predicted actual : Except (Error F L) (Confusion L)) =
      .error (.shapeMismatch .predictions actual.length predicted.length)) ∧
    (predicted.length = actual.length → ∃ m : Confusion L,
      (tally predicted actual : Except (Error F L) (Confusion L)) = .ok m ∧
      m.Tallies predicted actual ∧ m.Margins predicted actual ∧ m.ExactScores K predicted actual ∧
      (∀ predicted' actual' : List L, predicted'.length = actual'.length →
        (predicted'.zip actual').Perm (predicted.zip actual) →
          (tally predicted' actual' : Except (Error F L) (Confusion L)) = .ok m) ∧
      (tally actual predicted : Except (Error F L) (Confusion L)) = .ok m.transpose ∧
      m.ExchangedScores K R) := by
  refine ⟨fun hne => if_pos hne, fun hlength => ?_⟩
  obtain ⟨m, hm, htallies, htotal⟩ := exists_tallies (F := F) hlength
  refine ⟨m, hm, htallies, ⟨htotal, htallies.actualCounts_eq hlength,
    htallies.predictedCounts_eq hlength⟩, htallies.exactScores hlength htotal, ?_, ?_⟩
  · intro predicted' actual' hlength' hperm
    obtain ⟨m', hm', htallies', -⟩ := exists_tallies (F := F) hlength'
    rw [hm', (htallies.of_perm hlength hlength' hperm).unique htallies']
  · obtain ⟨t, ht, htransposed, htotal'⟩ := exists_tallies (F := F) hlength.symm
    obtain rfl := htransposed.unique htallies.transpose
    exact ⟨ht, htallies.exchangedScores hlength (htotal'.trans (hlength.trans htotal.symm))⟩

/-- The class `a` is never predicted and `b` never occurs, so both have no precision or no sensitivity. -/
theorem tally_spec_threeLetters : ["b", "c"].length = ["a", "c"].length ∧
    ∃ m : Confusion String, (tally ["b", "c"] ["a", "c"] : Except (Error ℚ String) _) = .ok m ∧
      m.labels = .ofList ["a", "b", "c"] ∧ m.counts = [[0, 1, 0], [0, 0, 0], [0, 0, 1]] ∧
      (m.error : ℚ) = 1 / 2 ∧ (m.f1 : List ℚ) = [0, 0, 1] ∧
      (tally ["c", "b"] ["c", "a"] : Except (Error ℚ String) _) = .ok m ∧
      (tally ["a", "c"] ["b", "c"] : Except (Error ℚ String) _) = .ok m.transpose := by
  obtain ⟨m, hm, htallies, -, hscores, hperm, htransposed, -⟩ :=
    (tally_spec (K := ℚ) (F := ℚ) (R := ℚ) ["b", "c"] ["a", "c"]).2 rfl
  have hlabels : m.labels = .ofList ["a", "b", "c"] := LabelSet.ext_mem fun label => by
    rw [htallies.mem_labels, LabelSet.mem_ofList]
    simp only [List.mem_cons, List.not_mem_nil, or_false]
    tauto
  refine ⟨rfl, m, hm, hlabels, ?_, ?_, ?_, ?_, htransposed⟩
  · rw [htallies.counts_eq, hlabels]
    decide
  · rw [hscores.error_eq]
    decide +kernel
  · rw [hscores.f1_eq, hlabels]
    decide +kernel
  · exact hperm ["c", "b"] ["c", "a"] rfl (List.Perm.swap _ _ _)

end Confusion
end PursuitForest
