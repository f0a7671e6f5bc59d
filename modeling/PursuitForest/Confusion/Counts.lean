import PursuitForest.Count
import PursuitForest.Error
import PursuitForest.Label
import PursuitForest.Scalar
/-!
Confusion matrices.

Rows stand for actual and columns for predicted classes, both in ascending order over all labels
that occur on either side. The scores are derived from the counts: the error rate, and for every
class the precision, the sensitivity and their harmonic mean.
-/

namespace PursuitForest

/-- Counts of the pairs of actual and predicted labels. -/
structure Confusion (L : Type) [Label L] where
  labels : LabelSet L
  counts : List (List Nat)

namespace Confusion

variable {L : Type} [Label L]

/-- The place of a label. -/
def place (labels : LabelSet L) (label : L) : Nat := labels.toList.idxOf label

omit [Label L] in
/-- One more in row `i` and column `j`. -/
def bump (counts : List (List Nat)) (i j : Nat) : List (List Nat) :=
  counts.modify i fun row => row.modify j (· + 1)

/-- Tallies predicted against actual labels, of which there must be equally many. -/
def tally {F : Type} (predicted actual : List L) : Except (Error F L) (Confusion L) :=
  if predicted.length ≠ actual.length then
    .error (.shapeMismatch .predictions actual.length predicted.length)
  else
    let labels := LabelSet.ofList (predicted ++ actual)
    let zeros := List.replicate labels.size (List.replicate labels.size 0)
    .ok ⟨labels, (predicted.zip actual).foldl
      (fun counts (p, a) => bump counts (place labels a) (place labels p)) zeros⟩

/-- The label of every row and column with its place. -/
def index (m : Confusion L) : List (L × Nat) := m.labels.toList.zipIdx

/-- Number of tallied pairs. -/
def total (m : Confusion L) : Nat := totalCount (m.counts.map totalCount)

/-- Number of pairs of equal labels, by class. -/
def diagonal (m : Confusion L) : List Nat :=
  m.counts.zipIdx.map fun (row, i) => row.getD i 0

/-- Number of pairs by actual class. -/
def actualCounts (m : Confusion L) : List Nat := m.counts.map totalCount

/-- Number of pairs by predicted class. -/
def predictedCounts (m : Confusion L) : List Nat :=
  (List.range m.labels.size).map fun j => totalCount (m.counts.map (·.getD j 0))

/-! ### Scores -/

section
variable {R : Type} [Scalar R]

/-- Share of wrong predictions, zero if there are none at all. -/
def error (m : Confusion L) : R :=
  if m.total = 0 then 0 else 1 - Scalar.ofNat (totalCount m.diagonal) / Scalar.ofNat m.total

/-- Share of right predictions, one if there are none at all. -/
def accuracy (m : Confusion L) : R := 1 - m.error

omit [Label L] in
/-- Shares, zero where there is nothing to share. -/
def shares (parts wholes : List Nat) : List R :=
  List.zipWith (fun n d => if d = 0 then 0 else Scalar.ofNat n / Scalar.ofNat d) parts wholes

/-- Share of right ones among the predictions of every class. -/
def precision (m : Confusion L) : List R := shares m.diagonal m.predictedCounts

/-- Share of every class that is predicted as such. -/
def sensitivity (m : Confusion L) : List R := shares m.diagonal m.actualCounts

/-- Harmonic mean of precision and sensitivity of every class. -/
def f1 (m : Confusion L) : List R :=
  List.zipWith (fun (p r : R) => if 0 < p + r then Scalar.two * p * r / (p + r) else 0)
    m.precision m.sensitivity

end

end Confusion

end PursuitForest
