import PursuitForest.Dataset.Scaling
import PursuitForest.Forest.Member
import PursuitForest.Forest.Seed
/-!
Importance of features by what a tree loses without them.

The out-of-bag rows are predicted again with the values of one column in random order; the loss of
accuracy is the importance of the column. The order of one column is shuffled further for the next.
-/

namespace PursuitForest

variable {F L G : Type}

/-- A table in which column `j` takes its values from other rows. -/
def FeatureTable.reorderColumn (x : FeatureTable F) (j : Nat) (order : List Nat) :
    Except (Error F L) (FeatureTable F) :=
  if x.width ≤ j then .error (.misuse .columnOutOfBounds)
  else
    let column := (x.column j).toArray
    .ok {
      width := x.width
      rows := List.zipWith (fun r i => match column[i]? with
        | some v => r.set j v
        | none => r) x.rows order
      shaped := fun r hr => by
        obtain ⟨i, hi, rfl⟩ := List.mem_iff_getElem.1 hr
        rw [List.getElem_zipWith]
        split
        · rw [List.length_set]; exact x.shaped _ (List.getElem_mem _)
        · exact x.shaped _ (List.getElem_mem _) }

variable [Scalar F] [Label L] [RandomSource G] {R : Type} [Scalar R] [Rated F R]

omit [RandomSource G] [Rated F R] in
/-- Accuracy of a tree on labelled rows. -/
def accuracyOn (t : Tree F L) (x : FeatureTable F) (y : List L) : Except (Error F L) R := do
  return (← Confusion.tally (← t.predict x) y).accuracy

/-- Loss of accuracy for each of the columns, with the order that the column before left. -/
def columnLosses (t : Tree F L) (x : FeatureTable F) (y : List L) (baseline : R) :
    (columns : List Nat) → (order : List Nat) → G → Except (Error F L) (List F)
  | [], _, _ => .ok []
  | j :: js, order, g => do
    let (order, g) := shuffle order g
    let accuracy ← accuracyOn t (← x.reorderColumn j order) y
    let losses ← columnLosses t x y baseline js order g
    return Rated.ofRate (baseline - accuracy) :: losses

/-- Importance of every feature by the loss of out-of-bag accuracy. -/
def permutationImportance (G : Type) [RandomSource G] (seed : UInt64) (m : Member F L)
    (scale : ColumnScale F) : Except (Error F L) (List F) := do
  m.tree.checkWidth scale.deviation.length
  let rows ← m.outOfBag
  if rows.isEmpty then return List.replicate scale.deviation.length 0
  let x := rows.features
  let baseline : R ← accuracyOn m.tree x rows.labels
  columnLosses m.tree x rows.labels baseline (List.range scale.deviation.length)
    (List.range rows.size) (RandomSource.ofSeed (mix (seed ^^^ m.seed)) : G)

end PursuitForest
