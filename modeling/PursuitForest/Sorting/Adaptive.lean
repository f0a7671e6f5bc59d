import PursuitForest.Sorting.Runs
/-!
Sorting of lists of any length.

Up to twenty entries are sorted by insertion, up to two short lists by sorted runs, and longer lists
by runs that are divided at pivots where nothing is sorted yet.
-/

namespace PursuitForest
namespace SortOrder

variable {α : Type} (o : SortOrder α)

/-! ### Pivots -/

/-- Which of three places holds the middle one of three entries. -/
def medianOfThree (xs : Array α) (a b c : Nat) : Nat :=
  let less (i j : Nat) : Bool :=
    match xs[i]?, xs[j]? with
    | some x, some y => o.less x y
    | _, _ => false
  if less a b == less a c then
    if less b c != less a b then c else b
  else a

/-- Which place near `a`, `b` or `c` holds a middle entry, where `n` entries are near each. -/
def median (xs : Array α) (n a b c : Nat) : Nat :=
  if h : 64 ≤ n * 8 then
    have : n / 8 < n := by omega
    let near (i : Nat) := median xs (n / 8) i (i + n / 8 * 4) (i + n / 8 * 7)
    o.medianOfThree xs (near a) (near b) (near c)
  else o.medianOfThree xs a b c
termination_by n

/-- The place of the pivot of a list. -/
def pivotPlace (xs : List α) : Nat :=
  let n := xs.length / 8
  if xs.length < 64 then o.medianOfThree xs.toArray 0 (n * 4) (n * 7)
  else o.median xs.toArray n 0 (n * 4) (n * 7)

/-- The entries but the one at `place`, divided by `goesLeft`, with that one put on a side. -/
def divide (xs : List α) (place : Nat) (pivot : α) (pivotLeft : Bool) (goesLeft : α → Bool) :
    List α × List α :=
  let before := xs.take place
  let after := xs.drop (place + 1)
  let side (left : Bool) :=
    before.filter (goesLeft · == left) ++ (if pivotLeft == left then [pivot] else []) ++
      after.filter (goesLeft · == left)
  (side true, side false)

/-! ### Sorting -/

/-- Sorts by dividing at pivots, at most `limit` times one after the other, and by sorted runs from
then on. `above` is the pivot that the list was put to the right of: what equals it is in place. -/
def byPivots : (limit : Nat) → (above : Option α) → List α → List α
  | limit, above, xs =>
    if xs.length ≤ shortLength then o.short xs
    else
      match limit with
      | 0 => o.byRuns true id xs
      | limit + 1 =>
        let place := o.pivotPlace xs
        match xs[place]? with
        | none => xs
        | some pivot =>
          let repeated := above.any fun a => !o.less a pivot
          let (left, right) := divide xs place pivot false fun x => o.less x pivot
          if repeated || left.isEmpty then
            let (equal, rest) := divide xs place pivot true fun x => !o.less pivot x
            equal ++ byPivots limit none rest
          else byPivots limit above left ++ byPivots limit (some pivot) right

/-- Sorts a list. -/
def sort (xs : List α) : List α :=
  let n := xs.length
  if n ≤ 20 then o.insertion xs
  else o.byRuns (decide (n ≤ 2 * shortLength)) (fun ys => o.byPivots (2 * ys.length.log2) none ys) xs

end SortOrder
end PursuitForest
