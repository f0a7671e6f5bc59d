/-!
Sorting of short lists.

Lists are sorted by a comparison that need not be an order: values that are not numbers compare with
nothing. Where the comparison is an order, there is one stable result, and `SortOrder.insertion`
finds it. Otherwise the result depends on which entries are compared, and a merge from both ends
(`SortOrder.mergeEnds`) may even take an entry twice and another one never.
-/

namespace PursuitForest

/-- How entries compare, and how many of them are brought in order at once at the front of a list. -/
structure SortOrder (α : Type) where
  less : α → α → Bool
  lead : Nat

namespace SortOrder

variable {α : Type} (o : SortOrder α)

/-! ### Insertion -/

/-- `a` put into a list that is sorted from the last entry to the first, behind all entries that it
precedes. -/
def insert (a : α) : List α → List α
  | [] => [a]
  | b :: bs => if o.less a b then b :: insert a bs else a :: b :: bs

/-- The entries of `rest` inserted into a sorted list one after the other. -/
def insertAll (sorted rest : List α) : List α :=
  (rest.foldl (fun s a => o.insert a s) sorted.reverse).reverse

/-- Sorts by insertion. -/
def insertion (xs : List α) : List α := o.insertAll [] xs

/-! ### Merging -/

/-- The first `k` entries of a merge that takes from the left where `fromLeft` says so, and what is
left of both sides. -/
def mergeSteps (fromLeft : α → α → Bool) : (k : Nat) → (left right : List α) →
    List α × List α × List α
  | k + 1, x :: xs, y :: ys =>
    if fromLeft x y then
      let (taken, rest) := mergeSteps fromLeft k xs (y :: ys)
      (x :: taken, rest)
    else
      let (taken, rest) := mergeSteps fromLeft k (x :: xs) ys
      (y :: taken, rest)
  | _, xs, ys => ([], xs, ys)

/-- Merges two sorted lists, of which the second may be longer by one, from the front and from the
back at once. An entry in the middle comes from the side that has one left. -/
def mergeEnds (left right : List α) : List α :=
  let k := left.length
  let (front, leftBehind, rightBehind) := mergeSteps (fun x y => !o.less y x) k left right
  let (back, leftAhead, _) := mergeSteps (fun x y => o.less y x) k left.reverse right.reverse
  let middle :=
    if right.length = k then []
    else if k < leftBehind.length + leftAhead.length then leftBehind.take 1
    else rightBehind.take 1
  front ++ middle ++ back.reverse

/-! ### Short lists -/

/-- Four entries in order, by five comparisons. -/
def four (a b c d : α) : List α :=
  let (a, b) := if o.less b a then (b, a) else (a, b)
  let (c, d) := if o.less d c then (d, c) else (c, d)
  let lowRight := o.less c a
  let highLeft := o.less d b
  let low := if lowRight then c else a
  let high := if highLeft then b else d
  let x := if lowRight then a else if highLeft then c else b
  let y := if highLeft then d else if lowRight then b else c
  if o.less y x then [low, y, x, high] else [low, x, y, high]

/-- The first entries of a list in order: eight, four, or a single one. -/
def front : List α → List α
  | [a, b, c, d] => o.four a b c d
  | [a, b, c, d, e, f, g, h] => o.mergeEnds (o.four a b c d) (o.four e f g h)
  | xs => xs

/-- Brings the first `lead` entries in order and inserts the others. -/
def half (lead : Nat) (xs : List α) : List α :=
  o.insertAll (o.front (xs.take lead)) (xs.drop lead)

/-- Sorts both halves of a list and merges them. -/
def short (xs : List α) : List α :=
  let n := xs.length
  if n < 2 then xs
  else
    let lead := if 16 ≤ n then o.lead else if 8 ≤ n then 4 else 1
    o.mergeEnds (o.half lead (xs.take (n / 2))) (o.half lead (xs.drop (n / 2)))

/-- Longest list that is sorted by halves. -/
def shortLength : Nat := 32

end SortOrder

end PursuitForest
