import PursuitForest.Sorting.Small
/-!
Sorting by runs.

A list is cut into runs, and neighbouring runs are merged in the order in which the midpoints of the
cuts are nested, so that short runs meet short runs. Merging two runs that are not sorted is put
off.
-/

namespace PursuitForest

/-- Neighbouring entries of a list, in order or not. -/
structure Run (α : Type) where
  entries : List α
  sorted : Bool

namespace SortOrder

variable {α : Type} (o : SortOrder α)

/-! ### Cutting -/

/-- How many entries of a list follow each other by a relation, from `a` on. -/
def following (r : α → α → Bool) (a : α) : List α → Nat
  | [] => 0
  | b :: bs => if r a b then following r b bs + 1 else 0

/-- The longest front of a list that runs down or does not, turned upwards, and the rest. -/
def naturalRun : List α → List α × List α
  | a :: b :: xs =>
    if o.less b a then
      let n := following (fun x y => o.less y x) b xs
      ((a :: b :: xs.take n).reverse, xs.drop n)
    else
      let n := following (fun x y => !o.less y x) b xs
      (a :: b :: xs.take n, xs.drop n)
  | xs => (xs, [])

/-- The first run of a list and the rest. A natural run is taken if it has `enough` entries; other
runs are sorted at once if they are `eager`. -/
def firstRun (eager : Bool) (enough : Nat) (xs : List α) : Run α × List α :=
  let natural := o.naturalRun xs
  if enough ≤ natural.1.length then (⟨natural.1, true⟩, natural.2)
  else if eager then
    (⟨o.short (xs.take shortLength), true⟩, xs.drop shortLength)
  else (⟨xs.take enough, false⟩, xs.drop enough)

/-- The runs of a list of at most `length` entries. -/
def runs (eager : Bool) (enough : Nat) : (length : Nat) → List α → List (Run α)
  | _, [] => []
  | 0, _ => []
  | k + 1, xs =>
    let (run, rest) := o.firstRun eager enough xs
    run :: runs eager enough k rest

/-- How many entries make a natural run in a list of `n` worth keeping. -/
def enoughFor (n : Nat) : Nat :=
  if n ≤ 4096 then min (n - n / 2) 64
  else
    let shift := (1 + n.log2) / 2
    (1 <<< shift + n >>> shift) / 2

/-! ### Merging -/

/-- Merges two sorted lists, from the end that the shorter one is at. -/
def merge (left right : List α) : List α :=
  if left.length ≤ right.length then left.merge right fun x y => !o.less y x
  else (right.reverse.merge left.reverse fun y x => !o.less y x).reverse

/-- A run for two neighbouring ones. If one of them is sorted, the other is sorted by `finish` and
they are merged. -/
def join (finish : List α → List α) (left right : Run α) : Run α :=
  if left.sorted || right.sorted then
    let settle (r : Run α) := if r.sorted then r.entries else finish r.entries
    ⟨o.merge (settle left) (settle right), true⟩
  else ⟨left.entries ++ right.entries, false⟩

/-- How deep the cut at `mid` is nested in a list of `n`, between the cuts at `left` and `right`: how
many leading bits of 64 the scaled midpoints of both sides share. -/
def depth (n left mid right : Nat) : Nat :=
  let scale := (1 <<< 62 + n - 1) / n
  let differing := (scale * (left + mid)) ^^^ (scale * (mid + right))
  if differing = 0 then 64 else 63 - differing.log2

/-- Joins the last run with the runs before it as long as these are cut at least as deep. -/
def joinDeeper (finish : List α → List α) (cut : Nat) (last : Run α) :
    List (Run α × Nat) → Run α × List (Run α × Nat)
  | [] => (last, [])
  | (run, depth) :: rest =>
    if cut ≤ depth then joinDeeper finish cut (o.join finish run last) rest
    else (last, (run, depth) :: rest)

/-- Joins runs from the left: `stack` holds runs that wait, the latest first and each with the depth
of the cut behind it, and `last` begins at `start`. -/
def joinRuns (finish : List α → List α) (n : Nat) : (stack : List (Run α × Nat)) → (last : Run α) →
    (start : Nat) → List (Run α) → Run α
  | stack, last, _, [] => (o.joinDeeper finish 0 last stack).1
  | stack, last, start, next :: runs =>
    let mid := start + last.entries.length
    let cut := depth n start mid (mid + next.entries.length)
    let (joined, stack) := o.joinDeeper finish cut last stack
    joinRuns finish n ((joined, cut) :: stack) next mid runs

/-- Sorts by runs. What is not sorted in the end is sorted by `finish`. -/
def byRuns (eager : Bool) (finish : List α → List α) (xs : List α) : List α :=
  let n := xs.length
  match o.runs eager (enoughFor n) n xs with
  | [] => []
  | first :: rest =>
    let run := o.joinRuns finish n [] first 0 rest
    if run.sorted then run.entries else finish run.entries

end SortOrder

end PursuitForest
