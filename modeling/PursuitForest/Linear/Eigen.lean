import PursuitForest.Linear.Tridiagonal
/-!
Eigenvalues and eigenvectors of symmetric matrices.

`Eigensolver` is what the search for a projector asks of a solver. The solver given here takes the
tridiagonal form and turns pairs of neighbouring axes, sweep by sweep, until no two places are
coupled. Every sweep starts from an estimate of an eigenvalue of the block it works on, so the last
coupling of the block vanishes quickly.

Entries that are not numbers never count as coupled: the solver then answers with the diagonal that
the tridiagonal form has.
-/

namespace PursuitForest

/-- Eigenvalues, and eigenvectors in the columns of a matrix in the same order. -/
structure Eigenpairs (F : Type) (n : Nat) where
  values : Vec F n
  vectors : Square F n

/-- A way to find the eigenpairs of symmetric matrices. -/
class Eigensolver (F : Type) where
  eigenpairs : {n : Nat} → Square F n → Eigenpairs F n

namespace Tridiagonal

variable {F : Type} [Scalar F] {n : Nat}

/-! ### Blocks -/

/-- What the coupling of places `i` and `i + 1` is measured against. -/
def couplingScale (t : Tridiagonal F n) (i : Nat) : F :=
  Scalar.epsilon * (Scalar.abs (t.diagonal.entry i) + Scalar.abs (t.diagonal.entry (i + 1)))

/-- Whether the places `i` and `i + 1` are coupled for certain. -/
def isCoupled (t : Tridiagonal F n) (i : Nat) : Bool :=
  decide (t.couplingScale i < Scalar.abs (t.beside.entry i))

/-- Whether the places `i` and `i + 1` are free of each other for certain. -/
def isFree (t : Tridiagonal F n) (i : Nat) : Bool :=
  t.beside.entry i == 0 || decide (Scalar.abs (t.beside.entry i) ≤ t.couplingScale i)

/-- The last place up to `last` that is coupled to the place before it, or zero. -/
def blockEnd (t : Tridiagonal F n) : (last : Nat) → Nat
  | 0 => 0
  | i + 1 => if t.isCoupled i then i + 1 else t.blockEnd i

/-- The last place up to `last` that is free of the place before it, or zero. -/
def blockStart (t : Tridiagonal F n) : (last : Nat) → Nat
  | 0 => 0
  | i + 1 => if t.isFree i then i + 1 else t.blockStart i

/-- The matrix without the coupling of `place` to the place before it. -/
def cutBefore (t : Tridiagonal F n) : (place : Nat) → Tridiagonal F n
  | 0 => t
  | i + 1 => { t with beside := t.beside.setIfInBounds i 0 }

/-! ### Turning axes -/

/-- Columns `i` and `i + 1` turned by the angle with cosine `c` and sine `s`. -/
def turnColumns (a : Square F n) (i : Nat) (c s : F) : Square F n :=
  ⟨a.rows.map fun r =>
    let x := Vec.entry r i
    let y := Vec.entry r (i + 1)
    (r.setIfInBounds i (c * x - s * y)).setIfInBounds (i + 1) (s * x + c * y)⟩

/-- The matrix with axes `i` and `i + 1` turned by the angle with cosine `c` and sine `s`. -/
def turn (t : Tridiagonal F n) (i : Nat) (c s : F) : Tridiagonal F n :=
  let p := t.diagonal.entry i
  let q := t.diagonal.entry (i + 1)
  let o := t.beside.entry i
  let cc := c * c
  let ss := s * s
  let cs := c * s
  let b := cs * Scalar.two * o
  ⟨(t.diagonal.setIfInBounds i (cc * p + ss * q - b)).setIfInBounds (i + 1) (ss * p + cc * q + b),
    t.beside.setIfInBounds i (cs * (p - q) + o * (cc - ss)), turnColumns t.axes i c s⟩

/-- Turns axes `i` and `i + 1`, for `i` from `stop - steps` to `stop - 1`. Every turn takes `(x, y)`
onto the first of its axes, and leaves an entry outside the form that the next turn takes up. -/
def chase (start stop : Nat) : (steps : Nat) → (x y : F) → Tridiagonal F n → Tridiagonal F n
  | 0, _, _, t => t
  | k + 1, x, y, t =>
    if y == 0 then t
    else
      let i := stop - (k + 1)
      let length := Scalar.sqrt (x * x + y * y)
      let c := Scalar.abs x / length
      let s := -withSign y x / length
      let t := if start < i then
        { t with beside := t.beside.setIfInBounds (i - 1) (withSign length x) } else t
      let t := t.turn i c s
      if k = 0 then t
      else
        let o := t.beside.entry (i + 1)
        chase start stop k (t.beside.entry i) (-s * o)
          { t with beside := t.beside.setIfInBounds (i + 1) (c * o) }

/-- The eigenvalue of the last two places of a block that is nearer to the last entry. -/
def estimate (t : Tridiagonal F n) (stop : Nat) : F :=
  let p := t.diagonal.entry (stop - 1)
  let q := t.diagonal.entry stop
  let o := t.beside.entry (stop - 1)
  let oo := o * o
  if oo == 0 then q
  else
    let d := (p - q) * Scalar.half
    q - oo / (d + withSign (Scalar.sqrt (d * d + oo)) d)

/-- One sweep over the block from `start` to `stop`. -/
def sweep (t : Tridiagonal F n) (start stop : Nat) : Tridiagonal F n :=
  chase start stop (stop - start) (t.diagonal.entry start - t.estimate stop) (t.beside.entry start) t

/-- The block of `i` and `i + 1` solved. -/
def solvePair (t : Tridiagonal F n) (i : Nat) : Tridiagonal F n :=
  let p := t.diagonal.entry i
  let q := t.diagonal.entry (i + 1)
  let o := t.beside.entry i
  let d := (p - q) * Scalar.half
  let root := Scalar.sqrt (o * o + d * d)
  let middle := (p + q) * Scalar.half
  let x := middle + root - q
  let length := Scalar.sqrt (x * x + o * o)
  { t with
    diagonal := (t.diagonal.setIfInBounds i (middle + root)).setIfInBounds (i + 1) (middle - root)
    axes := if Scalar.epsilon < length then
        turnColumns t.axes i (Scalar.abs x / length) (-withSign o x / length)
      else t.axes }

/-! ### Solving -/

/-- Works on the last block up to `last` until there is none, at most `steps` times. -/
def solve : (steps : Nat) → (last : Nat) → Tridiagonal F n → Tridiagonal F n
  | 0, _, t => t
  | k + 1, last, t =>
    let stop := t.blockEnd last
    if stop = 0 then t
    else
      let start := t.blockStart (stop - 1)
      let t := t.cutBefore start
      if start + 1 = stop then solve k start (t.solvePair start)
      else
        let t := t.sweep start stop
        solve k (if t.isFree (stop - 1) then stop - 1 else stop) t

end Tridiagonal

/-- Largest magnitude of an entry; entries that are not numbers are ignored. -/
def Square.largestEntry {F : Type} [Scalar F] {n : Nat} (a : Square F n) : F :=
  a.rows.toList.foldl (fun m r => r.toList.foldl (fun m x => Scalar.larger m (Scalar.abs x)) m) 0

/-- Eigenpairs of a symmetric matrix, which is solved with entries of magnitude one at most. A
hundred steps a place are far more than rounded arithmetic needs. -/
def Square.eigenpairs {F : Type} [Scalar F] {n : Nat} (a : Square F n) : Eigenpairs F n :=
  let largest := a.largestEntry
  let scaled := if largest == 0 then a else Square.ofFn fun i j => a.get i j / largest
  let t := Tridiagonal.solve (100 * n) (n - 1) (Tridiagonal.ofSquare scaled)
  ⟨t.diagonal.map (· * largest), t.axes⟩

instance : Eigensolver Float := ⟨Square.eigenpairs⟩
instance : Eigensolver Float32 := ⟨Square.eigenpairs⟩

end PursuitForest
