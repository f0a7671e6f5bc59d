import PursuitForest.Numeral.Fused
/-!
Scalars: the numbers features, projectors and thresholds are made of.

A `Scalar` only names operations. No law is assumed of them, so what is proved for every scalar
holds of rounded arithmetic, and comparisons that fail on both sides (as with a value that is not
a number) are allowed.

Sums start at zero and run from the left, one term after the other (`sum`) or in eight interleaved
lanes (`laneSum`). Sums of products may also round each product together with the sum it goes into
(`fusedDot`). Rounded sums may differ between the three, exact ones do not.
-/

namespace PursuitForest

/-- A number type with the operations that growing, routing and scoring need. -/
class Scalar (F : Type) extends Zero F, One F, Add F, Sub F, Mul F, Div F, Neg F, LT F, LE F,
    BEq F where
  /-- Strict comparison can be run. -/
  decLt : DecidableLT F
  /-- Weak comparison can be run. -/
  decLe : DecidableLE F
  /-- The scalar nearest to a count. -/
  ofNat : Nat → F
  /-- `a * b + c`, rounded once. -/
  mulAdd (a b c : F) : F
  abs : F → F
  sqrt : F → F
  /-- Relative size of a rounding error. -/
  epsilon : F
  /-- Projector coefficients of smaller magnitude are written as zero. -/
  cutoff : F
  /-- How far thresholds, and cosines from one, may differ in trees that count as equal. -/
  tolerance : F

namespace Scalar

variable {F : Type} [Scalar F]

instance : DecidableLT F := decLt
instance : DecidableLE F := decLe

/-- The larger of two scalars; an operand that differs from itself is ignored. -/
def larger (a b : F) : F := if a < b then b else if a == a then a else b

/-- The smaller of two scalars; an operand that differs from itself is ignored. -/
def smaller (a b : F) : F := if b < a then b else if a == a then a else b

/-- Two. -/
def two : F := 1 + 1

/-- One half. -/
def half : F := 1 / two

/-- Sum from the left. -/
def sum (xs : List F) : F := xs.foldl (· + ·) 0

/-- Adds whole runs of eight terms to eight lanes; answers with the lanes and the terms left. -/
def addRuns : (runs : Nat) → (lanes xs : List F) → List F × List F
  | 0, lanes, xs => (lanes, xs)
  | k + 1, lanes, xs => addRuns k (List.zipWith (· + ·) lanes (xs.take 8)) (xs.drop 8)

/-- Sum in eight lanes. Lanes four apart are added, then these four sums from the left, and last the
terms that fill no run. -/
def laneSum (xs : List F) : F :=
  let (lanes, rest) := addRuns (xs.length / 8) (List.replicate 8 0) xs
  sum (List.zipWith (· + ·) (lanes.take 4) (lanes.drop 4) ++ rest)

/-- Inner product of two vectors; what one has more than the other is left out. -/
def dot (xs ys : List F) : F := laneSum (List.zipWith (· * ·) xs ys)

/-- Sum of products, each rounded together with the sum so far. -/
def fusedSum (xs ys : List F) : F := (xs.zip ys).foldl (fun s (x, y) => mulAdd x y s) 0

/-- The fused sums of runs of 256 products. -/
def fusedRuns : (runs : Nat) → (xs ys : List F) → List F
  | 0, _, _ => []
  | k + 1, xs, ys =>
    fusedSum (xs.take 256) (ys.take 256) :: fusedRuns k (xs.drop 256) (ys.drop 256)

/-- Inner product of two vectors by fused sums; what one has more than the other is left out. -/
def fusedDot (xs ys : List F) : F := sum (fusedRuns ((min xs.length ys.length + 255) / 256) xs ys)

/-- Arithmetic mean. -/
def mean (xs : List F) : F := sum xs / ofNat xs.length

/-- Arithmetic mean, from the sum in lanes. -/
def laneMean (xs : List F) : F := laneSum xs / ofNat xs.length

end Scalar

/-- Rates, which are shares of counts, are computed in `R` and rounded when they meet scalars
`F`. -/
class Rated (F : Type) (R : outParam Type) where
  ofRate : R → F

/-- Double precision. -/
instance : Scalar Float where
  zero := 0
  one := 1
  decLt := inferInstance
  decLe := inferInstance
  ofNat := Float.ofNat
  mulAdd := Fused.double
  abs := Float.abs
  sqrt := Float.sqrt
  epsilon := Float.ofScientific 2220446049250313 true 31
  cutoff := 1e-15
  tolerance := 1e-5

/-- Single precision. -/
instance : Scalar Float32 where
  zero := 0
  one := 1
  decLt := inferInstance
  decLe := inferInstance
  ofNat := Float32.ofNat
  mulAdd := Fused.single
  abs := Float32.abs
  sqrt := Float32.sqrt
  epsilon := Float32.ofScientific 11920928955078125 true 23
  cutoff := (1e-15 : Float).toFloat32
  tolerance := (1e-5 : Float).toFloat32

instance : Rated Float Float := ⟨id⟩
instance : Rated Float32 Float := ⟨Float.toFloat32⟩

end PursuitForest
