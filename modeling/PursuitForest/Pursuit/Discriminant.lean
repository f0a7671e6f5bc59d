import PursuitForest.Linear.Eigen
import PursuitForest.Pursuit.Scatter
/-!
The separating projection of classes.

A `Discriminant` blends the scatter within classes with its own diagonal: with weight zero the full
scatter counts, with weight one only the spread of the single features. `index` measures how well
a projection separates the classes, from zero to one, and `optimize` finds the projection with the
largest index. Projectors are written in one form, so that neither the sign nor the length of an
eigenvector can be seen in them.
-/

namespace PursuitForest

variable {F L : Type} [Scalar F]

/-- Unit length, negligible coefficients zero, and the first other coefficient positive. -/
def canonicalize (projector : List F) : List F :=
  let norm := Scalar.sqrt (Scalar.dot projector projector)
  let scaled := projector.map fun c =>
    let c := c / norm
    if Scalar.abs c < Scalar.cutoff then 0 else c
  match scaled.find? fun c => !(c == 0) with
  | some first => if first < 0 then scaled.map (- ·) else scaled
  | none => scaled

/-- The vector of length `width` with the given values in the given columns and zeros elsewhere. -/
def widen (width : Nat) (columns : List Nat) (values : List F) : List F :=
  (List.range width).map fun j => ((columns.zip values).lookup j).getD 0

/-- The index of the value of largest magnitude, the first of several. -/
def leading {n : Nat} (values : Vec F n) : Option (Fin n) :=
  (List.finRange n).foldl (fun best i =>
    match best with
    | none => some i
    | some b =>
      if Scalar.abs (values.get b) < Scalar.abs (values.get i) then some i else some b) none

/-- The smallest of some scalars, sought from infinity down: there is none where no scalar equals
itself. -/
def least (values : List F) : Option F :=
  values.foldl (fun m v =>
    match m with
    | none => if v == v then some v else none
    | some m => some (Scalar.smaller m v)) none

/-- Leading eigenvector of `a⁻¹ b`, for symmetric `a` and `b`. With `r` the inverse square root of
`a`, the eigenvectors `u` of `r b r` give those of `a⁻¹ b` as `r u`, with the same eigenvalues. -/
def solveGeneralized [Eigensolver F] {n : Nat} (a b : Square F n) :
    Except (Error F L) (Vec F n) :=
  let e := Eigensolver.eigenpairs a
  let largest := e.values.toList.foldl (fun m v => Scalar.larger m (Scalar.abs v)) 0
  let smallest := least e.values.toList
  if largest ≤ 0 ∨ smallest.any (· ≤ Scalar.ofNat n * Scalar.epsilon * largest) then
    .error (.degenerate (.singularScatter smallest largest))
  else
    let inverseRoot := (e.vectors.mul (Square.diagonal
      (e.values.map fun v => 1 / Scalar.sqrt v))).mul e.vectors.transpose
    let product := (inverseRoot.mul b).mul inverseRoot
    -- symmetric up to rounding
    let reduced := Square.ofFn fun i j => (product.get i j + product.get j i) * Scalar.half
    let e' := Eigensolver.eigenpairs reduced
    match leading e'.values with
    | none => .error (.degenerate .inseparableClasses)
    | some k =>
      if Scalar.abs (e'.values.get k) ≤ Scalar.ofNat n * Scalar.epsilon then
        .error (.degenerate .inseparableClasses)
      else .ok (inverseRoot.apply (e'.vectors.column k))

/-- Columns whose values are not all equal to the first. -/
def varyingColumns [Label L] (d : GroupedDataset F L) : List Nat :=
  (List.range d.width).filter fun j =>
    match d.features.column j with
    | [] => false
    | x :: xs => (x :: xs).any fun y => !(y == x)

/-- A separability criterion, with the weight of the diagonal. -/
structure Discriminant (F : Type) where
  lambda : F

namespace Discriminant

/-- The scatter within classes blended with its diagonal. -/
def blend {n : Nat} (p : Discriminant F) (within : Square F n) : Square F n :=
  Square.ofFn fun i j =>
    let d := if i = j then within.get i j else 0
    d + (within.get i j - d) * (1 - p.lambda)

variable [Label L]

/-- The canonical projector of largest index. Columns that do not vary get the coefficient zero. -/
def optimize [Eigensolver F] (p : Discriminant F) (d : GroupedDataset F L) :
    Except (Error F L) (List F) := do
  let active := varyingColumns d
  if active.isEmpty then throw (.degenerate .constantFeatures)
  let scatter ← Scatter.ofDataset Scalar.laneMean (d.keepColumns active)
  let direction ← solveGeneralized ((p.blend scatter.within).add scatter.between) scatter.between
  return canonicalize (widen d.width active direction.toList)

/-- Separability of the classes along a projector: the share of the scatter that lies between the
classes, or zero where there is next to none. -/
def index (p : Discriminant F) (d : GroupedDataset F L) (projector : List F) :
    Except (Error F L) F := do
  if projector.length ≠ d.width then
    throw (.shapeMismatch .projectorWidth d.width projector.length)
  let scatter ← Scatter.ofDataset Scalar.mean d
  let v := Vec.ofRow d.width projector
  let numerator := (p.blend scatter.within).quadratic v
  let denominator := numerator + scatter.between.quadratic v
  if Scalar.abs denominator ≤ Scalar.epsilon then return 0
  return 1 - numerator / denominator

end Discriminant

end PursuitForest
