import PursuitForest.Dataset.Grouped
import PursuitForest.Linear.Eigen
/-!
Exact scalars.

Rational numbers, and one value for what is not a number: it comes of divisions by zero and of
square roots of negative numbers, passes through every operation, and compares with nothing. Roots
are rounded down, in the numerator and in the denominator. Unlike rounded arithmetic, this can be
run inside proofs.
-/

namespace PursuitForest

/-- A rational number, or none. -/
inductive Exact where
  | number (value : Rat)
  | undefined
deriving DecidableEq

namespace Exact

/-- An operation on numbers. -/
def lift (f : Rat → Rat → Exact) : Exact → Exact → Exact
  | .number a, .number b => f a b
  | _, _ => .undefined

/-- A comparison of numbers. -/
def compares (r : Rat → Rat → Bool) : Exact → Exact → Bool
  | .number a, .number b => r a b
  | _, _ => false

/-- The largest number up to `n` whose square is at most `n`, from the given number of bits down. -/
def rootFrom (n : Nat) : (bits root : Nat) → Nat
  | 0, root => root
  | k + 1, root =>
    let next := root + 2 ^ k
    rootFrom n k (if next * next ≤ n then next else root)

/-- The root of a natural number, rounded down. -/
def natRoot (n : Nat) : Nat := rootFrom n (n.log2 / 2 + 1) 0

/-- The root of a number that is not negative. -/
def root : Exact → Exact
  | .number a => if a < 0 then .undefined else .number (natRoot a.num.toNat / natRoot a.den)
  | .undefined => .undefined

/-- The number without its sign. -/
def magnitude : Exact → Exact
  | .number a => .number (if a < 0 then -a else a)
  | .undefined => .undefined

instance : Scalar Exact where
  zero := .number 0
  one := .number 1
  add := lift fun a b => .number (a + b)
  sub := lift fun a b => .number (a - b)
  mul := lift fun a b => .number (a * b)
  div := lift fun a b => if b = 0 then .undefined else .number (a / b)
  neg
    | .number a => .number (-a)
    | .undefined => .undefined
  lt a b := compares (fun a b => a < b) a b
  le a b := compares (fun a b => a ≤ b) a b
  beq := compares fun a b => a = b
  decLt a b := inferInstanceAs (Decidable (compares (fun a b => a < b) a b = true))
  decLe a b := inferInstanceAs (Decidable (compares (fun a b => a ≤ b) a b = true))
  ofNat n := .number n
  mulAdd a b c := lift (fun p c => .number (p + c)) (lift (fun a b => .number (a * b)) a b) c
  abs := magnitude
  sqrt := root
  epsilon := .number (1 / 4503599627370496)
  cutoff := .number (1 / 1000000000000000)
  tolerance := .number (1 / 100000)

instance : Eigensolver Exact := ⟨Square.eigenpairs⟩

/-- Three classes of three rows each, which either column separates. -/
def threeClasses : GroupedDataset Exact Nat :=
  let row (a b : Rat) (label : Nat) : Observation Exact Nat := ⟨[.number a, .number b], label⟩
  .ofDataset {
    width := 2
    rows := [row 1 20 0, row 2 22 0, row 4 21 0, row 31 3 1, row 33 1 1, row 34 5 1, row 62 60 2,
      row 66 63 2, row 67 64 2]
    classes := .ofList [0, 1, 2]
    shaped := by decide
    covered := by decide }

end Exact

end PursuitForest
