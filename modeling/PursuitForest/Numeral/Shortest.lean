import PursuitForest.Numeral.Binary
/-!
The fewest decimal digits that read back.

Every number of a format is the nearest one to an interval of reals, to whose ends it belongs when
its significand is even. For one digit, two digits, and so on, the two neighbours of the number on
the decimal grid are tried; the first grid with a neighbour in the interval gives the digits, and of
two neighbours the nearer one, or the even one if both are equally near.
-/

namespace PursuitForest

/-- Digits of a positive whole number, most significant first. -/
def decimalDigits (n : Nat) : List Nat := (Nat.toDigits 10 n).map fun c => c.toNat - '0'.toNat

/-- Ten to the power `k`. -/
def tens (k : Nat) : Nat := Nat.pow 10 k

/-- A decimal with its last digit at the power `exponent` of ten. -/
structure Decimal where
  digits : Nat
  exponent : Int
deriving DecidableEq

namespace Decimal

/-- Digits, most significant first and without zeros at the end, and the power of ten of the
first. -/
def scientific (d : Decimal) : List Nat × Int :=
  let ds := decimalDigits d.digits
  ((ds.reverse.dropWhile (· == 0)).reverse, d.exponent + ds.length - 1)

end Decimal

/-- An interval of fractions with denominator `den`, around `center`. -/
structure RoundingInterval where
  low : Nat
  center : Nat
  high : Nat
  den : Nat
  closed : Bool

namespace RoundingInterval

/-- The fractions that round to `m * 2 ^ q`. Below a power of two the neighbour is twice as near. -/
def of (f : BinaryFormat) (m : Nat) (q : Int) : RoundingInterval :=
  let scale := (q - 2).toNat
  let below := if m = f.leadingBit ∧ f.minExponent < q then 1 else 2
  ⟨(4 * m - below) <<< scale, (4 * m) <<< scale, (4 * m + 2) <<< scale, 1 <<< (2 - q).toNat,
    m % 2 == 0⟩

/-- Whether `x * 10 ^ t` lies in the interval. -/
def contains (r : RoundingInterval) (x : Nat) (t : Int) : Bool :=
  let x := x * tens t.toNat * r.den
  let s := tens (-t).toNat
  if r.closed then decide (r.low * s ≤ x ∧ x ≤ r.high * s)
  else decide (r.low * s < x ∧ x < r.high * s)

/-- Greatest `e` with `10 ^ e` at most the center, for a positive center. -/
def decade (r : RoundingInterval) : Int :=
  if r.den ≤ r.center then (decimalDigits (r.center / r.den)).length - 1
  else
    let c := (r.den + r.center - 1) / r.center
    let k := (decimalDigits c).length
    if tens (k - 1) = c then 1 - k else -k

/-- The grid point of spacing `10 ^ t` in the interval that is nearest to the center. -/
def nearest? (r : RoundingInterval) (t : Int) : Option Decimal :=
  let num := r.center * tens (-t).toNat
  let den := r.den * tens t.toNat
  let down := num / den
  match r.contains down t, r.contains (down + 1) t with
  | true, true =>
    let rest := 2 * (num % den)
    some ⟨if rest < den ∨ (rest = den ∧ down % 2 = 0) then down else down + 1, t⟩
  | true, false => some ⟨down, t⟩
  | false, true => some ⟨down + 1, t⟩
  | false, false => none

/-- The first hit on grids of spacing `10 ^ t`, `10 ^ (t - 1)`, …, at most `tries` of them. -/
def search (r : RoundingInterval) : (tries : Nat) → (t : Int) → Decimal
  | 0, t => ⟨r.center * tens (-t).toNat / (r.den * tens t.toNat), t⟩
  | k + 1, t => (r.nearest? t).getD (search r k (t - 1))

end RoundingInterval

/-- The shortest decimal that rounds to `m * 2 ^ q`, for a positive number of the format. -/
def shortest (f : BinaryFormat) (m : Nat) (q : Int) : Decimal :=
  let r := RoundingInterval.of f m q
  r.search f.precision r.decade

end PursuitForest
