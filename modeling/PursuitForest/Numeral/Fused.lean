import PursuitForest.Numeral.Binary
/-!
A product and a sum rounded once.

`BinaryFormat.mulAddBits?` rounds the exact value. Doubles of moderate size get there faster: the
errors of a rounded product and of a rounded sum are doubles themselves, so the exact value is a sum
of few doubles. All but the last addition of these are rounded to odd, which cannot mislead the last.
-/

namespace PursuitForest

namespace BinaryFormat

/-- `n` or `-n`. -/
def withSign (negative : Bool) (n : Nat) : Int := if negative then -n else n

/-- Bits of the number nearest to `n * 2 ^ q`. -/
def roundScaled (f : BinaryFormat) (n q : Int) : Nat :=
  let bits := f.round (n.natAbs <<< q.toNat) (1 <<< (-q).toNat)
  if n < 0 then bits + 1 <<< (f.precision - 1 + f.exponentBits) else bits

/-- Bits of the number nearest to `a * b + c`, for finite bits of which the exact value is not
zero. -/
def mulAddBits? (f : BinaryFormat) (a b c : Nat) : Option Nat :=
  match f.decode a, f.decode b, f.decode c with
  | .finite negA mA qA, .finite negB mB qB, .finite negC mC qC =>
    let q := min (qA + qB) qC
    let n := withSign (negA != negB) ((mA * mB) <<< (qA + qB - q).toNat) +
      withSign negC (mC <<< (qC - q).toNat)
    if n = 0 then none else some (f.roundScaled n q)
  | _, _, _ => none

end BinaryFormat

namespace Fused

/-! ### Constants, computed once -/

/-- Zero. -/
def zero : Float := 0

/-- One more than half as many bits as a double has. -/
def splitter : Float := 134217729

/-- Largest magnitude of a moderate operand. -/
def largestOperand : Float := 1e150

/-- Least magnitude of a moderate product. -/
def leastProduct : Float := 1e-120

/-- Largest magnitude of a moderate product. -/
def largestProduct : Float := 1e120

/-! ### Errors -/

/-- What the rounded sum `s` of `a` and `b` lacks of the exact one. -/
def sumError (a b s : Float) : Float :=
  let b' := s - a
  (a - (s - b')) + (b - b')

/-- The leading half of the bits of a double. -/
def leadingHalf (a : Float) : Float :=
  let t := splitter * a
  t - (t - a)

/-- What the rounded product `p` of `a` and `b` lacks of the exact one. -/
def productError (a b p : Float) : Float :=
  let a₁ := leadingHalf a
  let a₂ := a - a₁
  let b₁ := leadingHalf b
  let b₂ := b - b₁
  (a₁ * b₁ - p) + a₁ * b₂ + a₂ * b₁ + a₂ * b₂

/-- Of the two doubles around `s + r` the one with an odd last bit, where `s` is the nearest one. An
exact sum is left as it is. -/
def toOdd (s r : Float) : Float :=
  if r == zero || s.toBits % 2 == 1 then s
  else if (zero < r) == (zero < s) then Float.ofBits (s.toBits + 1)
  else Float.ofBits (s.toBits - 1)

/-- Whether no step from `a`, `b` and `c`, where `p` is the product of the first two, can leave the
range in which errors of sums and products are doubles. -/
def isModerate (a b c p : Float) : Bool :=
  a.abs < largestOperand && b.abs < largestOperand && c.abs < largestOperand &&
    leastProduct < p.abs && p.abs < largestProduct

/-- The double nearest to `a * b + c`. -/
def double (a b c : Float) : Float :=
  let p := a * b
  if a == zero || b == zero then p + c
  else if isModerate a b c p then
    let e := productError a b p
    let t := c + e
    let v := p + t
    let x := sumError c e t
    let y := sumError p t v
    let z := x + y
    v + toOdd z (sumError x y z)
  else
    let bits (x : Float) : Nat := x.toBits.toNat
    match BinaryFormat.double.mulAddBits? (bits a) (bits b) (bits c) with
    | some n => Float.ofBits (.ofNat n)
    | none => if a.isFinite && b.isFinite && !c.isFinite then c else p + c

/-- The single nearest to `a * b + c`. Products of singles are exact as doubles. -/
def single (a b c : Float32) : Float32 :=
  let p := a.toFloat * b.toFloat
  let s := p + c.toFloat
  if s.isFinite then (toOdd s (sumError p c.toFloat s)).toFloat32 else s.toFloat32

end Fused

end PursuitForest
