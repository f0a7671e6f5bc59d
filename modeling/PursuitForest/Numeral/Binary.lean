/-!
Binary floating-point numbers as whole numbers times powers of two.

`BinaryFormat.decode` reads the bits of a number, `BinaryFormat.round` finds the bits of the number
nearest to a fraction, a tie going to the even neighbour.
-/

namespace PursuitForest

/-- Shape of a format: bits of the significand, bits of the exponent field. -/
structure BinaryFormat where
  precision : Nat
  exponentBits : Nat

/-- The number that bits stand for. -/
inductive BinaryValue where
  | notANumber
  | infinite (negative : Bool)
  /-- `significand * 2 ^ exponent`. -/
  | finite (negative : Bool) (significand : Nat) (exponent : Int)
deriving DecidableEq

namespace BinaryFormat

/-- Double precision. -/
def double : BinaryFormat := ⟨53, 11⟩

/-- Single precision. -/
def single : BinaryFormat := ⟨24, 8⟩

/-- Weight of the leading bit of a significand. -/
def leadingBit (f : BinaryFormat) : Nat := 1 <<< (f.precision - 1)

/-- Exponent of the last bit of the smallest numbers. -/
def minExponent (f : BinaryFormat) : Int := 3 - (1 <<< (f.exponentBits - 1) : Nat) - f.precision

/-- Exponent field of infinity, with all bits set. -/
def lastField (f : BinaryFormat) : Nat := 1 <<< f.exponentBits - 1

/-- Bits of infinity. -/
def infinityBits (f : BinaryFormat) : Nat := f.lastField * f.leadingBit

/-- The number that bits stand for. -/
def decode (f : BinaryFormat) (bits : Nat) : BinaryValue :=
  let fraction := bits % f.leadingBit
  let field := bits / f.leadingBit % (f.lastField + 1)
  let negative := bits.testBit (f.precision - 1 + f.exponentBits)
  if field = f.lastField then
    if fraction = 0 then .infinite negative else .notANumber
  else if field = 0 then .finite negative fraction f.minExponent
  else .finite negative (fraction + f.leadingBit) (f.minExponent + field - 1)

/-- `num / den` rounded to a whole number, a tie to the even one. -/
def divideNearest (num den : Nat) : Nat :=
  let n := num / den
  let rest := 2 * (num % den)
  if rest < den then n else if den < rest then n + 1 else n + n % 2

/-- Greatest `e` with `2 ^ e ≤ num / den`, for positive `num` and `den`. -/
def magnitude (num den : Nat) : Int :=
  let e : Int := num.log2 - den.log2
  if den <<< e.toNat ≤ num <<< (-e).toNat then e else e - 1

/-- Bits of the number nearest to `num / den`, or of infinity beyond the largest number. -/
def round (f : BinaryFormat) (num den : Nat) : Nat :=
  if num = 0 then 0
  else
    let q := max (magnitude num den - f.precision + 1) f.minExponent
    let m := divideNearest (num <<< (-q).toNat) (den <<< q.toNat)
    -- one more than the largest significand carries over into the exponent field
    let bits := m + (q - f.minExponent).toNat * f.leadingBit
    min bits f.infinityBits

/-- The bits of a magnitude, with the sign bit in front. -/
def signed (f : BinaryFormat) (negative : Bool) (bits : Nat) : Nat :=
  if negative then bits + 1 <<< (f.precision - 1 + f.exponentBits) else bits

end BinaryFormat

end PursuitForest
