import PursuitForest.Numeral.Shortest
/-!
Written decimal numbers.

A `Numeral` is a number as it is written: sign, digits before and after the point, and a power of
ten. A `DecimalLayout` says how the digits of a number are laid out.
-/

namespace PursuitForest

/-- A written number. Digits stand most significant first. -/
structure Numeral where
  negative : Bool
  whole : List Nat
  fraction : List Nat
  exponent : Option Int
deriving DecidableEq

/-- The character of a digit. -/
def digitChar (d : Nat) : Char := Char.ofNat ('0'.toNat + d)

namespace Numeral

/-- The characters of a written number. The power of ten carries its sign. -/
def chars (n : Numeral) : List Char :=
  (if n.negative then ['-'] else []) ++ n.whole.map digitChar ++
  (if n.fraction.isEmpty then [] else '.' :: n.fraction.map digitChar) ++
  match n.exponent with
  | none => []
  | some e =>
    'e' :: (if e < 0 then '-' else '+') :: (decimalDigits e.natAbs).map digitChar

/-- Whether there is neither a point nor a power of ten. -/
def isInteger (n : Numeral) : Bool := n.fraction.isEmpty && n.exponent.isNone

/-- The whole number with the given digits. -/
def ofDigits (digits : List Nat) : Nat := digits.foldl (fun n d => 10 * n + d) 0

/-- The magnitude of a written number. -/
def magnitude (n : Numeral) : Decimal :=
  ⟨ofDigits (n.whole ++ n.fraction), n.exponent.getD 0 - n.fraction.length⟩

/-- A whole number as it is written. -/
def ofInt (i : Int) : Numeral := ⟨i < 0, decimalDigits i.natAbs, [], none⟩

/-- The whole number that is written, where zero carries no sign. -/
def toInt? (n : Numeral) : Option Int :=
  if n.isInteger then
    let m := ofDigits n.whole
    if n.negative then if m = 0 then none else some (-m) else some m
  else none

end Numeral

/-- How digits are laid out. -/
structure DecimalLayout where
  /-- Whether a number whose first digit is at this power of ten is written without a power. -/
  positional : Int → Bool
  /-- Whether a whole number gets a zero after the point. -/
  pointZero : Bool

namespace DecimalLayout

/-- Lays out digits of which the first is at the power `e` of ten. -/
def numeral (l : DecimalLayout) (negative : Bool) (digits : List Nat) (e : Int) : Numeral :=
  if l.positional e then
    let whole := if e < 0 then [0] else
      (digits ++ List.replicate (e.toNat + 1 - digits.length) 0).take (e.toNat + 1)
    let fraction := if e < 0 then List.replicate ((-e).toNat - 1) 0 ++ digits
      else digits.drop (e.toNat + 1)
    ⟨negative, whole, if fraction.isEmpty && l.pointZero then [0] else fraction, none⟩
  else ⟨negative, digits.take 1, digits.drop 1, some e⟩

/-- The shortest numeral of a finite number of a format. -/
def shortest (l : DecimalLayout) (f : BinaryFormat) (negative : Bool) (m : Nat) (q : Int) :
    Numeral :=
  if m = 0 then l.numeral negative [0] 0
  else
    let (digits, e) := (PursuitForest.shortest f m q).scientific
    l.numeral negative digits e

/-- Messages write every number without a power of ten. -/
def message : DecimalLayout := ⟨fun _ => true, false⟩

end DecimalLayout

namespace BinaryFormat

/-- Bits of the number nearest to a decimal. Decimals far outside the format are cut off before
their powers of ten are computed. -/
def ofDecimal (f : BinaryFormat) (d : Decimal) : Nat :=
  if d.digits = 0 then 0
  else
    let e := d.exponent + (decimalDigits d.digits).length
    if 400 < e then f.infinityBits
    else if e < -400 then 0
    else f.round (d.digits * tens d.exponent.toNat) (tens (-d.exponent).toNat)

end BinaryFormat

end PursuitForest
