import PursuitForest.Numeral.Layout
/-!
Written numbers read as doubles.

The leading digits that fit a word of 64 bits are kept, and the word is moved to its power of ten in
one or two rounded steps. So numbers of few digits and small powers are read exactly, and others may
come out next to the nearest double. Numbers beyond the largest double are refused.
-/

namespace PursuitForest

namespace BinaryFormat

/-- Numerator and denominator of the magnitude of finite bits. -/
def ratio (f : BinaryFormat) (bits : Nat) : Nat × Nat :=
  match f.decode bits with
  | .finite _ m q => (m <<< q.toNat, 1 <<< (-q).toNat)
  | _ => (0, 1)

/-- The rounded product of two magnitudes. -/
def product (f : BinaryFormat) (a b : Nat) : Nat :=
  let (n, d) := f.ratio a
  let (n', d') := f.ratio b
  f.round (n * n') (d * d')

/-- The rounded quotient of two magnitudes. -/
def quotient (f : BinaryFormat) (a b : Nat) : Nat :=
  let (n, d) := f.ratio a
  let (n', d') := f.ratio b
  f.round (n * d') (d * n')

/-- Bits of the number of another format that is nearest to a magnitude. -/
def convert (f g : BinaryFormat) (bits : Nat) : Nat :=
  let (num, den) := f.ratio bits
  g.round num den

/-- The number nearest to a power of ten. -/
def powerOfTen (f : BinaryFormat) (k : Nat) : Nat := f.ofDecimal ⟨1, k⟩

end BinaryFormat

namespace Numeral

/-- Appends digits to a word while it fits 64 bits; answers with the word and the digits left. -/
def fill : (word : Nat) → List Nat → Nat × List Nat
  | word, [] => (word, [])
  | word, d :: ds =>
    if 10 * word + d < UInt64.size then fill (10 * word + d) ds else (word, d :: ds)

/-- The leading digits in a word. Digits left before the point raise the power of ten. -/
def leadingWord (n : Numeral) : Decimal :=
  let (word, left) := fill 0 n.whole
  let (word, dropped) := fill word n.fraction
  ⟨word, n.exponent.getD 0 + left.length - (n.fraction.length - dropped.length : Nat)⟩

/-- Bits of the magnitude of a number as a double, if it is finite. A power of ten that a double
cannot hold is divided by in two steps. -/
def doubleBits? (n : Numeral) : Option Nat :=
  let f := BinaryFormat.double
  let ⟨word, e⟩ := n.leadingWord
  let x := f.round word 1
  if word = 0 then some 0
  else if 308 < e then none
  else if 0 ≤ e then
    let y := f.product x (f.powerOfTen e.toNat)
    if y < f.infinityBits then some y else none
  else if -308 ≤ e then some (f.quotient x (f.powerOfTen (-e).toNat))
  else if -616 ≤ e then
    some (f.quotient (f.quotient x (f.powerOfTen 308)) (f.powerOfTen (-308 - e).toNat))
  else some 0

end Numeral

end PursuitForest
