import PursuitForest.Error
import PursuitForest.Json.Reader
import PursuitForest.Label
import PursuitForest.Numeral.Reading
/-!
Scalars and labels as structured values.

Scalars are written with the fewest digits that read back, and as null when they are not finite.
They are read from any number whose double is finite; null is no scalar. Whole labels are read from
whole numbers in range, written without a point or power of ten.
-/

namespace PursuitForest

/-- Written forms of scalars. -/
class ScalarCodec (F : Type) where
  toJson : F → Json
  ofNumeral : Numeral → Option F

/-- Written forms of labels. -/
class LabelCodec (L : Type) where
  toJson : L → Json
  ofJson : Json → Option L

/-- What a text spells, read as a value of some type. -/
def Json.readAs {F L α : Type} (read : Json → Option α) (s : String) : Except (Error F L) α :=
  match (Json.parse s).bind read with
  | some a => .ok a
  | none => .error .malformedText

/-- A scalar that is written as a number. -/
def ScalarCodec.ofJson {F : Type} [ScalarCodec F] : Json → Option F
  | .number n => ScalarCodec.ofNumeral n
  | _ => none

/-! ### Scalars -/

/-- Doubles are written without a power of ten from `10 ^ (-5)` up to below `10 ^ 16`. -/
def doubleLayout : DecimalLayout := ⟨fun e => -5 ≤ e && e ≤ 15, true⟩

/-- Singles are written without a power of ten from `10 ^ (-6)` up to below `10 ^ 13`. -/
def singleLayout : DecimalLayout := ⟨fun e => -6 ≤ e && e ≤ 12, true⟩

/-- The written form of bits. -/
def DecimalLayout.toJson (l : DecimalLayout) (f : BinaryFormat) (bits : Nat) : Json :=
  match f.decode bits with
  | .finite negative m q => .number (l.shortest f negative m q)
  | _ => .null

/-- The magnitude of a number as a double, if it is finite. -/
def Numeral.double? (n : Numeral) : Option Float :=
  n.doubleBits?.map fun bits => Float.ofBits (.ofNat bits)

/-- Bits of the magnitude of a number as a single. Whole numbers that fit a word are rounded once, other
numbers are rounded to a double first. What is too large for a single comes out infinite. -/
def Numeral.singleBits? (n : Numeral) : Option Nat :=
  let whole := Numeral.ofDigits n.whole
  if n.isInteger && whole < (if n.negative then 1 <<< 63 + 1 else UInt64.size) then
    some (BinaryFormat.single.ofDecimal n.magnitude)
  else n.doubleBits?.map (BinaryFormat.double.convert .single)

instance : ScalarCodec Float where
  toJson x := doubleLayout.toJson .double x.toBits.toNat
  ofNumeral n := n.doubleBits?.map fun bits =>
    Float.ofBits (.ofNat (BinaryFormat.double.signed n.negative bits))

instance : ScalarCodec Float32 where
  toJson x := singleLayout.toJson .single x.toBits.toNat
  ofNumeral n := n.singleBits?.map fun bits =>
    Float32.ofBits (.ofNat (BinaryFormat.single.signed n.negative bits))

/-! ### Labels -/

/-- A whole number from `low` to `high`. -/
def Json.int? (low high : Int) : Json → Option Int
  | .number n => do
    let i ← n.toInt?
    if low ≤ i ∧ i ≤ high then some i else none
  | _ => none

/-- A whole number below `bound`. -/
def Json.natBelow? (bound : Nat) (v : Json) : Option Nat := (v.int? 0 (bound - 1)).map Int.toNat

/-- The written form of a whole number. -/
def Json.ofInt (i : Int) : Json := .number (.ofInt i)

instance : LabelCodec UInt8 where
  toJson n := .ofInt n.toNat
  ofJson v := (v.natBelow? UInt8.size).map .ofNat

instance : LabelCodec UInt16 where
  toJson n := .ofInt n.toNat
  ofJson v := (v.natBelow? UInt16.size).map .ofNat

instance : LabelCodec UInt32 where
  toJson n := .ofInt n.toNat
  ofJson v := (v.natBelow? UInt32.size).map .ofNat

instance : LabelCodec UInt64 where
  toJson n := .ofInt n.toNat
  ofJson v := (v.natBelow? UInt64.size).map .ofNat

instance : LabelCodec Int32 where
  toJson n := .ofInt n.toInt
  ofJson v := (v.int? Int32.minValue.toInt Int32.maxValue.toInt).map .ofInt

instance : LabelCodec Int64 where
  toJson n := .ofInt n.toInt
  ofJson v := (v.int? Int64.minValue.toInt Int64.maxValue.toInt).map .ofInt

instance : LabelCodec Bool where
  toJson := .bool
  ofJson
    | .bool b => some b
    | _ => none

instance : LabelCodec String where
  toJson := .text
  ofJson
    | .text s => some s
    | _ => none

end PursuitForest
