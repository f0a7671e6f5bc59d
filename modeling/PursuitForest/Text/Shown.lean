import PursuitForest.Label
import PursuitForest.Numeral.Layout
import PursuitForest.Text.Unprintable
/-!
Labels and scalars as they appear in messages and tables.

Text labels are quoted, and a character that could not be read on a page is written as an escape.
-/

namespace PursuitForest

/-- A label type whose labels have a form for messages and tables. -/
class ShownLabel (L : Type) where
  shown : L → String

/-- A scalar type whose scalars have a form for messages. -/
class ShownScalar (F : Type) where
  shown : F → String

namespace Quoted

/-- A character between quotes. -/
def escape (c : Char) : List Char :=
  match c with
  | '"' => ['\\', '"']
  | '\\' => ['\\', '\\']
  | '\n' => ['\\', 'n']
  | '\r' => ['\\', 'r']
  | '\t' => ['\\', 't']
  | '\x00' => ['\\', '0']
  | c =>
    if Unprintable.contains c then
      ['\\', 'u', '\x7b'] ++ Nat.toDigits 16 c.toNat ++ ['\x7d']
    else [c]

/-- A text in quotes. -/
def encode (s : String) : String := String.ofList ('"' :: s.toList.flatMap escape ++ ['"'])

end Quoted

instance : ShownLabel Nat := ⟨fun n => toString n⟩
instance : ShownLabel UInt8 := ⟨fun n => toString n.toNat⟩
instance : ShownLabel UInt16 := ⟨fun n => toString n.toNat⟩
instance : ShownLabel UInt32 := ⟨fun n => toString n.toNat⟩
instance : ShownLabel UInt64 := ⟨fun n => toString n.toNat⟩
instance : ShownLabel Int32 := ⟨fun n => toString n.toInt⟩
instance : ShownLabel Int64 := ⟨fun n => toString n.toInt⟩
instance : ShownLabel Bool := ⟨fun b => if b then "true" else "false"⟩
instance : ShownLabel String := ⟨Quoted.encode⟩

/-- A number of a format in a message. -/
def BinaryFormat.shown (f : BinaryFormat) (bits : Nat) : String :=
  match f.decode bits with
  | .notANumber => "NaN"
  | .infinite negative => if negative then "-inf" else "inf"
  | .finite negative m q =>
    String.ofList (DecimalLayout.message.shortest f negative m q).chars

instance : ShownScalar Float := ⟨fun x => BinaryFormat.double.shown x.toBits.toNat⟩
instance : ShownScalar Float32 := ⟨fun x => BinaryFormat.single.shown x.toBits.toNat⟩

end PursuitForest
