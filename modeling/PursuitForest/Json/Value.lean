import PursuitForest.Numeral.Layout
/-!
Structured values and their written form.

A value is written as a sequence of tokens without blanks. Fields keep their order and may repeat;
numbers are kept as they are written. A text may spell half a character, which no string holds;
such a text is kept as `Json.broken`, and so is an object with such a name.
-/

namespace PursuitForest

/-- A structured value. -/
inductive Json where
  | null
  | bool (b : Bool)
  | number (n : Numeral)
  | text (s : String)
  /-- A text with half a character in it, or an object with such a name. -/
  | broken
  | array (items : List Json)
  | object (fields : List (String × Json))

/-- A word, mark, number or text of the written form. -/
inductive Token where
  | openArray
  | closeArray
  | openObject
  | closeObject
  | comma
  | colon
  | null
  | bool (b : Bool)
  | number (n : Numeral)
  | text (s : String)
  /-- A text with half a character in it. -/
  | broken
deriving DecidableEq

namespace Token

/-- A character between quotes: quotes, backslashes and controls are escaped. -/
def escape (c : Char) : List Char :=
  match c with
  | '"' => ['\\', '"']
  | '\\' => ['\\', '\\']
  | '\x08' => ['\\', 'b']
  | '\x0c' => ['\\', 'f']
  | '\n' => ['\\', 'n']
  | '\r' => ['\\', 'r']
  | '\t' => ['\\', 't']
  | c =>
    if c < ' ' then
      ['\\', 'u', '0', '0', Nat.digitChar (c.toNat / 16), Nat.digitChar (c.toNat % 16)]
    else [c]

/-- A text in quotes. -/
def quote (s : String) : List Char := '"' :: s.toList.flatMap escape ++ ['"']

/-- The written form of a token. -/
def chars : Token → List Char
  | .openArray => ['[']
  | .closeArray => [']']
  | .openObject => ['\x7b']
  | .closeObject => ['\x7d']
  | .comma => [',']
  | .colon => [':']
  | .null => ['n', 'u', 'l', 'l']
  | .bool true => ['t', 'r', 'u', 'e']
  | .bool false => ['f', 'a', 'l', 's', 'e']
  | .number n => n.chars
  | .text s => quote s
  | .broken => ['"', '\\', 'u', 'd', '8', '0', '0', '"']

end Token

namespace Json

mutual

/-- The tokens of a value. -/
def tokens : Json → List Token
  | .null => [.null]
  | .bool b => [.bool b]
  | .number n => [.number n]
  | .text s => [.text s]
  | .broken => [.broken]
  | .array items => .openArray :: itemTokens items
  | .object fields => .openObject :: fieldTokens fields

/-- Items with commas between them, and the closing mark. -/
def itemTokens : List Json → List Token
  | [] => [.closeArray]
  | [v] => v.tokens ++ [.closeArray]
  | v :: vs => v.tokens ++ .comma :: itemTokens vs

/-- Fields with commas between them, and the closing mark. -/
def fieldTokens : List (String × Json) → List Token
  | [] => [.closeObject]
  | [(k, v)] => .text k :: .colon :: v.tokens ++ [.closeObject]
  | (k, v) :: fs => .text k :: .colon :: v.tokens ++ .comma :: fieldTokens fs

end

/-- The written form of a value. -/
def print (v : Json) : String := String.ofList (v.tokens.flatMap Token.chars)

/-- The value of a field that occurs once. -/
def field? (fields : List (String × Json)) (name : String) : Option Json :=
  match fields.filter (·.1 = name) with
  | [(_, v)] => some v
  | _ => none

/-- The values of named fields, each of which occurs once. An array stands for the fields in
order. -/
def record? (names : List String) : Json → Option (List Json)
  | .object fields => names.mapM (field? fields)
  | .array items => if items.length = names.length then some items else none
  | _ => none

end Json

end PursuitForest
