import PursuitForest.Json.Value
/-!
Reading structured values.

A text is cut into tokens, and the tokens are read one after the other by a machine that keeps the
containers still open. There is no limit to nesting, and half characters are let pass: whoever uses
a part of the value decides what that part may hold.
-/

namespace PursuitForest

namespace Token

/-! ### Tokens -/

/-- Digits at the front, and the rest. -/
def takeDigits (cs : List Char) : List Nat × List Char :=
  ((cs.takeWhile Char.isDigit).map fun c => c.toNat - '0'.toNat, cs.dropWhile Char.isDigit)

/-- Digits after a point, if there is a point. -/
def takeFraction (cs : List Char) : Option (List Nat × List Char) :=
  match cs with
  | '.' :: cs =>
    match takeDigits cs with
    | ([], _) => none
    | r => some r
  | cs => some ([], cs)

/-- An exponent, if there is a mark for one. -/
def takeExponent (cs : List Char) : Option (Option Int × List Char) :=
  let digits (sign : Int) (cs : List Char) : Option (Option Int × List Char) :=
    match takeDigits cs with
    | ([], _) => none
    | (ds, cs) => some (some (sign * Numeral.ofDigits ds), cs)
  match cs with
  | c :: cs' =>
    if c = 'e' ∨ c = 'E' then
      match cs' with
      | '-' :: cs => digits (-1) cs
      | '+' :: cs => digits 1 cs
      | cs => digits 1 cs
    else some (none, cs)
  | [] => some (none, [])

/-- A number at the front, and the rest. Only zero itself begins with a zero. -/
def takeNumeral (cs : List Char) : Option (Numeral × List Char) := do
  let (negative, cs) := match cs with
    | '-' :: cs => (true, cs)
    | cs => (false, cs)
  let (whole, cs) := takeDigits cs
  match whole with
  | [] => none
  | 0 :: _ :: _ => none
  | _ => do
    let (fraction, cs) ← takeFraction cs
    let (exponent, cs) ← takeExponent cs
    return (⟨negative, whole, fraction, exponent⟩, cs)

/-- The raw characters up to the closing quote, and the rest. -/
def takeQuoted : List Char → Option (List Char × List Char)
  | [] => none
  | '"' :: cs => some ([], cs)
  | '\\' :: c :: cs => (takeQuoted cs).map fun (body, rest) => ('\\' :: c :: body, rest)
  | c :: cs =>
    if c < ' ' then none else (takeQuoted cs).map fun (body, rest) => (c :: body, rest)

/-- A character of a text, or one 16-bit unit of a character. -/
inductive Piece where
  | char (c : Char)
  | unit (n : Nat)

/-- Value of a hexadecimal digit. -/
def hexValue? (c : Char) : Option Nat :=
  if '0' ≤ c ∧ c ≤ '9' then some (c.toNat - '0'.toNat)
  else if 'a' ≤ c ∧ c ≤ 'f' then some (c.toNat - 'a'.toNat + 10)
  else if 'A' ≤ c ∧ c ≤ 'F' then some (c.toNat - 'A'.toNat + 10)
  else none

/-- The character that a letter stands for after a backslash. -/
def unescape? : Char → Option Char
  | '"' => some '"'
  | '\\' => some '\\'
  | '/' => some '/'
  | 'b' => some '\x08'
  | 'f' => some '\x0c'
  | 'n' => some '\n'
  | 'r' => some '\r'
  | 't' => some '\t'
  | _ => none

/-- Raw characters with their escapes resolved. -/
def pieces : List Char → Option (List Piece)
  | [] => some []
  | '\\' :: 'u' :: a :: b :: c :: d :: cs => do
    let n := 4096 * (← hexValue? a) + 256 * (← hexValue? b) + 16 * (← hexValue? c) +
      (← hexValue? d)
    return .unit n :: (← pieces cs)
  | '\\' :: c :: cs => do return .char (← unescape? c) :: (← pieces cs)
  | ['\\'] => none
  | c :: cs => do return .char c :: (← pieces cs)

/-- Pieces put together. A unit that is half a character must stand before its other half. -/
def joinPieces : List Piece → Option (List Char)
  | [] => some []
  | .char c :: ps => (joinPieces ps).map (c :: ·)
  | .unit n :: ps =>
    if n < 0xd800 ∨ 0xe000 ≤ n then (joinPieces ps).map (Char.ofNat n :: ·)
    else if 0xdc00 ≤ n then none
    else match ps with
      | .unit m :: ps =>
        if 0xdc00 ≤ m ∧ m < 0xe000 then
          (joinPieces ps).map (Char.ofNat (0x10000 + 1024 * (n - 0xd800) + (m - 0xdc00)) :: ·)
        else none
      | _ => none

/-- A token at the front, and the rest. -/
def take (c : Char) (cs : List Char) : Option (Token × List Char) :=
  match c, cs with
  | '[', cs => some (.openArray, cs)
  | ']', cs => some (.closeArray, cs)
  | '\x7b', cs => some (.openObject, cs)
  | '\x7d', cs => some (.closeObject, cs)
  | ',', cs => some (.comma, cs)
  | ':', cs => some (.colon, cs)
  | 'n', 'u' :: 'l' :: 'l' :: cs => some (.null, cs)
  | 't', 'r' :: 'u' :: 'e' :: cs => some (.bool true, cs)
  | 'f', 'a' :: 'l' :: 's' :: 'e' :: cs => some (.bool false, cs)
  | '"', cs => do
    let (raw, cs) ← takeQuoted cs
    let token := match joinPieces (← pieces raw) with
      | some chars => .text (String.ofList chars)
      | none => .broken
    return (token, cs)
  | c, cs => (takeNumeral (c :: cs)).map fun (n, cs) => (.number n, cs)

/-- Characters that may stand between tokens. -/
def isBlank (c : Char) : Bool := c == ' ' || c == '\n' || c == '\t' || c == '\r'

/-- The tokens of a text of at most `length` characters. -/
def scan : (length : Nat) → List Char → Option (List Token)
  | _, [] => some []
  | 0, _ :: _ => none
  | k + 1, c :: cs =>
    if isBlank c then scan k cs
    else do
      let (token, rest) ← take c cs
      return token :: (← scan k rest)

/-- The tokens of a text. -/
def ofText (s : String) : Option (List Token) := scan s.length s.toList

end Token

namespace Json

/-! ### Values -/

/-- A container still open. Items and fields are kept latest first, fields only as long as all names
are strings. -/
inductive Frame where
  | array (items : List Json)
  | object (fields : Option (List (String × Json)))
  /-- An object whose field of the given name waits for its value. -/
  | member (fields : Option (List (String × Json))) (name : String)

/-- What may come next. -/
inductive Expected where
  | value
  | valueOrClose
  | nameOrClose
  | name
  | colon
  | commaOrClose
  | nothing (v : Json)

/-- Containers still open, the innermost first, and what may come next. -/
structure Machine where
  frames : List Frame
  expected : Expected

namespace Machine

/-- A value is complete: it goes into the innermost container. -/
def complete (v : Json) : List Frame → Option Machine
  | [] => some ⟨[], .nothing v⟩
  | .array items :: frames => some ⟨.array (v :: items) :: frames, .commaOrClose⟩
  | .member fields name :: frames =>
    some ⟨.object (fields.map ((name, v) :: ·)) :: frames, .commaOrClose⟩
  | .object _ :: _ => none

/-- The object with the given fields. -/
def closeObject : Option (List (String × Json)) → Json
  | some fields => .object fields.reverse
  | none => .broken

/-- A value begins with the token. -/
def begin (frames : List Frame) : Token → Option Machine
  | .null => complete .null frames
  | .bool b => complete (.bool b) frames
  | .number n => complete (.number n) frames
  | .text s => complete (.text s) frames
  | .broken => complete .broken frames
  | .openArray => some ⟨.array [] :: frames, .valueOrClose⟩
  | .openObject => some ⟨.object (some []) :: frames, .nameOrClose⟩
  | _ => none

/-- A field begins with the token that names it. -/
def named (fields : Option (List (String × Json))) (frames : List Frame) : Token → Option Machine
  | .text s => some ⟨.member fields s :: frames, .colon⟩
  | .broken => some ⟨.member none "" :: frames, .colon⟩
  | _ => none

/-- Reads one token. -/
def step (m : Machine) (t : Token) : Option Machine :=
  match m.expected, t, m.frames with
  | .value, t, frames => begin frames t
  | .valueOrClose, .closeArray, .array items :: frames => complete (.array items.reverse) frames
  | .valueOrClose, t, frames => begin frames t
  | .nameOrClose, .closeObject, .object fields :: frames => complete (closeObject fields) frames
  | .nameOrClose, t, .object fields :: frames => named fields frames t
  | .name, t, .object fields :: frames => named fields frames t
  | .colon, .colon, frames => some ⟨frames, .value⟩
  | .commaOrClose, .comma, .array items :: frames => some ⟨.array items :: frames, .value⟩
  | .commaOrClose, .comma, .object fields :: frames => some ⟨.object fields :: frames, .name⟩
  | .commaOrClose, .closeArray, .array items :: frames => complete (.array items.reverse) frames
  | .commaOrClose, .closeObject, .object fields :: frames => complete (closeObject fields) frames
  | _, _, _ => none

end Machine

/-- The value that tokens spell. -/
def ofTokens (tokens : List Token) : Option Json := do
  let m ← tokens.foldlM Machine.step ⟨[], .value⟩
  match m.expected with
  | .nothing v => return v
  | _ => none

/-- The value that a text spells. -/
def parse (s : String) : Option Json := do ofTokens (← Token.ofText s)

end Json

end PursuitForest
