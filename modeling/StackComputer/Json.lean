import StackComputer.Text

/-!
JSON: the words of a text and their spelling, values and their words, and the reading of a text as
a value. The members of an object keep their order and may repeat a key. A value can be set on one
line or over several; both spell the same words, so they read back alike.

Two kinds of words are recognised but not kept in full, because nothing here has a use for them:
numbers that are no plain integers, and strings that denote no text since they escape one half of a
surrogate pair.
-/

namespace StackComputer.Json

inductive Token where
  | openObject
  | closeObject
  | openArray
  | closeArray
  | comma
  | colon
  | null
  | bool (value : Bool)
  | integer (value : Int)
  /-- A number with a fraction or an exponent, or the negative zero. -/
  | real
  /-- A string; none if it denotes no text. -/
  | string (text : Option String)
  deriving DecidableEq, Repr

/-- A character as it stands between the quotes: the quote, the backslash and the controls are
escaped, by a letter where there is one. -/
def escaped (c : Char) : List Char :=
  if c = '"' then ['\\', '"']
  else if c = '\\' then ['\\', '\\']
  else if c = '\x08' then ['\\', 'b']
  else if c = '\x0c' then ['\\', 'f']
  else if c = '\n' then ['\\', 'n']
  else if c = '\r' then ['\\', 'r']
  else if c = '\t' then ['\\', 't']
  else if c.toNat < 0x20 then
    ['\\', 'u', '0', '0', Nat.digitChar (c.toNat / 16), Nat.digitChar (c.toNat % 16)]
  else [c]

def Token.spelling : Token → List Char
  | openObject => ['\x7b']
  | closeObject => ['\x7d']
  | openArray => ['[']
  | closeArray => [']']
  | comma => [',']
  | colon => [':']
  | null => ['n', 'u', 'l', 'l']
  | bool true => ['t', 'r', 'u', 'e']
  | bool false => ['f', 'a', 'l', 's', 'e']
  | integer value => value.repr.toList
  | real => ['0', '.', '0']
  | string (some text) => '"' :: text.toList.flatMap escaped ++ ['"']
  | string none => ['"', '\\', 'u', 'd', '8', '0', '0', '"']

/-- One unit of a string: a character, or an escaped half of a surrogate pair. -/
inductive StringUnit where
  | char (c : Char)
  | half (code : Nat)
  deriving DecidableEq, Repr

def hexDigit? (c : Char) : Option Nat :=
  if c.isDigit then some (c.toNat - '0'.toNat)
  else if 'a' ≤ c ∧ c ≤ 'f' then some (c.toNat - 'a'.toNat + 10)
  else if 'A' ≤ c ∧ c ≤ 'F' then some (c.toNat - 'A'.toNat + 10)
  else none

def hexUnit? (a b c d : Char) : Option StringUnit := do
  let digits := [← hexDigit? a, ← hexDigit? b, ← hexDigit? c, ← hexDigit? d]
  let code := digits.foldl (fun n digit => 16 * n + digit) 0
  return if 0xd800 ≤ code ∧ code < 0xe000 then .half code else .char (Char.ofNat code)

def escapee? (c : Char) : Option Char :=
  if c = '"' ∨ c = '\\' ∨ c = '/' then some c
  else if c = 'b' then some '\x08'
  else if c = 'f' then some '\x0c'
  else if c = 'n' then some '\n'
  else if c = 'r' then some '\r'
  else if c = 't' then some '\t'
  else none

/-- Reads up to the closing quote. Controls have to be escaped. -/
def scanString : List Char → Option (List StringUnit × List Char)
  | [] => none
  | '"' :: rest => some ([], rest)
  | '\\' :: 'u' :: a :: b :: c :: d :: rest => do
    let u ← hexUnit? a b c d
    let (us, rest) ← scanString rest
    return (u :: us, rest)
  | '\\' :: c :: rest => do
    let c ← escapee? c
    let (us, rest) ← scanString rest
    return (.char c :: us, rest)
  | c :: rest => do
    if c.toNat < 0x20 then none
    let (us, rest) ← scanString rest
    return (.char c :: us, rest)

/-- The text that units denote; two halves in the right order make one character. -/
def joinUnits? : List StringUnit → Option (List Char)
  | [] => some []
  | .char c :: us => (joinUnits? us).map (c :: ·)
  | .half high :: .half low :: us =>
    if high < 0xdc00 ∧ 0xdc00 ≤ low then
      (joinUnits? us).map
        (Char.ofNat (0x10000 + (high - 0xd800) * 0x400 + (low - 0xdc00)) :: ·)
    else none
  | .half _ :: _ => none

def scanDigits? (cs : List Char) : Option (List Char × List Char) :=
  match cs.takeWhile Char.isDigit with
  | [] => none
  | ds => some (ds, cs.dropWhile Char.isDigit)

/-- A whole number has no leading zero. -/
def scanWhole? : List Char → Option (Nat × List Char)
  | '0' :: rest => some (0, rest)
  | cs => (scanDigits? cs).map fun (ds, rest) => (Nat.ofDigitChars 10 ds 0, rest)

def scanFraction? : List Char → Option (Bool × List Char)
  | '.' :: rest => (scanDigits? rest).map fun (_, rest) => (true, rest)
  | cs => some (false, cs)

def dropSign : List Char → List Char
  | '+' :: rest => rest
  | '-' :: rest => rest
  | cs => cs

def scanExponent? : List Char → Option (Bool × List Char)
  | 'e' :: rest => (scanDigits? (dropSign rest)).map fun (_, rest) => (true, rest)
  | 'E' :: rest => (scanDigits? (dropSign rest)).map fun (_, rest) => (true, rest)
  | cs => some (false, cs)

def scanNumber? (negative : Bool) (cs : List Char) : Option (Token × List Char) := do
  let (n, cs) ← scanWhole? cs
  let (fraction, cs) ← scanFraction? cs
  let (exponent, cs) ← scanExponent? cs
  if fraction || exponent || (negative && n == 0) then return (.real, cs)
  return (.integer (if negative then -n else n), cs)

def isSpace (c : Char) : Bool := c == ' ' || c == '\t' || c == '\n' || c == '\r'

def scanToken? : List Char → Option (Token × List Char)
  | '\x7b' :: rest => some (.openObject, rest)
  | '\x7d' :: rest => some (.closeObject, rest)
  | '[' :: rest => some (.openArray, rest)
  | ']' :: rest => some (.closeArray, rest)
  | ',' :: rest => some (.comma, rest)
  | ':' :: rest => some (.colon, rest)
  | 'n' :: 'u' :: 'l' :: 'l' :: rest => some (.null, rest)
  | 't' :: 'r' :: 'u' :: 'e' :: rest => some (.bool true, rest)
  | 'f' :: 'a' :: 'l' :: 's' :: 'e' :: rest => some (.bool false, rest)
  | '"' :: rest => (scanString rest).map fun (us, rest) =>
    (.string ((joinUnits? us).map String.ofList), rest)
  | '-' :: rest => scanNumber? true rest
  | cs => scanNumber? false cs

/-- Every word takes a character, so the length of the text is fuel enough. -/
def scanTokens? : Nat → List Char → Option (List Token)
  | 0, _ => none
  | fuel + 1, cs =>
    match cs.dropWhile isSpace with
    | [] => some []
    | c :: rest => do
      let (t, rest) ← scanToken? (c :: rest)
      return t :: (← scanTokens? fuel rest)

def tokens? (cs : List Char) : Option (List Token) :=
  scanTokens? (cs.length + 1) cs

def compact (ts : List Token) : List Char := ts.flatMap Token.spelling

def newline (depth : Nat) : List Char := '\n' :: List.replicate (2 * depth) ' '

/-- One item a line, two spaces deeper inside each bracket. Empty brackets stay together. -/
def indented : Nat → List Token → List Char
  | _, [] => []
  | depth, .openObject :: .closeObject :: ts => '\x7b' :: '\x7d' :: indented depth ts
  | depth, .openArray :: .closeArray :: ts => '[' :: ']' :: indented depth ts
  | depth, .openObject :: ts => '\x7b' :: newline (depth + 1) ++ indented (depth + 1) ts
  | depth, .openArray :: ts => '[' :: newline (depth + 1) ++ indented (depth + 1) ts
  | depth, .closeObject :: ts => newline (depth - 1) ++ '\x7d' :: indented (depth - 1) ts
  | depth, .closeArray :: ts => newline (depth - 1) ++ ']' :: indented (depth - 1) ts
  | depth, .comma :: ts => ',' :: newline depth ++ indented depth ts
  | depth, .colon :: ts => ':' :: ' ' :: indented depth ts
  | depth, t :: ts => t.spelling ++ indented depth ts

inductive Value where
  | null
  | bool (value : Bool)
  | integer (value : Int)
  | real
  | string (text : Option String)
  | array (items : List Value)
  | object (members : List (Option String × Value))
  deriving Repr

mutual

def Value.tokens : Value → List Token
  | .null => [.null]
  | .bool b => [.bool b]
  | .integer i => [.integer i]
  | .real => [.real]
  | .string s => [.string s]
  | .array items => .openArray :: itemTokens items ++ [.closeArray]
  | .object members => .openObject :: memberTokens members ++ [.closeObject]

def itemTokens : List Value → List Token
  | [] => []
  | [v] => v.tokens
  | v :: vs => v.tokens ++ .comma :: itemTokens vs

def memberTokens : List (Option String × Value) → List Token
  | [] => []
  | [(key, v)] => .string key :: .colon :: v.tokens
  | (key, v) :: ms => .string key :: .colon :: v.tokens ++ .comma :: memberTokens ms

end

def Value.compact (v : Value) : String := .ofList (Json.compact v.tokens)

def Value.pretty (v : Value) : String := .ofList (indented 0 v.tokens)

def Value.record (members : List (String × Value)) : Value :=
  .object (members.map fun (key, v) => (some key, v))

def Value.text (s : String) : Value := .string (some s)

mutual

def value? : Nat → List Token → Option (Value × List Token)
  | 0, _ => none
  | _ + 1, .null :: ts => some (.null, ts)
  | _ + 1, .bool b :: ts => some (.bool b, ts)
  | _ + 1, .integer i :: ts => some (.integer i, ts)
  | _ + 1, .real :: ts => some (.real, ts)
  | _ + 1, .string s :: ts => some (.string s, ts)
  | _ + 1, .openArray :: .closeArray :: ts => some (.array [], ts)
  | fuel + 1, .openArray :: ts => (items? fuel ts).map fun (vs, ts) => (.array vs, ts)
  | _ + 1, .openObject :: .closeObject :: ts => some (.object [], ts)
  | fuel + 1, .openObject :: ts => (members? fuel ts).map fun (ms, ts) => (.object ms, ts)
  | _ + 1, _ => none

def items? : Nat → List Token → Option (List Value × List Token)
  | 0, _ => none
  | fuel + 1, ts =>
    match value? fuel ts with
    | some (v, .comma :: ts) => (items? fuel ts).map fun (vs, ts) => (v :: vs, ts)
    | some (v, .closeArray :: ts) => some ([v], ts)
    | _ => none

def members? : Nat → List Token → Option (List (Option String × Value) × List Token)
  | fuel + 1, .string key :: .colon :: ts =>
    match value? fuel ts with
    | some (v, .comma :: ts) => (members? fuel ts).map fun (ms, ts) => ((key, v) :: ms, ts)
    | some (v, .closeObject :: ts) => some ([(key, v)], ts)
    | _ => none
  | _, _ => none

end

def parse? (text : String) : Option Value :=
  match tokens? text.toList with
  | none => none
  | some ts =>
    match value? (2 * ts.length + 1) ts with
    | some (v, []) => some v
    | _ => none

namespace Value

def text? : Value → Option String
  | .string s => s
  | _ => none

def natural? : Value → Option Nat
  | .integer i => if 0 ≤ i ∧ i < addressLimit then some i.toNat else none
  | _ => none

def members? : Value → Option (List (String × Value))
  | .object ms => ms.mapM fun (key, v) => key.map (·, v)
  | _ => none

def member? (name : String) (ms : List (String × Value)) : Option Value :=
  match ms.filter (·.1 == name) with
  | [(_, v)] => some v
  | _ => none

/-- The fields with these names: from an object that has each of them once, other members aside, or
from an array of exactly these fields in order. -/
def fields? (names : List String) : Value → Option (List Value)
  | .array items => if items.length = names.length then some items else none
  | v => v.members?.bind fun ms => names.mapM (member? · ms)

end Value

end StackComputer.Json
