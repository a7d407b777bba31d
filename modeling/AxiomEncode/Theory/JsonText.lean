/-
# Theory.JsonText -- JSON text, printed and read back

`dumps` prints a value as `json.dumps` does with an indent of two, and `loads`
reads a text as `json.loads` does, every object as its list of pairs.
-/
import AxiomEncode.Theory.PyText

namespace AxiomEncode.Theory

set_option autoImplicit false

namespace Json

/-! ## Strings -/

/-- One hexadecimal digit, lower case. -/
def hexDigit (value : Nat) : Char :=
  if value < 10 then Char.ofNat (48 + value) else Char.ofNat (87 + value)

def hexValue (c : Char) : Option Nat :=
  let code := c.toNat
  if 48 ≤ code ∧ code ≤ 57 then some (code - 48)
  else if 97 ≤ code ∧ code ≤ 102 then some (code - 87)
  else if 65 ≤ code ∧ code ≤ 70 then some (code - 55)
  else none

/-- `\uXXXX` -/
def unicodeEscape (code : Nat) : List Char :=
  ['\\', 'u', hexDigit (code / 4096 % 16), hexDigit (code / 256 % 16), hexDigit (code / 16 % 16),
    hexDigit (code % 16)]

def hexFour (a b c d : Char) : Option Nat := do
  let a ← hexValue a
  let b ← hexValue b
  let c ← hexValue c
  let d ← hexValue d
  some (4096 * a + 256 * b + 16 * c + d)

/-- One character of a string, escaped as `ensure_ascii` does. -/
def escapeChar (c : Char) : List Char :=
  if c = '"' then ['\\', '"']
  else if c = '\\' then ['\\', '\\']
  else if c = '\n' then ['\\', 'n']
  else if c = '\r' then ['\\', 'r']
  else if c = '\t' then ['\\', 't']
  else if c.toNat = 12 then ['\\', 'f']
  else if c.toNat = 8 then ['\\', 'b']
  else if 32 ≤ c.toNat ∧ c.toNat ≤ 126 then [c]
  else if c.toNat < 0x10000 then unicodeEscape c.toNat
  else
    let offset := c.toNat - 0x10000
    unicodeEscape (0xD800 + offset / 1024) ++ unicodeEscape (0xDC00 + offset % 1024)

def printString (text : List Char) : List Char := '"' :: text.flatMap escapeChar ++ ['"']

/-- The character an escape of one letter stands for. -/
def simpleEscape (c : Char) : Option Char :=
  if c = '"' then some '"'
  else if c = '\\' then some '\\'
  else if c = '/' then some '/'
  else if c = 'n' then some '\n'
  else if c = 'r' then some '\r'
  else if c = 't' then some '\t'
  else if c = 'f' then some (Char.ofNat 12)
  else if c = 'b' then some (Char.ofNat 8)
  else none

/-- Read a string after its opening quote.  A lone surrogate, which no text of
Unicode scalar values holds, is refused. -/
def scanString : List Char → Option (List Char × List Char)
  | [] => none
  | '"' :: rest => some ([], rest)
  | '\\' :: 'u' :: a :: b :: c :: d :: rest =>
    match hexFour a b c d with
    | none => none
    | some code =>
      if code < 0xD800 ∨ 0xE000 ≤ code then
        (scanString rest).map fun found => (Char.ofNat code :: found.1, found.2)
      else if 0xDC00 ≤ code then none
      else
        match rest with
        | '\\' :: 'u' :: e :: f :: g :: h :: rest =>
          match hexFour e f g h with
          | none => none
          | some low =>
            if 0xDC00 ≤ low ∧ low < 0xE000 then
              (scanString rest).map fun found =>
                (Char.ofNat (0x10000 + (code - 0xD800) * 1024 + (low - 0xDC00)) :: found.1,
                  found.2)
            else none
        | _ => none
  | '\\' :: c :: rest =>
    match simpleEscape c with
    | none => none
    | some c => (scanString rest).map fun found => (c :: found.1, found.2)
  | c :: rest =>
    if c.toNat < 32 then none
    else (scanString rest).map fun found => (c :: found.1, found.2)

/-! ## Numbers -/

def isDigit (c : Char) : Bool := 48 ≤ c.toNat && c.toNat ≤ 57

def printInt (value : Int) : List Char :=
  if value < 0 then '-' :: Nat.toDigits 10 value.natAbs else Nat.toDigits 10 value.natAbs

/-- The fraction and the exponent of a number, as text. -/
def scanFraction (text : List Char) : List Char × List Char :=
  let (fraction, text) :=
    match text with
    | '.' :: rest =>
      let digits := rest.takeWhile isDigit
      if digits.isEmpty then ([], text) else ('.' :: digits, rest.dropWhile isDigit)
    | _ => ([], text)
  match text with
  | e :: rest =>
    if e = 'e' ∨ e = 'E' then
      let sign := rest.takeWhile fun c => c == '-' || c == '+'
      let after := rest.drop sign.length
      let digits := after.takeWhile isDigit
      if digits.isEmpty ∨ 1 < sign.length then (fraction, text)
      else (fraction ++ e :: sign ++ digits, after.dropWhile isDigit)
    else (fraction, text)
  | [] => (fraction, text)

/-- A number after its sign. -/
def scanUnsigned (negative : Bool) (text : List Char) : Option (Json × List Char) :=
  let run := text.takeWhile isDigit
  match run with
  | [] => none
  | first :: _ =>
    -- a leading zero is the whole integer part
    let digits := if first = '0' then ['0'] else run
    let value : Int := Nat.ofDigitChars 10 digits 0
    let (fraction, rest) := scanFraction (text.drop digits.length)
    if fraction.isEmpty then some (.int (if negative then -value else value), rest)
    else some (.float ((if negative then ['-'] else []) ++ digits ++ fraction), rest)

def scanNumber (text : List Char) : Option (Json × List Char) :=
  match text with
  | '-' :: rest => scanUnsigned true rest
  | text => scanUnsigned false text

/-! ## Values -/

def newline (level : Nat) : List Char := '\n' :: List.replicate (2 * level) ' '

mutual

/-- A value at a level of indentation. -/
def printValue (level : Nat) : Json → List Char
  | .null => "null".toList
  | .bool true => "true".toList
  | .bool false => "false".toList
  | .int value => printInt value
  | .float text => text
  | .str text => printString text
  | .arr [] => ['[', ']']
  | .arr (item :: items) =>
    '[' :: (newline (level + 1) ++ (printValue (level + 1) item ++ printItems level items))
  | .obj [] => ['{', '}']
  | .obj ((key, value) :: members) =>
    '{' :: (newline (level + 1) ++ (printString key ++ (':' :: ' ' ::
      (printValue (level + 1) value ++ printMembers level members))))

/-- What follows an item of an array. -/
def printItems (level : Nat) : List Json → List Char
  | [] => newline level ++ [']']
  | item :: items =>
    ',' :: (newline (level + 1) ++ (printValue (level + 1) item ++ printItems level items))

/-- What follows a member of an object. -/
def printMembers (level : Nat) : List (List Char × Json) → List Char
  | [] => newline level ++ ['}']
  | (key, value) :: members =>
    ',' :: (newline (level + 1) ++ (printString key ++ (':' :: ' ' ::
      (printValue (level + 1) value ++ printMembers level members))))

end

/-- `json.dumps(value, indent=2)`, members in the order they are listed. -/
def dumps (value : Json) : List Char := printValue 0 value

def isJsonSpace (c : Char) : Bool := c == ' ' || c == '\t' || c == '\n' || c == '\r'

def skipSpaces (text : List Char) : List Char := text.dropWhile isJsonSpace

/-- The words that are values. -/
def literals : List (List Char × Json) :=
  [("null".toList, .null), ("true".toList, .bool true), ("false".toList, .bool false),
    ("NaN".toList, .float "NaN".toList), ("Infinity".toList, .float "Infinity".toList),
    ("-Infinity".toList, .float "-Infinity".toList)]

/-- A literal or a number. -/
def scanPlain (text : List Char) : Option (Json × List Char) :=
  match literals.find? fun literal => literal.1.isPrefixOf text with
  | some (word, value) => some (value, text.drop word.length)
  | none => scanNumber text

mutual

def scanValue : Nat → List Char → Option (Json × List Char)
  | 0, _ => none
  | fuel + 1, text =>
    match text with
    | '"' :: rest => (scanString rest).map fun found => (.str found.1, found.2)
    | '[' :: rest =>
      match skipSpaces rest with
      | ']' :: rest => some (.arr [], rest)
      | rest => do
        let (item, rest) ← scanValue fuel rest
        let (items, rest) ← scanItems fuel rest
        some (.arr (item :: items), rest)
    | '{' :: rest =>
      match skipSpaces rest with
      | '}' :: rest => some (.obj [], rest)
      | rest => do
        let (member, rest) ← scanMember fuel rest
        let (members, rest) ← scanMembers fuel rest
        some (.obj (member :: members), rest)
    | text => scanPlain text

/-- The items after an item. -/
def scanItems : Nat → List Char → Option (List Json × List Char)
  | 0, _ => none
  | fuel + 1, text =>
    match skipSpaces text with
    | ']' :: rest => some ([], rest)
    | ',' :: rest => do
      let (item, rest) ← scanValue fuel (skipSpaces rest)
      let (items, rest) ← scanItems fuel rest
      some (item :: items, rest)
    | _ => none

/-- A key, a colon and a value. -/
def scanMember : Nat → List Char → Option ((List Char × Json) × List Char)
  | 0, _ => none
  | fuel + 1, text =>
    match text with
    | '"' :: rest => do
      let (key, rest) ← scanString rest
      match skipSpaces rest with
      | ':' :: rest => do
        let (value, rest) ← scanValue fuel (skipSpaces rest)
        some ((key, value), rest)
      | _ => none
    | _ => none

/-- The members after a member. -/
def scanMembers : Nat → List Char → Option (List (List Char × Json) × List Char)
  | 0, _ => none
  | fuel + 1, text =>
    match skipSpaces text with
    | '}' :: rest => some ([], rest)
    | ',' :: rest => do
      let (member, rest) ← scanMember fuel (skipSpaces rest)
      let (members, rest) ← scanMembers fuel rest
      some (member :: members, rest)
    | _ => none

end

/-- `json.loads`, with objects as their pairs in order. -/
def loads (text : List Char) : Option Json :=
  match scanValue (2 * text.length + 2) (skipSpaces text) with
  | some (value, rest) => if (skipSpaces rest).isEmpty then some value else none
  | none => none

/-! ## Text without blank space -/

mutual

/-- The text of a value without blank space, its strings all ASCII. -/
def compact : Json → List Char
  | .null => "null".toList
  | .bool true => "true".toList
  | .bool false => "false".toList
  | .int value => printInt value
  | .float text => text
  | .str text => printString text
  | .arr items => '[' :: compactItems items
  | .obj members => '{' :: compactMembers members

def compactItems : List Json → List Char
  | [] => [']']
  | [item] => compact item ++ [']']
  | item :: items => compact item ++ ',' :: compactItems items

def compactMembers : List (List Char × Json) → List Char
  | [] => ['}']
  | [(key, value)] => printString key ++ ':' :: compact value ++ ['}']
  | (key, value) :: members =>
    printString key ++ ':' :: compact value ++ ',' :: compactMembers members

end

end Json

end AxiomEncode.Theory
