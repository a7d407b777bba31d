/-
# Corpus.Markers -- the kinds of a parenthesised legal marker

`(i)` can be the ninth letter or the first roman numeral.  A marker token is
read as every kind it can be (`legalMarkerKindOrdinals`), and a depth of the
hierarchy expects one kind (`legalMarkerKindForLevel`): letters at the top, then
a cycle that a regulation and a statute run differently.
-/
import AxiomEncode.Theory.Regex

namespace AxiomEncode.Corpus

open Theory

set_option autoImplicit false

abbrev Text := List Char

def maxLegalMarkerTokenLength : Nat := 32

inductive MarkerKind where
  | numeric
  | lowerAlpha
  | upperAlpha
  | lowerRoman
  | upperRoman
  deriving DecidableEq, Repr

/-- The ASCII digits, `[0-9]`. -/
def isAsciiDigit (c : Char) : Bool := '0' ≤ c && c ≤ '9'

def isAsciiLower (c : Char) : Bool := 'a' ≤ c && c ≤ 'z'

def isAsciiUpper (c : Char) : Bool := 'A' ≤ c && c ≤ 'Z'

def isAsciiAlnum (c : Char) : Bool := isAsciiDigit c || isAsciiLower c || isAsciiUpper c

/-- `int(digits)` of a run of ASCII digits. -/
def decimalValue (digits : Text) : Nat :=
  digits.foldl (fun value c => 10 * value + (c.toNat - '0'.toNat)) 0

section Roman

/-- One decimal place of a roman numeral: `(?:ix|iv|v?i{0,3})` at `i`, `v`, `x`. -/
private def romanPlace (one five ten : Char) : Regex :=
  .anyOf [.literal [one, ten], .literal [one, five],
    .seq (.opt (.char five)) (.upTo (.char one) 3)]

/-- `M{0,3}(?:CM|CD|D?C{0,3})(?:XC|XL|L?X{0,3})(?:IX|IV|V?I{0,3})`, lowered unless
`uppercase`. -/
def romanPattern (uppercase : Bool) : Regex :=
  if uppercase then
    .sequence [.upTo (.char 'M') 3, romanPlace 'C' 'D' 'M', romanPlace 'X' 'L' 'C',
      romanPlace 'I' 'V' 'X']
  else
    .sequence [.upTo (.char 'm') 3, romanPlace 'c' 'd' 'm', romanPlace 'x' 'l' 'c',
      romanPlace 'i' 'v' 'x']

def isCanonicalRomanMarker (token : Text) (uppercase : Bool) : Bool :=
  !token.isEmpty && (romanPattern uppercase).fullMatch token

def romanDigit : Char → Option Nat
  | 'i' => some 1
  | 'v' => some 5
  | 'x' => some 10
  | 'l' => some 50
  | 'c' => some 100
  | 'd' => some 500
  | 'm' => some 1000
  | _ => none

/-- The loop of `romanMarkerToInt` over the reversed token: a smaller digit left
of a larger one counts against it. -/
def romanTotal : Text → Int → Nat → Option Int
  | [], total, _ => some total
  | c :: rest, total, previous =>
    match romanDigit c with
    | none => none
    | some value =>
      if value < previous then romanTotal rest (total - value) previous
      else romanTotal rest (total + value) value

/-- The value of a lower-case numeral; `none` also for a total of zero. -/
def romanMarkerToInt (token : Text) : Option Int :=
  match romanTotal token.reverse 0 0 with
  | some total => if total = 0 then none else some total
  | none => none

end Roman

def lowerAscii (token : Text) : Text :=
  token.map fun c => if isAsciiUpper c then Char.ofNat (c.toNat + 32) else c

/-- Every kind a token can be, with its ordinal in that kind. -/
def legalMarkerKindOrdinals (token : Text) : List (MarkerKind × Int) :=
  if maxLegalMarkerTokenLength < token.length then []
  else
    let numeric :=
      match token with
      | c :: rest =>
        if '1' ≤ c ∧ c ≤ '9' ∧ rest.all isAsciiDigit then
          [(MarkerKind.numeric, (decimalValue token : Int))]
        else []
      | [] => []
    let alpha :=
      match token with
      | [c] =>
        if isAsciiLower c then [(MarkerKind.lowerAlpha, (c.toNat - 'a'.toNat + 1 : Int))]
        else if isAsciiUpper c then [(MarkerKind.upperAlpha, (c.toNat - 'A'.toNat + 1 : Int))]
        else []
      | _ => []
    let roman (uppercase : Bool) (kind : MarkerKind) :=
      if isCanonicalRomanMarker token uppercase then
        ((romanMarkerToInt (lowerAscii token)).map fun value => (kind, value)).toList
      else []
    numeric ++ alpha ++ roman false .lowerRoman ++ roman true .upperRoman

/-- The kind the hierarchy expects at a depth. -/
def legalMarkerKindForLevel (level : Nat) (documentClass : String) : MarkerKind :=
  if level = 0 then .lowerAlpha
  else if documentClass = "regulation" then
    match (level - 1) % 3 with
    | 0 => .numeric
    | 1 => .lowerRoman
    | _ => .upperAlpha
  else
    match (level - 1) % 4 with
    | 0 => .numeric
    | 1 => .upperAlpha
    | 2 => .lowerRoman
    | _ => .upperRoman

end AxiomEncode.Corpus
