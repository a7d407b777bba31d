/-
# Numbers.Locale -- numbers written in a locale

`_valid_grouped_integer` and `_parse_locale_numeric_envelope` of the four locale profiles.
`str.isdigit` and `\d` are the ASCII digits, and `float` is the exact decimal value.
-/
import AxiomEncode.Theory.Digits
import AxiomEncode.Theory.PyText
import Mathlib.Data.List.Dedup
import Mathlib.Data.Rat.Defs
import Mathlib.Algebra.Field.Rat

namespace AxiomEncode.Numbers

open Theory

set_option autoImplicit false

inductive Profile where
  | enUS
  | enGB
  | deDE
  | daDK
  deriving DecidableEq

namespace Profile

/-- `_DECIMAL_COMMA_NUMERIC_PROFILES` -/
def decimalComma : Profile → Bool
  | enUS | enGB => false
  | deDE | daDK => true

end Profile

/-- `_LOCALE_NUMERIC_GROUPING_SPACES` -/
def groupingSpaces : List Char := [' ', '\u00a0', '\u202f']

/-- `_DANISH_NUMERIC_GROUPING_SPACES` -/
def danishGroupingSpaces : List Char := ['\u00a0', '\u202f']

/-- `_DANISH_NUMERIC_JOINER_FORMAT_CHARACTERS` -/
def joinerFormatCharacters : List Char := ['\u200d', '\u200c', '\u2060', '\u00ad', '\ufeff']

/-- `_LOCALE_UNARY_SIGNS` -/
def unarySigns : List Char := ['+', '-', '\u2013', '\u2212']

def minusSigns : List Char := ['-', '\u2013', '\u2212']

/-- `str.isdigit` -/
def isDigit (text : List Char) : Bool := !text.isEmpty && text.all Char.isDigit

/-- The tests on the groups of `raw.split(separator)`. -/
def validGroups : List (List Char) → Bool
  | [] => false
  | first :: rest =>
    isDigit first && (1 ≤ first.length && first.length ≤ 3)
      && !(1 < first.length && first.head? = some '0')
      && rest.all fun group => group.length = 3 && isDigit group

/-- `_valid_grouped_integer`: the digits of a valid integer. -/
def validGroupedInteger (raw : List Char) (allowedSeparators : List Char) : Option (List Char) :=
  match (raw.filter fun c => allowedSeparators.contains c).dedup with
  | [] => if isDigit raw then some raw else none
  | [separator] =>
    if validGroups (raw.splitOn separator) then some (raw.splitOn separator).flatten else none
  | _ => none

/-- `[Ee][+\-\u2013\u2212]?\d+`, the whole text. -/
def isExponent : List Char → Bool
  | [] => false
  | mark :: rest =>
    (mark = 'E' || mark = 'e')
      && (isDigit rest
        || match rest with
          | [] => false
          | sign :: digits => unarySigns.contains sign && isDigit digits)

/-- `(?P<mantissa>.+?)(?P<exponent>[Ee][+\-\u2013\u2212]?\d+)?` on the whole text: the
mantissa takes a character, and a further one only where the rest is no exponent. -/
def scientific : List Char → Option (List Char × List Char)
  | [] => none
  | c :: rest =>
    if c = '\n' then none
    else if rest.isEmpty || isExponent rest then some ([c], rest)
    else (scientific rest).map fun found => (c :: found.1, found.2)

/-- `text.partition(separator)` -/
def partition (separator : Char) : List Char → List Char × Bool × List Char
  | [] => ([], false, [])
  | c :: rest =>
    if c = separator then ([], true, rest)
    else
      let found := partition separator rest
      (c :: found.1, found.2)

/-- The number behind the mark of an exponent. -/
def exponentValue : List Char → Int
  | [] => 0
  | _ :: [] => 0
  | _ :: sign :: digits =>
    if minusSigns.contains sign then -digitsValue digits
    else if sign = '+' then digitsValue digits
    else digitsValue (sign :: digits)

/-- `float(integer + "." + fraction + exponent)` -/
def floatOf (integer fraction exponent : List Char) : ℚ :=
  digitsValue (integer ++ fraction) * 10 ^ (exponentValue exponent - fraction.length)

namespace Profile

def decimalPoint (profile : Profile) : Char := if profile.decimalComma then ',' else '.'

/-- `allowed_separators` -/
def separators : Profile → List Char
  | enUS | enGB => [',']
  | deDE => '.' :: groupingSpaces
  | daDK => '.' :: danishGroupingSpaces

end Profile

/-- A mantissa and its exponent. -/
def parseMantissa (profile : Profile) (mantissa exponent : List Char) : Option ℚ :=
  let (integer, point, fraction) := partition profile.decimalPoint mantissa
  if 1 < mantissa.count profile.decimalPoint then none
  else if point && !isDigit fraction then none
  else (validGroupedInteger integer profile.separators).map fun normalizedInteger =>
    floatOf normalizedInteger fraction exponent

/-- The sign in front, and what stands behind it and its spaces. -/
def splitSign (stripped : List Char) : ℚ × List Char :=
  match stripped with
  | [] => (1, [])
  | sign :: rest =>
    if unarySigns.contains sign then
      (if minusSigns.contains sign then -1 else 1,
        rest.dropWhile fun c => groupingSpaces.contains c)
    else (1, sign :: rest)

/-- Without the joiners, which only da-DK drops. -/
def withoutJoiners (profile : Profile) (raw : List Char) : List Char :=
  if profile = .daDK then raw.filter fun c => !joinerFormatCharacters.contains c else raw

/-- da-DK refuses a grouping space at an edge. -/
def brokenEdge (profile : Profile) (raw : List Char) : Bool :=
  profile = .daDK
    && (raw.head?.any danishGroupingSpaces.contains || raw.getLast?.any danishGroupingSpaces.contains)

/-- `_parse_locale_numeric_envelope` -/
def parseLocaleNumericEnvelope (raw : List Char) (profile : Profile) : Option ℚ :=
  let raw := withoutJoiners profile raw
  if brokenEdge profile raw then none
  else
    let (sign, stripped) := splitSign (stripChars (fun c => groupingSpaces.contains c) raw)
    match scientific stripped with
    | none => none
    | some (mantissa, exponent) => (parseMantissa profile mantissa exponent).map (sign * ·)

end AxiomEncode.Numbers
