/-
# Corpus.Siblings -- the pattern of the numerals behind a numeral

A slice of a parent's text ends at the first marker that can be a sibling of the marker it
starts at.  `followingNumericStemMarker` writes "a greater number" as a pattern: one alternative for
each digit of the number that can be raised, with the digits before it kept and any digits behind it,
and one for the numbers of more digits.
-/
import AxiomEncode.Corpus.Markers
import AxiomEncode.Theory.PyNumber

namespace AxiomEncode.Corpus

open Theory

set_option autoImplicit false

def isDigitFrom (low : Nat) (c : Char) : Bool := low.digitChar ≤ c && c ≤ '9'

/-- `[low-9]` -/
def digitFrom (low : Nat) : Regex := .set (isDigitFrom low)

/-- `int(digits)` of a run of decimal digits: a text of more than 4300 is refused. -/
def intOfDigits (digits : Text) : Option Nat :=
  if allDigits digits && digits.length ≤ 4300 then some (readDigits digits) else none

/-- The alternative of the loop for the digit at an index: there is none above a nine. -/
def sameWidthPattern (digits : Text) (index : Nat) (digit : Char) : Option Regex :=
  let lower := (digit? digit).getD 0 + 1
  let lower := if index = 0 then max lower 1 else lower
  if lower > 9 then none
  else
    let suffixLength := digits.length - index - 1
    some (.seq (.literal (digits.take index))
      (.seq (digitFrom lower) (.times (digitFrom 0) suffixLength)))

/-- The alternatives of the loop. -/
def sameWidthPatterns (digits : Text) : List Regex :=
  digits.zipIdx.filterMap fun (digit, index) => sameWidthPattern digits index digit

/-- The alternative of the numbers with more digits. -/
def longerWidth (digits : Text) : Regex :=
  .seq (digitFrom 1) (.atLeast (digitFrom 0) digits.length)

/-- `_following_numeric_stem_marker` -/
def followingNumericStemMarker (stem : Text) : Option Regex :=
  (intOfDigits stem).map fun value =>
    let digits := Nat.toDigits 10 value
    .anyOf (sameWidthPatterns digits ++ [longerWidth digits])

end AxiomEncode.Corpus
