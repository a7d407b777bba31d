/-
# Numbers.Cardinal -- English number words

The strict parser reads groups below a thousand between strictly decreasing scales; the
lenient one adds what it meets and multiplies at a scale; the word sequence adds only.
All values are whole numbers.  The source holds them as floats, which are exact below
`2 ^ 53`; a phrase that the strict parser accepts stays below `10 ^ 12` in both parsers.
-/
import AxiomEncode.Theory.PyText

namespace AxiomEncode.Numbers

open Theory

set_option autoImplicit false

abbrev Text := List Char

/-! ## Words -/

/-- `_CARDINAL_WORD_VALUES` -/
def cardinalWordValues : List (String × Nat) :=
  [("zero", 0), ("one", 1), ("two", 2), ("three", 3), ("four", 4), ("five", 5), ("six", 6),
    ("seven", 7), ("eight", 8), ("nine", 9), ("ten", 10), ("eleven", 11), ("twelve", 12),
    ("thirteen", 13), ("fourteen", 14), ("fifteen", 15), ("sixteen", 16), ("seventeen", 17),
    ("eighteen", 18), ("nineteen", 19), ("twenty", 20), ("thirty", 30), ("forty", 40),
    ("fifty", 50), ("sixty", 60), ("seventy", 70), ("eighty", 80), ("ninety", 90)]

/-- `_CARDINAL_SCALE_WORD_VALUES` -/
def cardinalScaleWordValues : List (String × Nat) :=
  [("hundred", 100), ("thousand", 1000), ("million", 1000000), ("billion", 1000000000)]

/-- `table.get(token)` -/
def lookUp (table : List (String × Nat)) (token : Text) : Option Nat :=
  (table.find? fun entry => entry.1.toList == token).map Prod.snd

def cardinalValue (token : Text) : Option Nat := lookUp cardinalWordValues token

def scaleValue (token : Text) : Option Nat := lookUp cardinalScaleWordValues token

def hundred : Text := "hundred".toList

def and_ : Text := "and".toList

/-- `text.lower()`, as far as number words go: they have no letter that a letter outside
ASCII is lowered to. -/
def lower (text : Text) : Text := text.map Char.toLower

/-- `re.split(r"[-\s]+", text.strip().lower())`, without the empty tokens. -/
def words (text : Text) : List Text :=
  ((lower (strip text)).splitOnP fun c => c == '-' || isSpace c).filter fun token => !token.isEmpty

/-! ## The strict parser -/

/-- `{20, 30, 40, 50, 60, 70, 80, 90}` -/
def isTens (value : Nat) : Bool := [20, 30, 40, 50, 60, 70, 80, 90].contains value

/-- The group after its hundreds: a word, or tens and units. -/
def parseUnderHundred (total : Nat) : List Text → Option Nat
  | [word] => (cardinalValue word).map (total + ·)
  | [first, second] => do
    let tens ← cardinalValue first
    let units ← cardinalValue second
    if isTens tens && (1 ≤ units && units ≤ 9) then some (total + tens + units) else none
  | _ => none

/-- `parse_under_thousand` -/
def parseUnderThousand : List Text → Option Nat
  | first :: second :: rest =>
    if second = hundred then do
      let hundreds ← cardinalValue first
      if 1 ≤ hundreds && hundreds ≤ 9 then
        if rest.isEmpty then some (hundreds * 100) else parseUnderHundred (hundreds * 100) rest
      else none
    else parseUnderHundred 0 (first :: second :: rest)
  | group => parseUnderHundred 0 group

/-- The loop over the tokens; there is no previous scale at first (`math.inf`). -/
def strictLoop (total : Nat) (group : List Text) (previousScale : Option Nat) :
    List Text → Option Nat
  | [] => if group.isEmpty then some total else (parseUnderThousand group).map (total + ·)
  | token :: rest =>
    match scaleValue token with
    | none => strictLoop total (group ++ [token]) previousScale rest
    | some scale =>
      if scale = 100 then strictLoop total (group ++ [token]) previousScale rest
      else if previousScale.any (· ≤ scale) then none
      else do
        let parsedGroup ← parseUnderThousand group
        strictLoop (total + parsedGroup * scale) [] (some scale) rest

/-- `value or None` -/
def nonzero (value : Nat) : Option Nat := if value = 0 then none else some value

def withoutAnd (tokens : List Text) : List Text := tokens.filter fun token => token ≠ and_

/-- `_parse_strict_cardinal_number_words` -/
def parseStrictCardinalNumberWords (text : Text) : Option Nat :=
  let tokens := words text
  if tokens.head?.all (· = and_) || tokens.getLast? = some and_ then none
  else (strictLoop 0 [] none (withoutAnd tokens)).bind nonzero

/-! ## The lenient parsers -/

/-- `value or 1` -/
def orOne (value : Nat) : Nat := if value = 0 then 1 else value

/-- The loop over the tokens. -/
def lenientLoop (total current : Nat) : List Text → Option Nat
  | [] => some (total + current)
  | token :: rest =>
    match cardinalValue token with
    | some value => lenientLoop total (current + value) rest
    | none =>
      match scaleValue token with
      | none => none
      | some scale =>
        if scale = 100 then lenientLoop total (orOne current * scale) rest
        else lenientLoop (total + orOne current * scale) 0 rest

/-- `_parse_cardinal_number_words`.  Every token that the loop passes is a number, so
`seen_number` holds behind it. -/
def parseCardinalNumberWords (text : Text) : Option Nat :=
  match withoutAnd (words text) with
  | [] => none
  | first :: rest => do
    let value ← lenientLoop 0 0 (first :: rest)
    -- a lone word, and no scale
    if rest.isEmpty && (scaleValue first).isNone then cardinalValue first else some value

/-- `_parse_cardinal_word_sequence` -/
def parseCardinalWordSequence (text : Text) : Option Nat :=
  match withoutAnd (words text) with
  | [] => none
  | tokens => (tokens.mapM cardinalValue).map List.sum

end AxiomEncode.Numbers
