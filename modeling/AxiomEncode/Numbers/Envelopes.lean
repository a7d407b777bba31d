/-
# Numbers.Envelopes -- the spans of numbers in a text

`_iter_locale_numeric_envelopes` reserves the text of each number before it is parsed: from a decimal
digit the grammar is advanced to the right as far as it goes, and points, commas and a sign before the
digit are taken from the left.
-/
import AxiomEncode.Numbers.Locale
import AxiomEncode.Theory.PyNumber

namespace AxiomEncode.Numbers.Envelopes

open Theory

set_option autoImplicit false

/-- `_NUMERIC_EXTRACTION_PROFILES` -/
inductive Profile where
  | legacy
  | enUS
  | enGB
  | deDE
  | daDK
  deriving DecidableEq

/-- `profile in _DECIMAL_COMMA_NUMERIC_PROFILES` -/
def Profile.decimalComma (profile : Profile) : Bool := profile = .deDE || profile = .daDK

/-- A text in a profile, with what is known of its context. -/
structure Source where
  text : List Char
  profile : Profile
  /-- The merged spans of `boundaries`, in order. -/
  walls : List (Nat × Nat) := []
  /-- `index in ordinal_list_separator_indices` -/
  isListSeparator : Nat → Bool := fun _ => false
  /-- `unicodedata.category(character) == "Lu"` -/
  isUpper : Char → Bool

/-! ## Characters -/

/-- The digits of `str.isdigit` that are not decimal. -/
def otherDigits : List (Nat × Nat) :=
  [(0xb2, 0xb3), (0xb9, 0xb9), (0x1369, 0x1371), (0x19da, 0x19da), (0x2070, 0x2070), (0x2074, 0x2079),
    (0x2080, 0x2089), (0x2460, 0x2468), (0x2474, 0x247c), (0x2488, 0x2490), (0x24ea, 0x24ea),
    (0x24f5, 0x24fd), (0x24ff, 0x24ff), (0x2776, 0x277e), (0x2780, 0x2788), (0x278a, 0x2792),
    (0x10a40, 0x10a43), (0x10e60, 0x10e68), (0x11052, 0x1105a), (0x1f100, 0x1f10a)]

/-- `\d` of a pattern, `str.isdecimal` -/
def isDecimal (c : Char) : Bool := (digit? c).isSome

/-- `str.isdigit` of a character -/
def isDigitChar (c : Char) : Bool :=
  isDecimal c || otherDigits.any fun range => range.1 ≤ c.toNat && c.toNat ≤ range.2

def isSign (c : Char) : Bool := c ∈ unarySigns

def isPoint (c : Char) : Bool := c = '.' || c = ','

def isExponent (c : Char) : Bool := c = 'E' || c = 'e'

/-- `_LOCALE_UNARY_PREFIXES` -/
def unaryPrefixes : List Char :=
  "([\x7b=:;,+*/|<>!%^&~?".toList ++
    ['\u2022', '\u00b7', '\u00d7', '\u00f7', '\u2219', '\u2260', '\u2264', '\u2265']

namespace Source

variable (source : Source)

def danish : Bool := source.profile = .daDK

/-- The grouping spaces of the profile. -/
def isGrouping (c : Char) : Bool :=
  if source.danish then c ∈ danishGroupingSpaces else c ∈ groupingSpaces

/-- A joiner that the profile reads over. -/
def isJoiner (c : Char) : Bool := source.danish && c ∈ joinerFormatCharacters

/-- The character at an index has a property. -/
def has (property : Char → Bool) (index : Nat) : Bool := source.text[index]?.any property

/-! ## Runs -/

/-- The end of the characters of a property from an index on. -/
def runFrom (property : Char → Bool) (index : Nat) : Nat :=
  index + ((source.text.drop index).takeWhile property).length

/-- `_next_numeric_joiner_end`, only in the profile that has joiners. -/
def joinerEnd (index : Nat) : Nat := source.runFrom source.isJoiner index

/-- `_numeric_grammar_run_end`: a run with its joiners, and how many of its characters are no joiners. -/
def grammarRunEnd (property : Char → Bool) (index : Nat) : Nat × Nat :=
  let stop := source.runFrom (fun c => property c || source.isJoiner c) index
  (stop, (((source.text.take stop).drop index).filter property).length)

/-- The index behind the last character before `cursor`, from `lower` on, without the property. -/
def skipBack (property : Char → Bool) (lower : Nat) : Nat → Nat
  | 0 => 0
  | cursor + 1 =>
    if lower ≤ cursor && source.has property cursor then skipBack property lower cursor else cursor + 1

/-- The walk to the left over characters of a property and joiners; it ends at the last one of the property. -/
def walkBack (property : Char → Bool) (found : Nat) : Nat → Nat
  | 0 => found
  | cursor + 1 =>
    if source.has property cursor then walkBack property cursor cursor
    else if source.has source.isJoiner cursor then walkBack property found cursor
    else found

/-! ## Sentence markers -/

/-- At most `count` more digits of a marker, with the joiners before each. -/
def markerDigits : Nat → Nat → Nat → Nat × Nat
  | 0, index, digits => (index, digits)
  | count + 1, index, digits =>
    let index := source.joinerEnd index
    if source.has isDecimal index then markerDigits count (index + 1) (digits + 1) else (index, digits)

/-- `_locale_glued_sentence_marker_end` -/
def gluedMarkerEnd (dot : Nat) : Option Nat :=
  if source.text[dot]? = some '.' then
    let (stop, digits) := source.markerDigits 2 (dot + 1) 0
    let stop := source.joinerEnd stop
    if 0 < digits ∧ source.has source.isUpper stop then some stop else none
  else none

/-- The marker of a point, in the profiles that have them. -/
def markerEnd (dot : Nat) : Option Nat :=
  if source.profile.decimalComma then source.gluedMarkerEnd dot else none

/-! ## The grammar -/

end Source

/-- `_LocaleNumericGrammarState` -/
structure State where
  exponentSeen : Bool := false
  exponentDigitsSeen : Bool := false
  deriving DecidableEq

namespace Source

variable (source : Source)

/-- `_locale_numeric_envelope_grammar_accepts` -/
def accepts (c : Char) : Bool :=
  isDigitChar c || isPoint c || isExponent c || source.isGrouping c || isSign c || source.isJoiner c

/-- A run of separators goes on to a digit, or is invalid where it ends. -/
def advanceRun (property : Char → Bool) (index : Nat) (state : State) : Option (Nat × State × Bool) :=
  let (stop, count) := source.grammarRunEnd property index
  if source.has isDigitChar stop then some (stop, state, false)
  else if source.danish && 2 ≤ count then some (stop, state, true)
  else none

/-- `_advance_locale_numeric_grammar`: the next index and state, and whether the end is invalid. -/
def advance (index : Nat) (state : State) : Option (Nat × State × Bool) :=
  match source.text[index]? with
  | none => none
  | some c =>
    if !source.accepts c then none
    else if isDigitChar c then
      some (index + 1, ⟨state.exponentSeen, state.exponentDigitsSeen || state.exponentSeen⟩, false)
    else if source.isJoiner c then none
    else if (source.markerEnd index).isSome then none
    else if isPoint c then
      if source.danish && source.isListSeparator index then none
      else source.advanceRun isPoint index state
    else if source.isGrouping c then source.advanceRun source.isGrouping index state
    else if isExponent c && !state.exponentSeen then some (index + 1, ⟨true, false⟩, false)
    else if isSign c && state.exponentSeen && !state.exponentDigitsSeen then some (index + 1, state, false)
    else none

/-- One iteration of the loop to the right: joiners are read over. -/
def advanceOver (index : Nat) (state : State) : Option (Nat × State × Bool) :=
  source.advance (source.joinerEnd index) state

end Source

/-- Why the loop to the right ended. -/
inductive Ending where
  | stuck
  | terminalInvalid
  | marker (stop : Nat)
  deriving DecidableEq

/-- The part of an envelope from its first digit on. -/
structure Scan where
  digit : Nat
  stop : Nat
  state : State
  ending : Ending
  deriving DecidableEq

/-- `max(index, reserved_until)` -/
def Scan.occupiedUntil (scan : Scan) : Nat :=
  match scan.ending with
  | .marker stop => max scan.stop stop
  | _ => scan.stop

namespace Source

variable (source : Source)

/-- The loop to the right, where `fuel` bounds its iterations. -/
def scanFrom (digit : Nat) : Nat → Nat → State → Scan
  | 0, index, state => ⟨digit, index, state, .stuck⟩
  | fuel + 1, index, state =>
    match source.markerEnd index with
    | some stop => ⟨digit, index, state, .marker stop⟩
    | none =>
      match source.advanceOver index state with
      | none => ⟨digit, index, state, .stuck⟩
      | some (next, state, true) => ⟨digit, next, state, .terminalInvalid⟩
      | some (next, state, false) => scanFrom digit fuel next state

def scan (digit : Nat) : Scan := source.scanFrom digit (source.text.length + 1) digit {}

/-! ## The left edge -/

/-- The wall at or before a position. -/
def wallBefore (position : Nat) : Option (Nat × Nat) :=
  (source.walls.takeWhile fun wall => wall.1 ≤ position).getLast?

/-- `_locale_sign_is_unary` -/
def signIsUnary (sign : Nat) : Bool :=
  if (source.wallBefore sign).any fun wall => sign ≤ wall.2 then false
  else
    let lower := ((source.wallBefore sign).map Prod.snd).getD 0
    let cursor :=
      if source.danish && source.has (· ∈ minusSigns) sign then source.skipBack source.isJoiner lower sign
      else source.skipBack (fun c => c ∈ groupingSpaces || source.isJoiner c) lower sign
    if cursor ≤ lower then lower = 0
    else source.has (fun c => isSpace c || c ∈ unaryPrefixes || isSign c) (cursor - 1)

/-- The start of an envelope, from its first digit. -/
def leftEdge (digit : Nat) : Nat :=
  let start := source.walkBack isPoint digit digit
  let cursor := source.skipBack source.isJoiner 0 (source.walkBack source.isGrouping start start)
  let sign := cursor - 1
  let isCandidate := 0 < cursor && source.has isSign sign &&
    (!source.danish || source.has (· = '+') sign || source.joinerEnd cursor = digit)
  if isCandidate then
    -- a repeated sign is taken whole, and unchecked
    let run := source.walkBack isSign sign sign
    if source.danish && run < sign then run
    else if source.signIsUnary sign then sign
    else start
  else start

/-! ## The envelopes -/

/-- The marker whose point stands before a digit. -/
def markerBefore (digit : Nat) : Option Nat :=
  let cursor := source.skipBack source.isJoiner 0 digit
  if 0 < cursor then source.markerEnd (cursor - 1) else none

/-- The loop over the digits of the text that are left. -/
def scansFrom : Nat → List Nat → List Scan
  | _, [] => []
  | occupied, digit :: digits =>
    if digit < occupied then scansFrom occupied digits
    else
      match source.markerBefore digit with
      | some stop => scansFrom stop digits
      | none =>
        let scan := source.scan digit
        scan :: scansFrom scan.occupiedUntil digits

def digits : List Nat := (List.range source.text.length).filter (source.has isDecimal)

def scans : List Scan := source.scansFrom 0 source.digits

def envelopeOf (scan : Scan) : Nat × Nat := (source.leftEdge scan.digit, scan.stop)

/-- `_iter_locale_numeric_envelopes` -/
def envelopes : List (Nat × Nat) := source.scans.map source.envelopeOf

end Source

example : (Source.mk "ab -1.500,5 2e-3".toList .daDK [] (fun _ => false) (fun _ => false)).envelopes =
    [(3, 11), (12, 16)] := by
  decide

end AxiomEncode.Numbers.Envelopes
