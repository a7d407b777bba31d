/-
# Corpus.Delimiters -- which markers stand inside quotes or brackets

`delimiterEnclosedMarkerStarts` replays the delimiters of a text once, from its start,
and reports the marker offsets at which some quotation or bracket is open.  A prepass
(`Census`) counts what the replay may still expect; the replay keeps a stack of open
constructs, the run lengths of equal frames, and two counters over the stack.

What a mark means is partly guessed: an apostrophe in a word, a possessive, an inch
mark, a quotation that is opened again at each paragraph.  The guesses look at the text
around the mark and at the counters, never at the markers.

`Unicode` holds the character properties that Python takes from its database.
-/
import AxiomEncode.Corpus.Markers
import AxiomEncode.Theory.Checkpoints
import AxiomEncode.Theory.PyText

namespace AxiomEncode.Corpus

open Theory

set_option autoImplicit false

def maxUsLegalHierarchyMarkers : Nat := 4096
def maxDelimiterNestingDepth : Nat := 256
def maxInternalMarkEvidenceChars : Nat := 64
def maxDelimiterReplayTokens : Nat := 1000000

/-- The character properties the replay asks for. -/
structure Unicode where
  isAlnum : Char → Bool
  isUpper : Char → Bool
  isDigit : Char → Bool
  /-- `\d` of a pattern. -/
  isDecimal : Char → Bool

/-- `\w` of a pattern. -/
def Unicode.isWord (unicode : Unicode) (c : Char) : Bool := unicode.isAlnum c || c = '_'

inductive ReplayError where
  /-- `CorpusSourceSliceError` -/
  | slice (detail : String)
  /-- Python's own errors, of an empty stack and of a missing counter. -/
  | indexError
  | keyError
  deriving DecidableEq, Repr

/-- Why a repeated quotation opener was recognised. -/
inductive ContinuationKind where
  | line
  | colonSentence
  deriving DecidableEq, Repr

/-- An open construct. -/
structure Frame where
  opening : Text
  closing : Text
  offset : Nat
  continuation : Option ContinuationKind := none
  deriving DecidableEq, Repr

namespace Frame

def pair (frame : Frame) : Text × Text := (frame.opening, frame.closing)

end Frame

/-! ## Tokens -/

def backtick : Char := '\x60'

def quotePair : Char → Option Char
  | '“' => some '”'
  | '‘' => some '’'
  | '«' => some '»'
  | '‹' => some '›'
  | _ => none

def directionalCloser : Char → Option Char
  | '”' => some '“'
  | '’' => some '‘'
  | '»' => some '«'
  | '›' => some '‹'
  | _ => none

def bracketPair : Char → Option Char
  | '(' => some ')'
  | '[' => some ']'
  | '{' => some '}'
  | _ => none

def bracketCloser : Char → Option Char
  | ')' => some '('
  | ']' => some '['
  | '}' => some '{'
  | _ => none

/-- The keys of `directional_remaining`. -/
def isDirectional (c : Char) : Bool := (quotePair c).isSome || (directionalCloser c).isSome

/-- The keys of `symmetric_open_remaining`. -/
def isSymmetric (c : Char) : Bool := c = '"' || c = '\''

def isDelimiterToken (c : Char) : Bool :=
  isDirectional c || (bracketPair c).isSome || (bracketCloser c).isSome || isSymmetric c || c = backtick

/-! ## The neighbourhood of a character -/

/-- `text[max(0, offset - reach) : offset]` -/
def textBefore (text : Text) (reach offset : Nat) : Text :=
  Regex.slice text (offset - reach) offset

/-- The character before a run of backslashes that ends before `index`. -/
def lexicalPrevious (text : Text) (index backslashes : Nat) : Option Char :=
  if backslashes < index then text[index - backslashes - 1]? else none

def isInsideWord (unicode : Unicode) (previous following : Option Char) : Bool :=
  previous.any unicode.isAlnum && following.any unicode.isAlnum

def openingContext (previous following : Option Char) : Bool :=
  previous.all (fun c => isSpace c || "([\x7b<:;—–-".toList.contains c) &&
    following.any (!isSpace ·)

def closingContext (previous following : Option Char) : Bool :=
  previous.any (!isSpace ·) &&
    following.all fun c => isSpace c || ".,;:!?)]\x7d>—–-".toList.contains c

/-! ## Patterns -/

section Patterns

variable (unicode : Unicode)

private def blanks : Regex := .star (.oneOf [' ', '\t'])

private def spaces : Regex := .star (.set isSpace)

private def someSpaces : Regex := .plus (.set isSpace)

private def lineBreak : Regex := .seq (.opt (.char '\r')) (.char '\n')

private def wordBoundary : Regex := .boundary unicode.isWord

private def asciiLetters : Regex := .plus (.set fun c => isAsciiLower c || isAsciiUpper c)

/-- `(?:and|or)\b` -/
private def conjunction : Regex :=
  .seq (.anyOf [.ignoringCase "and", .ignoringCase "or"]) (wordBoundary unicode)

/-- `\n[ \t]*$` -/
def lineStartPattern : Regex := .sequence [.char '\n', blanks, .dollar]

/-- `:\s*$` -/
def colonPattern : Regex := .sequence [.char ':', spaces, .dollar]

/-- `^;[ \t]*(?:and|or)\b[ \t]*\r?\n[ \t]*\r?\n` -/
def colonSentenceTailPattern : Regex :=
  .sequence [.atStart, .char ';', blanks, conjunction unicode, blanks, lineBreak, blanks, lineBreak]

/-- `^(?:[.,;:!?][ \t]*)?(?:(?:and|or)\b[ \t]*)?(?:\r?\n[ \t]*\r?\n|$)` -/
def lineTailPattern : Regex :=
  .sequence [.atStart, .opt (.seq (.oneOf ['.', ',', ';', ':', '!', '?']) blanks),
    .opt (.seq (conjunction unicode) blanks), .alt (.sequence [lineBreak, blanks, lineBreak]) .dollar]

/-- `\b(?:term|word|label|phrase|name|expression)\b[\s,;:=—–()\[\]-]*(?:(?:the|a|an)\s+)?$` -/
def namedExpressionPattern : Regex :=
  .sequence [wordBoundary unicode,
    .anyOf (["term", "word", "label", "phrase", "name", "expression"].map .ignoringCase),
    wordBoundary unicode,
    .star (.set fun c => isSpace c || ",;:=—–()[]-".toList.contains c),
    .opt (.seq (.anyOf (["the", "a", "an"].map .ignoringCase)) someSpaces), .dollar]

/-- `([A-Za-z]+)$` -/
def precedingWordPattern : Regex := .seq (.group 1 asciiLetters) .dollar

/-- `^[\s,;:—–-]*([A-Za-z]+)` -/
def followingWordPattern : Regex :=
  .sequence [.atStart, .star (.set fun c => isSpace c || ",;:—–-".toList.contains c),
    .group 1 asciiLetters]

/-- `(?:^|\s)(?:a|an)\s+\d+(?:\.\d+)?$` -/
def measurementPattern : Regex :=
  .sequence [.alt .atStart (.set isSpace), .anyOf (["a", "an"].map .ignoringCase), someSpaces,
    .plus (.set unicode.isDecimal), .opt (.seq (.char '.') (.plus (.set unicode.isDecimal))), .dollar]

end Patterns

/-- `re.search` succeeds. -/
def searches (pattern : Regex) (text : Text) : Bool := (pattern.search text).isSome

/-- `re.match` succeeds. -/
def matchesAtStart (pattern : Regex) (text : Text) : Bool := (pattern.matchAt (.start text)).isSome

/-- `match.group(1)` -/
def firstGroup (stop : Cursor) : Option Text :=
  (stop.group? 1).map fun (a, b) => Regex.slice stop.text a b

def precedingWord (text : Text) : Option Text :=
  (precedingWordPattern.search text).bind fun m => firstGroup m.stop

def followingWord (text : Text) : Option Text :=
  (followingWordPattern.matchAt (.start text)).bind firstGroup

def quoteFollowingVerbs : List Text :=
  ["applies", "are", "denotes", "has", "includes", "is", "means", "refers", "shall",
    "was"].map String.toList

/-! ## The prepass -/

/-- What the replay may still expect, and the counts of the prepass. -/
structure Census where
  backslashRun : Nat := 0
  tokenCount : Nat := 0
  directionalRemaining : Char → Int := fun _ => 0
  symmetricOpenRemaining : Char → Int := fun _ => 0
  symmetricCloseRemaining : Char → Int := fun _ => 0

/-- `counter[c] += by` -/
def addTo (counter : Char → Int) (c : Char) (amount : Int) : Char → Int :=
  Function.update counter c (counter c + amount)

namespace Census

def count (unicode : Unicode) (text : Text) (census : Census) (index : Nat) (character : Char) :
    Except ReplayError Census :=
  if character = '\\' then .ok { census with backslashRun := census.backslashRun + 1 }
  else
    let escaped := census.backslashRun % 2 = 1
    let previous := lexicalPrevious text index census.backslashRun
    let following := text[index + 1]?
    let counted : Census :=
      { census with
        backslashRun := 0
        tokenCount :=
          if isDelimiterToken character && !escaped then census.tokenCount + 1
          else census.tokenCount }
    if maxDelimiterReplayTokens < counted.tokenCount then
      .error (.slice s!"Delimiter replay exceeds the bounded token limit of {maxDelimiterReplayTokens}")
    else if character = '’' && isInsideWord unicode previous following then .ok counted
    else if isDirectional character && !escaped then
      .ok { counted with
        directionalRemaining := addTo counted.directionalRemaining character 1 }
    else if isSymmetric character && !escaped then
      if character = '\'' && isInsideWord unicode previous following then .ok counted
      else if openingContext previous following then
        .ok { counted with
          symmetricOpenRemaining := addTo counted.symmetricOpenRemaining character 1 }
      else if closingContext previous following then
        .ok { counted with
          symmetricCloseRemaining := addTo counted.symmetricCloseRemaining character 1 }
      else .ok counted
    else .ok counted

def take (unicode : Unicode) (text : Text) : Except ReplayError Census :=
  text.zipIdx.foldlM (fun census (character, index) => census.count unicode text index character) {}

end Census

/-! ## The replay -/

structure Replay where
  index : Nat := 0
  backslashRun : Nat := 0
  /-- Innermost frame first. -/
  stack : List Frame := []
  /-- `same_pair_run_lengths`, of the innermost frame first. -/
  runLengths : List Nat := []
  pairCounts : Text × Text → Nat := fun _ => 0
  closingCounts : Text → Nat := fun _ => 0
  directionalRemaining : Char → Int
  symmetricOpenRemaining : Char → Int
  symmetricCloseRemaining : Char → Int
  malformedDelimiters : Bool := false

namespace Replay

def ofCensus (census : Census) : Replay :=
  { directionalRemaining := census.directionalRemaining
    symmetricOpenRemaining := census.symmetricOpenRemaining
    symmetricCloseRemaining := census.symmetricCloseRemaining }

/-- `delimiter_stack and delimiter_stack[-1][:2] == pair` -/
def tops (replay : Replay) (pair : Text × Text) : Bool := replay.stack.head?.any (·.pair = pair)

/-- `delimiter_stack and delimiter_stack[-1][1] == token` -/
def closesWith (replay : Replay) (token : Text) : Bool :=
  replay.stack.head?.any (·.closing = token)

def push (replay : Replay) (frame : Frame) : Except ReplayError Replay :=
  if maxDelimiterNestingDepth ≤ replay.stack.length then
    .error (.slice
      s!"Corpus delimiter nesting exceeds the bounded depth limit of {maxDelimiterNestingDepth}")
  else do
    let length ←
      if replay.tops frame.pair then
        match replay.runLengths.head? with
        | some length => .ok (length + 1)
        | none => .error .indexError
      else .ok 1
    .ok { replay with
      stack := frame :: replay.stack
      runLengths := length :: replay.runLengths
      pairCounts :=
        Function.update replay.pairCounts frame.pair (replay.pairCounts frame.pair + 1)
      closingCounts :=
        Function.update replay.closingCounts frame.closing (replay.closingCounts frame.closing + 1) }

def popFrame (replay : Replay) : Except ReplayError (Frame × Replay) :=
  match replay.stack, replay.runLengths with
  | frame :: stack, _ :: runLengths =>
    if replay.pairCounts frame.pair = 0 ∨ replay.closingCounts frame.closing = 0 then
      .error .keyError
    else
      .ok (frame, { replay with
        stack, runLengths
        pairCounts :=
          Function.update replay.pairCounts frame.pair (replay.pairCounts frame.pair - 1)
        closingCounts :=
          Function.update replay.closingCounts frame.closing
            (replay.closingCounts frame.closing - 1) })
  | _, _ => .error .indexError

/-- `pop_frame()` a number of times. -/
def popFrames : Nat → Replay → Except ReplayError Replay
  | 0, replay => .ok replay
  | count + 1, replay => do
    let (_, replay) ← replay.popFrame
    popFrames count replay

section Evidence

variable (unicode : Unicode) (text : Text)

def repeatedDirectionalContinuationKind (replay : Replay) (opening closing : Char)
    (offset : Nat) : Option ContinuationKind :=
  match replay.stack.head? with
  | none => none
  | some outer =>
    if outer.pair ≠ ([opening], [closing]) then none
    else
      let before := textBefore text 256 offset
      if searches lineStartPattern before then some .line
      else
        let outerPrefix := textBefore text 128 outer.offset
        let previousNonspace := (before.rdropWhile isSpace).getLast?
        if searches colonPattern outerPrefix &&
            previousNonspace.any (fun c => c = '.' || c = '!' || c = '?') &&
            text[offset + 1]?.any unicode.isUpper then
          some .colonSentence
        else none

def directionalCloseIsTerminal (offset : Nat) (kind : ContinuationKind) : Bool :=
  let tail := Regex.slice text (offset + 1) (offset + 257)
  match kind with
  | .colonSentence => matchesAtStart (colonSentenceTailPattern unicode) tail
  | .line => matchesAtStart (lineTailPattern unicode) tail

/-- `mark_has_positive_internal_apostrophe_or_measurement_evidence` -/
def markHasInternalEvidence (replay : Replay) (character : Char) (offset : Nat)
    (previous following : Option Char) : Bool :=
  if replay.stack.head?.any fun top =>
      searches (namedExpressionPattern unicode) (textBefore text 128 top.offset) then
    false
  else if character = '’' || character = '\'' then
    if following.any unicode.isDigit then true
    else
      match precedingWord (textBefore text 64 offset),
          followingWord (Regex.slice text (offset + 1) (offset + 65)) with
      | some preceding, some next =>
        (preceding.map Char.toLower).getLast? = some 's' &&
          !quoteFollowingVerbs.contains (next.map Char.toLower)
      | _, _ => false
  else
    match replay.stack.head? with
    | some top =>
      character = '"' && previous.any unicode.isDigit &&
        searches (measurementPattern unicode)
          (Regex.slice text (max (top.offset + 1) (offset - maxInternalMarkEvidenceChars)) offset)
    | none => false

end Evidence

section Step

variable (unicode : Unicode) (text : Text)

/-- The end of the run of backticks that starts at `index`. -/
def backtickRunEnd (index : Nat) : Nat :=
  index + 1 + ((text.drop (index + 1)).takeWhile (· = backtick)).length

def onBackticks (replay : Replay) (index : Nat) : Except ReplayError Replay := do
  let token := Regex.slice text index (backtickRunEnd text index)
  if replay.closesWith token then
    let (_, replay) ← replay.popFrame
    .ok replay
  else replay.push { opening := token, closing := token, offset := index }

def onDirectionalOpening (replay : Replay) (index : Nat) (character closing : Char) :
    Except ReplayError Replay :=
  replay.push
    { opening := [character], closing := [closing], offset := index
      continuation :=
        repeatedDirectionalContinuationKind unicode text replay character closing index }

/-- `future_surplus` of a directional closer. -/
def directionalSurplus (replay : Replay) (character opening : Char) : Int :=
  replay.directionalRemaining character - replay.directionalRemaining opening

/-- The frames still open under a popped one that nothing later can close. -/
def unmatchedSameFrames (replay : Replay) (character opening : Char) :
    Except ReplayError Nat := do
  let sameFrames ←
    if replay.tops ([opening], [character]) then
      match replay.runLengths.head? with
      | some length => .ok length
      | none => .error .indexError
    else .ok 0
  .ok (max 0 ((sameFrames : Int) - max 0 (replay.directionalSurplus character opening))).toNat

def onDirectionalClosing (replay : Replay) (index : Nat) (character opening : Char)
    (previous following : Option Char) : Except ReplayError Replay :=
  if replay.closesWith [character] then
    if replay.pairCounts ([opening], [character]) = 1 &&
        (1 ≤ replay.directionalSurplus character opening ||
          markHasInternalEvidence unicode text replay character index previous following) then
      .ok replay
    else do
      let (popped, replay) ← replay.popFrame
      if popped.opening = [opening] then
        let unmatched ← replay.unmatchedSameFrames character opening
        match popped.continuation with
        | some kind =>
          if directionalCloseIsTerminal unicode text index kind then
            replay.popFrames unmatched
          else .ok replay
        | none => .ok replay
      else .ok replay
  else if replay.closingCounts [character] ≠ 0 then
    .ok { replay with malformedDelimiters := true }
  else .ok replay

def onSymmetric (replay : Replay) (index : Nat) (character : Char)
    (previous following : Option Char) : Except ReplayError Replay :=
  if character = '\'' && isInsideWord unicode previous following then .ok replay
  else
    let opens := openingContext previous following
    let closes := closingContext previous following
    let replay :=
      if opens then
        { replay with
          symmetricOpenRemaining := addTo replay.symmetricOpenRemaining character (-1) }
      else if closes then
        { replay with
          symmetricCloseRemaining := addTo replay.symmetricCloseRemaining character (-1) }
      else replay
    let frame : Frame := { opening := [character], closing := [character], offset := index }
    if replay.closesWith [character] then
      let futureSurplus :=
        replay.symmetricCloseRemaining character - replay.symmetricOpenRemaining character
      let ambiguousInternalMark :=
        closes && replay.pairCounts ([character], [character]) = 1 &&
          (1 ≤ futureSurplus ||
            markHasInternalEvidence unicode text replay character index previous following)
      if opens && !closes then replay.push frame
      else if ambiguousInternalMark then .ok replay
      else do
        let (_, replay) ← replay.popFrame
        .ok replay
    else if closes && replay.closingCounts [character] ≠ 0 then
      .ok { replay with malformedDelimiters := true }
    else if opens then replay.push frame
    else .ok replay

def onBracketClosing (replay : Replay) (character : Char) : Except ReplayError Replay :=
  if replay.closesWith [character] then do
    let (_, replay) ← replay.popFrame
    .ok replay
  else if replay.closingCounts [character] ≠ 0 then
    .ok { replay with malformedDelimiters := true }
  else .ok replay

/-- What one character that is no backslash does to everything but the index. -/
def onCharacter (replay : Replay) (character : Char) : Except ReplayError Replay :=
  let index := replay.index
  let escaped := replay.backslashRun % 2 = 1
  let previous := lexicalPrevious text index replay.backslashRun
  let following := text[index + 1]?
  let directionalWordApostrophe := character = '’' && isInsideWord unicode previous following
  let replay := { replay with backslashRun := 0 }
  let replay :=
    if isDirectional character && !escaped && !directionalWordApostrophe then
      { replay with
        directionalRemaining := addTo replay.directionalRemaining character (-1) }
    else replay
  if escaped then .ok replay
  else if character = backtick then onBackticks text replay index
  else
    match quotePair character with
    | some closing => onDirectionalOpening unicode text replay index character closing
    | none =>
      match directionalCloser character with
      | some opening =>
        if directionalWordApostrophe then .ok replay
        else onDirectionalClosing unicode text replay index character opening previous following
      | none =>
        if isSymmetric character then
          onSymmetric unicode text replay index character previous following
        else
          match bracketPair character with
          | some closing =>
            replay.push { opening := [character], closing := [closing], offset := index }
          | none =>
            if (bracketCloser character).isSome then replay.onBracketClosing character
            else .ok replay

/-- Where the replay goes on: behind the character, or behind its run of backticks. -/
def nextIndex (replay : Replay) (character : Char) : Nat :=
  if character = backtick ∧ replay.backslashRun % 2 ≠ 1 then backtickRunEnd text replay.index
  else replay.index + 1

/-- One round of the main loop, behind its marker test. -/
def step (replay : Replay) : Except ReplayError Replay :=
  match text[replay.index]? with
  | none => .error .indexError
  | some character =>
    if character = '\\' then
      .ok { replay with
        backslashRun := replay.backslashRun + 1
        index := replay.index + 1 }
    else do
      let after ← onCharacter unicode text replay character
      .ok { after with index := nextIndex text replay character }

/-- A marker at this index lies in the one editorial bracket that opens right before it
at the start of a line. -/
def editorialBracketOnly (replay : Replay) : Bool :=
  !replay.malformedDelimiters &&
    (1 ≤ replay.index &&
      replay.stack = [{ opening := ['['], closing := [']'], offset := replay.index - 1 }]) &&
    (replay.index < 2 || text[replay.index - 2]? = some '\n')

def encloses (replay : Replay) : Bool :=
  (replay.malformedDelimiters || !replay.stack.isEmpty) && !editorialBracketOnly text replay

def scanner : Scanner Replay ReplayError where
  length := text.length
  position := index
  step := step unicode text
  verdict := encloses text

end Step

end Replay

/-! ## The markers -/

/-- The loop over the supplied markers: `count` were read, `previous` last. -/
def orderedMarkerStarts : Nat → Option Int → List Int → Except ReplayError (List Int)
  | _, _, [] => .ok []
  | count, previous, start :: rest =>
    if maxUsLegalHierarchyMarkers < count + 1 then
      .error (.slice
        s!"Delimiter replay exceeds the bounded marker limit of {maxUsLegalHierarchyMarkers}")
    else if previous.any (start < ·) then
      .error (.slice "Delimiter replay marker offsets must be ordered integers")
    else do
      let starts ← orderedMarkerStarts (count + 1) (some start) rest
      .ok (if previous = some start then starts else start :: starts)

/-- The offsets of `markerStarts` at which a quotation or a bracket is open. -/
def delimiterEnclosedMarkerStarts (unicode : Unicode) (text : Text) (markerStarts : List Int) :
    Except ReplayError (List Nat) := do
  let starts ← orderedMarkerStarts 0 none markerStarts
  match starts.head?, starts.getLast? with
  | some first, some last =>
    if first < 0 ∨ (text.length : Int) ≤ last then
      .error (.slice "Marker offset is outside corpus source text")
    else do
      let census ← Census.take unicode text
      (Replay.scanner unicode text).collect last.toNat text.length (.ofCensus census)
        (starts.map Int.toNat) []
  | _, _ => .ok []

def markerIsWithinQuoteOrBracket (unicode : Unicode) (text : Text) (markerStart : Int) :
    Except ReplayError Bool := do
  let enclosed ← delimiterEnclosedMarkerStarts unicode text [markerStart]
  .ok (enclosed.any fun start => (start : Int) = markerStart)

end AxiomEncode.Corpus
