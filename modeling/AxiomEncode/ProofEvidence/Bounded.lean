/-
# ProofEvidence.Bounded -- a quoted span that cuts no word and no number

`sourceEvidenceSpanIsBounded` looks at what stands before and after a span of a source: a
span that begins inside a word, a grouped number, a signed amount or a date is not the
evidence it looks like.  `UnicodeData` holds what Python takes from its character database.
-/
import AxiomEncode.Theory.Regex
import AxiomEncode.Theory.PyText

namespace AxiomEncode.ProofEvidence

open Theory

set_option autoImplicit false

abbrev Text := List Char

structure UnicodeData where
  isAlnum : Char → Bool
  /-- `str.isdecimal`, which is also `\d` of a pattern. -/
  isDecimal : Char → Bool
  /-- The category `Cf`. -/
  isFormat : Char → Bool
  /-- The category `Sc`. -/
  isCurrency : Char → Bool
  /-- `unicodedata.normalize("NFKC", character)` -/
  nfkc : Char → Text
  /-- `unicodedata.name(character, "")` -/
  name : Char → Text
  spaces : ∀ c, isSpace c = true →
    isAlnum c = false ∧ isDecimal c = false ∧ isFormat c = false ∧ isCurrency c = false
  nfkc_space : nfkc ' ' = [' ']
  name_space : name ' ' = "SPACE".toList

/-- `needle in hay` -/
def isIn (needle hay : Text) : Bool := hay.tails.any needle.isPrefixOf

/-- `text.split()` -/
def words (text : Text) : List Text := (text.splitOnP isSpace).filter (· ≠ [])

def lstrip (text : Text) : Text := text.dropWhile isSpace

def rstrip (text : Text) : Text := text.rdropWhile isSpace

namespace UnicodeData

variable (unicode : UnicodeData)

/-- `\w` of a pattern. -/
def isWord (c : Char) : Bool := unicode.isAlnum c || c = '_'

/-- `[^\W\d_]` -/
def isLetter (c : Char) : Bool := unicode.isAlnum c && !unicode.isDecimal c && c ≠ '_'

end UnicodeData

/-! ## Kinds of characters -/

section Characters

variable (unicode : UnicodeData)

def numericSignMarkers : List Char :=
  ['+', '-', '\u00B1', '\u2012', '\u2212', '\u2213', '\uFE62', '\uFE63', '\uFF0B', '\uFF0D',
    '\u207A', '\u207B', '\u208A', '\u208B']

def spacedNumericConnectorNameWords : List Text :=
  ["ASTERISK", "CARET", "DIVISION", "MINUS", "MULTIPLICATION", "RATIO"].map String.toList

def spacedNumericConnectorNamePhrases : List Text := ["FRACTION SLASH", "SOLIDUS"].map String.toList

def isCurrencyMarker (c : Char) : Bool := unicode.isCurrency c

def isConnectorCharacter (c : Char) : Bool := !isSpace c && !unicode.isAlnum c && c ≠ '_'

def isNumericSignMarker (c : Char) : Bool :=
  numericSignMarkers.contains c || isIn (unicode.nfkc c) "+-".toList ||
    ["HYPHEN", "MINUS", "PLUS"].any fun word => (words (unicode.name c)).contains word.toList

def isSpacedNumericConnector (c : Char) : Bool :=
  isIn (unicode.nfkc c) "/*^+-".toList || c = '–' || isNumericSignMarker unicode c ||
    (words (unicode.name c)).any spacedNumericConnectorNameWords.contains ||
    spacedNumericConnectorNamePhrases.any fun phrase => isIn phrase (unicode.name c)

def isNumericSuffixMarker (c : Char) : Bool :=
  isCurrencyMarker unicode c ||
    ["PERCENT SIGN", "PER MILLE SIGN", "PER TEN THOUSAND SIGN"].any fun phrase =>
      isIn phrase.toList (unicode.name c)

def isHyphenMarker (c : Char) : Bool :=
  unicode.nfkc c = ['-'] || (words (unicode.name c)).contains "HYPHEN".toList

/-- The character is a colon up to compatibility. -/
def isColon (c : Char) : Bool := unicode.nfkc c = [':']

end Characters

/-! ## Patterns -/

section Patterns

variable (unicode : UnicodeData)

private def gap : Regex := .star (.set isSpace)

private def space : Regex := .plus (.set isSpace)

private def digits : Regex := .plus (.set unicode.isDecimal)

private def digitsBetween (low high : Nat) : Regex := .between (.set unicode.isDecimal) low high

private def oneWordOf (candidates : List String) : Regex := .anyOf (candidates.map .ignoringCase)

private def plural (word : String) : Regex := .seq (.ignoringCase word) (.opt (.anyCase 's'))

/-- `\d{1,4}/\d{1,2}/\d{1,4}` -/
private def date : Regex :=
  .sequence [digitsBetween unicode 1 4, .char '/', digitsBetween unicode 1 2, .char '/',
    digitsBetween unicode 1 4]

/-- `\s*date(?:\s*(?:-|[\u2010-\u2015]|to)\s*date)?\s*` -/
def numericDateLabelPattern : Regex :=
  .sequence [gap, date unicode,
    .opt (.sequence [gap,
      .anyOf [.char '-', .set fun c => '\u2010' ≤ c && c ≤ '\u2015', .ignoringCase "to"], gap,
      date unicode]), gap]

/-- `\$\d[\d,]*(?:\.\d+)?$` -/
def dollarAmountPattern : Regex :=
  .sequence [.char '$', .set unicode.isDecimal, .star (.set fun c => unicode.isDecimal c || c = ','),
    .opt (.seq (.char '.') (digits unicode)), .dollar]

/-- `\d+(?:\.\d+)?%\s+of\s+\w+\s+meals\s+(?:a|per)\s+(?:day|week|month|year)` -/
def mealsPattern : Regex :=
  .sequence [digits unicode, .opt (.seq (.char '.') (digits unicode)), .char '%', space,
    .ignoringCase "of", space, .plus (.set unicode.isWord), space, .ignoringCase "meals", space,
    oneWordOf ["a", "per"], space, oneWordOf ["day", "week", "month", "year"]]

/-- `\d+\s+(?:days?|weeks?|months?|years?)\s+or\s+the\s+period\s+for\s+which\b.+` -/
def periodPattern : Regex :=
  .sequence [digits unicode, space, .anyOf (["day", "week", "month", "year"].map plural), space,
    .ignoringCase "or", space, .ignoringCase "the", space, .ignoringCase "period", space,
    .ignoringCase "for", space, .ignoringCase "which", .boundary unicode.isWord,
    .plus (.set (· ≠ '\n'))]

/-- `\s*(?:per\s+cent|percent(?:age)?s?|per\s+mille|per\s+ten\s+thousand|basis\s+points?|bps)\b` -/
def textualNumericSuffixPattern : Regex :=
  .sequence [gap,
    .anyOf [.sequence [.ignoringCase "per", space, .ignoringCase "cent"],
      .sequence [.ignoringCase "percent", .opt (.ignoringCase "age"), .opt (.anyCase 's')],
      .sequence [.ignoringCase "per", space, .ignoringCase "mille"],
      .sequence [.ignoringCase "per", space, .ignoringCase "ten", space, .ignoringCase "thousand"],
      .sequence [.ignoringCase "basis", space, plural "point"], .ignoringCase "bps"],
    .boundary unicode.isWord]

end Patterns

/-- `re.sub(r"\s+", " ", text)`; `inRun` says that the space of the current run is written. -/
def collapseSpacesFrom (inRun : Bool) : Text → Text
  | [] => []
  | c :: rest =>
    if isSpace c then
      if inRun then collapseSpacesFrom true rest else ' ' :: collapseSpacesFrom true rest
    else c :: collapseSpacesFrom false rest

/-- `re.sub(r"\s+", " ", text).strip()` -/
def normalizeSpaces (text : Text) : Text := strip (collapseSpacesFrom false text)

/-! ## The guards -/

section Guards

variable (unicode : UnicodeData) (evidenceText before after : Text)

/-- The loop strips blanks and currency marks from the front. -/
def evidenceBeginsWithNumericToken : Bool :=
  (evidenceText.dropWhile fun c => isSpace c || isCurrencyMarker unicode c).head?.any
    unicode.isDecimal

def evidenceEndsWithNumericToken : Bool := (rstrip evidenceText).getLast?.any unicode.isDecimal

def spanStartsInsideSpaceGroupedNumber : Bool :=
  ((lstrip evidenceText).takeWhile unicode.isDecimal).length = 3 &&
    match before.reverse with
    | last :: previous :: _ => isSpace last && unicode.isDecimal previous
    | _ => false

def spanEndsInsideSpaceGroupedNumber : Bool :=
  match after with
  | gap :: first :: second :: third :: rest =>
    isSpace gap && [first, second, third].all unicode.isDecimal &&
      !(rest.head?.any unicode.isDecimal)
  | _ => false

/-- The loop strips blanks, format characters and currency marks from the end. -/
def leftContextOmitsNumericSign : Bool :=
  (before.rdropWhile fun c =>
    isSpace c || unicode.isFormat c || isCurrencyMarker unicode c).getLast?.any
      (isNumericSignMarker unicode)

def connectorsContinue (connectors : Text) (separatedFromEvidence besideSpace : Bool) : Bool :=
  (!separatedFromEvidence && !besideSpace) ||
    connectors.any (isSpacedNumericConnector unicode) ||
    (besideSpace && connectors.any (isColon unicode))

def leftContextContinuesNumericToken : Bool :=
  let left := rstrip before
  let connectors := left.rtakeWhile (isConnectorCharacter unicode)
  let left := left.rdropWhile (isConnectorCharacter unicode)
  !connectors.isEmpty && (rstrip left).getLast?.any unicode.isDecimal &&
    connectorsContinue unicode connectors (before.getLast?.any isSpace) (left.getLast?.any isSpace)

def rightContextContinuesNumericToken : Bool :=
  let right := lstrip after
  let connectors := right.takeWhile (isConnectorCharacter unicode)
  let right := right.dropWhile (isConnectorCharacter unicode)
  !connectors.isEmpty && (lstrip right).head?.any unicode.isDecimal &&
    connectorsContinue unicode connectors (after.head?.any isSpace) (right.head?.any isSpace)

def isNumericDateLabel (text : Text) : Bool := (numericDateLabelPattern unicode).fullMatch text

def isSubstantiveNumericProse (text : Text) : Bool :=
  let normalized := normalizeSpaces text
  (mealsPattern unicode).fullMatch normalized || (periodPattern unicode).fullMatch normalized

def spanOmitsAccountingParentheses : Bool :=
  let left := before.rdropWhile fun c => isSpace c || isCurrencyMarker unicode c
  let opens := left.getLast? = some '('
  if (rstrip evidenceText).getLast? = some ')' then opens
  else if isNumericDateLabel unicode evidenceText || isSubstantiveNumericProse unicode evidenceText then
    false
  else opens && (lstrip after).head? = some ')'

def spanStartsAfterFusedFootnoteMarker : Bool :=
  let text := lstrip evidenceText
  let leftContext := rstrip before.dropLast
  let followsDocumentBoundary :=
    ((dollarAmountPattern unicode).search leftContext).isSome ||
      leftContext.getLast?.any fun c => c = '.' || c = '!' || c = '?'
  text.takeWhile unicode.isLetter = "The".toList &&
    4 ≤ ((text.splitOnP fun c => !unicode.isLetter c).filter (· ≠ [])).length &&
    (match before.reverse with
      | last :: previous :: _ => "123456789".toList.contains last && isSpace previous
      | _ => false) &&
    !leftContext.isEmpty && followsDocumentBoundary

def spanOmitsTrailingAccountingSign : Bool :=
  !(after.head?.any isSpace) &&
    (after.dropWhile unicode.isFormat).head?.any (isNumericSignMarker unicode)

def rightContextStartsTextualNumericSuffix : Bool :=
  let normalized := after.map fun c =>
    if isSpace c || unicode.isFormat c || isHyphenMarker unicode c then ' ' else c
  ((textualNumericSuffixPattern unicode).matchAt (.start normalized)).isSome

/-- The check of what surrounds a span. -/
def contextIsBounded : Bool :=
  if before.getLast?.any unicode.isWord &&
      !spanStartsAfterFusedFootnoteMarker unicode evidenceText before then false
  else if after.head?.any unicode.isWord then false
  else if evidenceBeginsWithNumericToken unicode evidenceText &&
      (spanStartsInsideSpaceGroupedNumber unicode evidenceText before ||
        leftContextOmitsNumericSign unicode before ||
        leftContextContinuesNumericToken unicode before ||
        spanOmitsAccountingParentheses unicode evidenceText before after) then false
  else if evidenceEndsWithNumericToken unicode evidenceText &&
      (spanEndsInsideSpaceGroupedNumber unicode after ||
        ((lstrip after).dropWhile unicode.isFormat).head?.any (isNumericSuffixMarker unicode) ||
        rightContextStartsTextualNumericSuffix unicode after ||
        rightContextContinuesNumericToken unicode after) then false
  else !spanOmitsTrailingAccountingSign unicode after

end Guards

def sourceEvidenceSpanIsBounded (unicode : UnicodeData) (evidenceText sourceText : Text)
    (start finish : Nat) : Bool :=
  contextIsBounded unicode evidenceText (sourceText.take start) (sourceText.drop finish)

end AxiomEncode.ProofEvidence
