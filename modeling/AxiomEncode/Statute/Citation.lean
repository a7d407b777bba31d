/-
# Statute.Citation -- citations of the United States Code and their RuleSpec files

A citation is read from its usual form, `26 USC 1(a)(2)`, and from a slash path.  Two
functions name the file that an encoding is written to: `citationToRelativeRulespecPath`
from the parts of a citation, with `Path.with_suffix`, and
`sourceIdentifierToRelativeRulespecPath` from an identifier of the corpus, which treats a
dot in the last segment as one more level.  `citationPartsForEvalIdentifier` reads the
second one's answer back.

Texts are read by the ASCII rules of their characters.
-/
import AxiomEncode.Theory.Regex
import AxiomEncode.Theory.PyText
import AxiomEncode.Theory.Checks

namespace AxiomEncode.Statute

open Theory

set_option autoImplicit false

abbrev Text := List Char

/-- A relative path, by its components. -/
abbrev RulePath := List Text

/-- `CitationParts` -/
structure CitationParts where
  title : Text
  section_ : Text
  fragments : List Text := []
  deriving DecidableEq, Repr

/-! ## Names of files -/

/-- `normalize_rulespec_path_segment` -/
def normalizeRulespecPathSegment (segment : Text) : Text :=
  segment.map fun c =>
    if "\u2010\u2011\u2012\u2013\u2014\u2015\u2212\ufe58\ufe63\uff0d".toList.contains c then '-'
    else c

/-- `Path(*components)`: a component that is empty or a dot is dropped. -/
def pathOf (components : List Text) : RulePath :=
  components.filter fun component => component ≠ [] && component ≠ ['.']

/-- How much of a name comes before its suffix: all of it, unless a dot stands inside. -/
def stemLength (name : Text) : Nat :=
  let dot := name.length - 1 - (name.reverse.takeWhile (· ≠ '.')).length
  if name.contains '.' && 0 < dot && dot + 1 < name.length then dot else name.length

/-- `PurePath.stem` of a name. -/
def stem (name : Text) : Text := name.take (stemLength name)

def yaml : Text := ".yaml".toList

/-- `path.with_suffix(".yaml")`, nothing if the path has no name. -/
def withYamlSuffix (path : RulePath) : Option RulePath :=
  match path.getLast? with
  | some name => some (path.dropLast ++ [stem name ++ yaml])
  | none => none

/-! ## Reading a citation -/

def couldNotParse (citation : Text) : Text := "Could not parse citation: ".toList ++ citation

/-- `str.upper()` of one character, as far as it yields a letter of `USC`. -/
def upper (c : Char) : Text :=
  if c = 'ſ' then ['S'] else if c = 'ß' then ['S', 'S']
  else if c = 'ﬅ' || c = 'ﬆ' then ['S', 'T'] else [c.toUpper]

/-- `"USC" in text.upper()` -/
def mentionsUsc (text : Text) : Bool := decide ("USC".toList <:+: text.flatMap upper)

def isWordChar (c : Char) : Bool := c.isAlphanum || c == '_'

/-- `re.sub(r"\bUSC\b", "", text, flags=re.IGNORECASE)`, behind a character. -/
def dropUsc (before : Option Char) : Text → Text
  | [] => []
  | [c] => [c]
  | [c, d] => [c, d]
  | u :: s :: c :: rest =>
    if !before.any isWordChar && (u == 'u' || u == 'U') && (s == 's' || s == 'S' || s == 'ſ') &&
        (c == 'c' || c == 'C') && !rest.head?.any isWordChar then
      dropUsc (some c) rest
    else u :: dropUsc (some u) (s :: c :: rest)

/-- `re.sub(r"\s+", " ", text)`, in a run of spaces or not. -/
def collapseSpaces (inRun : Bool) : Text → Text
  | [] => []
  | c :: rest =>
    if isSpace c then
      if inRun then collapseSpaces true rest else ' ' :: collapseSpaces true rest
    else c :: collapseSpaces false rest

/-- `[0-9A-Za-z.-]` -/
def isSegmentChar (c : Char) : Bool := c.isAlphanum || c == '.' || c == '-'

/-- The groups of `(?:\([^)]+\))*$`, within a group or not. -/
def parseTail : Option Text → Text → Option (List Text)
  | none, [] => some []
  | none, c :: rest => if c = '(' then parseTail (some []) rest else none
  | some _, [] => none
  | some group, c :: rest =>
    if c = ')' then
      if group = [] then none else (parseTail none rest).map (group :: ·)
    else parseTail (some (group ++ [c])) rest

/-- `part for part in text.split("/") if part` -/
def slashParts (text : Text) : List Text := (text.splitOn '/').filter (· ≠ [])

/-- A slash path without its jurisdiction and root. -/
def dropRoot (parts : List Text) : List Text :=
  if parts.take 2 = ["us".toList, "statute".toList] || parts.take 2 = ["us".toList, "statutes".toList]
  then parts.drop 2
  else if parts.head? = some "statutes".toList then parts.drop 1
  else parts

def parseSlashPath (citation cleaned : Text) : Except Text CitationParts :=
  match dropRoot (slashParts cleaned) with
  | title :: section_ :: fragments => .ok ⟨title, section_, fragments⟩
  | _ => .error (couldNotParse citation)

/-- `cleaned.split(" ", 1)` and what follows it. -/
def parseCitationText (citation cleaned : Text) : Except Text CitationParts :=
  let words := strip (collapseSpaces false (dropUsc none cleaned))
  if !words.contains ' ' then .error (couldNotParse citation)
  else
    let remainder := (words.dropWhile (· ≠ ' ')).filter (· ≠ ' ')
    let section_ := remainder.takeWhile isSegmentChar
    match parseTail none (remainder.dropWhile isSegmentChar) with
    | some fragments =>
      if section_ = [] then .error (couldNotParse citation)
      else .ok ⟨words.takeWhile (· ≠ ' '), section_, fragments⟩
    | none => .error (couldNotParse citation)

/-- `us:statutes/` or `us:statute/` is taken off. -/
def dropScheme (text : Text) : Text :=
  if "us:statutes/".toList.isPrefixOf text then text.drop 12
  else if "us:statute/".toList.isPrefixOf text then text.drop 11
  else text

/-- `parse_usc_citation` -/
def parseUscCitation (citation : Text) : Except Text CitationParts :=
  let cleaned := dropScheme ((strip citation).filter (· ≠ '§'))
  if cleaned.contains '/' && !mentionsUsc cleaned then parseSlashPath citation cleaned
  else parseCitationText citation cleaned

/-! ## Paths of a citation -/

/-- `citation_to_citation_path` -/
def citationToCitationPath (parts : CitationParts) : Text :=
  "us/statute/".toList ++
    ['/'].intercalate (parts.title :: parts.section_ :: parts.fragments)

/-- `citation_to_relative_rulespec_path` -/
def citationToRelativeRulespecPath (parts : CitationParts) : Option RulePath :=
  let title := normalizeRulespecPathSegment parts.title
  let section_ := normalizeRulespecPathSegment parts.section_
  let sectionPath := pathOf ["statutes".toList, title, section_]
  if parts.fragments = [] then withYamlSuffix sectionPath
  else (withYamlSuffix (pathOf (parts.fragments.map normalizeRulespecPathSegment))).map
    (sectionPath ++ ·)

/-! ## Identifiers of the corpus -/

def rulespecSourceRootTokens : List Text :=
  ["form", "forms", "guidance", "manual", "manuals", "policies", "policy", "regulation",
    "regulations", "statute", "statutes"].map String.toList

/-- `_RULESPEC_OUTPUT_ROOT_BY_SOURCE_TOKEN` -/
def rulespecOutputRootBySourceToken : List (Text × Text) :=
  [("form", "policies"), ("forms", "policies"), ("guidance", "policies"), ("manual", "policies"),
    ("manuals", "policies"), ("policies", "policies"), ("policy", "policies"),
    ("regulation", "regulations"), ("regulations", "regulations"), ("statute", "statutes"),
    ("statutes", "statutes")].map fun entry => (entry.1.toList, entry.2.toList)

def digits : Regex := .plus (.set Char.isDigit)

/-- `\d+(?:\.\d+)+` -/
def dottedNumber : Regex := .seq digits (.plus (.seq (.char '.') digits))

/-- `\d+-ccr-\d+-\d+`, in any case. -/
def ccrTitle : Regex :=
  .sequence [digits, .char '-', .oneOf ['c', 'C'], .oneOf ['c', 'C'], .oneOf ['r', 'R'], .char '-',
    digits, .char '-', digits]

/-- `_preserve_dotted_leaf_filename` -/
def preserveDottedLeafFilename (tail : List Text) : Bool :=
  2 ≤ tail.length && ccrTitle.fullMatch (tail.headD []) && dottedNumber.fullMatch (tail.getLastD [])

/-- A file in the directories before it. -/
def yamlFile (directories : List Text) (name : Text) : RulePath :=
  pathOf directories ++ [name ++ yaml]

/-- `_dotted_leaf_to_nested_yaml_path` -/
def dottedLeafToNestedYamlPath (tail : List Text) : RulePath :=
  if preserveDottedLeafFilename tail then yamlFile tail.dropLast (tail.getLastD [])
  else
    let leaf := (tail.getLastD []).splitOn '.'
    yamlFile (tail.dropLast ++ leaf.dropLast) (leaf.getLastD [])

/-- `\d+(?:\.\d+)*` -/
def crsSegment : Regex := .seq digits (.star (.seq (.char '.') digits))

/-- `\d+(?:-\d+)+(?:\.\d+)?` -/
def crsSection : Regex :=
  .sequence [digits, .plus (.seq (.char '-') digits), .opt (.seq (.char '.') digits)]

/-- `_preserve_state_statute_dotted_leaf` -/
def preserveStateStatuteDottedLeaf (jurisdiction root : Text) (tail : List Text) : Bool :=
  if jurisdiction ≠ "us-co".toList || root ≠ "statutes".toList || tail.length < 2 then false
  else if tail.length = 2 && (tail.headD []) ≠ [] && (tail.headD []).all Char.isDigit then
    let segments := (tail.getLastD []).splitOn '-'
    segments.length = 3 && segments.all crsSegment.fullMatch
  else dottedNumber.fullMatch (tail.getLastD []) && crsSection.fullMatch (tail.dropLast.getLastD [])

/-- A component of a Louisiana path that no file can have. -/
def isBadComponent (component : Text) : Bool :=
  component.isEmpty || component.head? = some '.' || component.getLast? = some '.' ||
    decide ("..".toList <:+: component)

def reprText (text : Text) : Text := '\'' :: (text ++ ['\''])

def reprList (items : List Text) : Text :=
  '[' :: (", ".toList.intercalate (items.map reprText) ++ [']'])

/-- `_expand_louisiana_title_section_tail` -/
def expandLouisianaTitleSectionTail (jurisdiction root : Text) (tail : List Text) :
    Except Text (List Text) :=
  if jurisdiction ≠ "us-la".toList || root ≠ "statutes".toList then .ok tail
  else
    match tail with
    | [] => .ok []
    | titleSection :: rest =>
      if tail.any isBadComponent || rest.any (·.contains ':') then
        .error ("Invalid Louisiana statute path: ".toList ++ reprList tail)
      else if !titleSection.contains ':' then .ok tail
      else
        let components := titleSection.splitOn ':'
        if components.length ≠ 2 || (components ++ rest).any isBadComponent then
          .error ("Invalid Louisiana title:section statute segment: ".toList ++
            reprText titleSection)
        else .ok (components ++ rest)

/-- `_canonical_us_regulation_tail` -/
def canonicalUsRegulationTail : List Text → List Text
  | [] => []
  | first :: rest =>
    let title := strip first
    if title ≠ [] && title.all Char.isDigit then (title ++ "-cfr".toList) :: rest
    else first :: rest

def ukLegislationDomainToken : Text := "legislation.gov.uk".toList

def ukLegislationSectionTokens : List Text :=
  ["article", "regulation", "section"].map String.toList

/-- `_canonical_uk_legislation_tail` -/
def canonicalUkLegislationTail (tail : List Text) : List Text :=
  let normalized := if tail.head? = some ukLegislationDomainToken then tail.drop 1 else tail
  if 2 ≤ normalized.length &&
      ukLegislationSectionTokens.contains ((normalized.dropLast.getLastD []).map Char.toLower) then
    normalized.dropLast.dropLast ++ [normalized.getLastD []]
  else normalized

/-- The rules of the jurisdictions. -/
def canonicalTail (jurisdiction token root : Text) (tail : List Text) :
    Except Text (List Text) := do
  let tail ← expandLouisianaTitleSectionTail jurisdiction root tail
  let tail :=
    if jurisdiction = "us".toList && ["regulation".toList, "regulations".toList].contains token then
      canonicalUsRegulationTail tail
    else tail
  pure (if jurisdiction = "uk".toList then canonicalUkLegislationTail tail else tail)

/-- A tail below its root, nothing for no tail. -/
def placeTail (jurisdiction root : Text) (tail : List Text) : Option RulePath :=
  if tail = [] then none
  else if preserveStateStatuteDottedLeaf jurisdiction root tail then
    some (root :: yamlFile tail.dropLast (tail.getLastD []))
  else some (root :: dottedLeafToNestedYamlPath tail)

/-- `jurisdiction:root/…` -/
def placePrefixed (parts : List Text) : Except Text (Option RulePath) :=
  match parts with
  | first :: tail =>
    let jurisdiction := first.takeWhile (· ≠ ':')
    let token := (first.dropWhile (· ≠ ':')).drop 1
    if first.contains ':' && rulespecSourceRootTokens.contains token then do
      let root := (rulespecOutputRootBySourceToken.lookup token).getD token
      let tail ← canonicalTail jurisdiction token root tail
      pure (placeTail jurisdiction root tail)
    else .ok none
  | [] => .ok none

/-- `root/…` -/
def placeRooted (parts : List Text) : Option RulePath :=
  match parts with
  | token :: first :: rest =>
    if rulespecSourceRootTokens.contains token then
      let tail := first :: rest
      let root := (rulespecOutputRootBySourceToken.lookup token).getD token
      let tail :=
        if first = ukLegislationDomainToken then canonicalUkLegislationTail tail else tail
      some (root :: dottedLeafToNestedYamlPath tail)
    else none
  | _ => none

/-- `jurisdiction/root/…` -/
def placeJurisdiction (parts : List Text) : Except Text (Option RulePath) :=
  match parts with
  | jurisdiction :: token :: first :: rest =>
    match rulespecOutputRootBySourceToken.lookup token with
    | some root => do
      let tail ← canonicalTail jurisdiction token root (first :: rest)
      pure (placeTail jurisdiction root tail)
    | none => .ok none
  | _ => .ok none

/-- The segments of an identifier. -/
def identifierParts (sourceId : Text) : List Text :=
  (slashParts (stripChars (· == '/') (strip sourceId))).map normalizeRulespecPathSegment

/-- The first place that there is. -/
def firstPlace (parts : List Text) : Except Text (Option RulePath) := do
  match ← placePrefixed parts with
  | some path => pure (some path)
  | none =>
    match placeRooted parts with
    | some path => pure (some path)
    | none => placeJurisdiction parts

/-- `_source_identifier_to_relative_rulespec_path` -/
def sourceIdentifierToRelativeRulespecPath (sourceId : Text) : Except Text RulePath := do
  let parts := identifierParts sourceId
  require (!parts.any fun part => part = ['.'] || part = ['.', '.'])
    ("Unsafe RuleSpec path component in source identifier: ".toList ++ reprText sourceId)
  match ← firstPlace parts with
  | some path => pure path
  | none => .error ("Unsupported canonical source identifier: ".toList ++ reprText sourceId)

/-- `_looks_like_corpus_citation_path` -/
def looksLikeCorpusCitationPath (identifier : Text) : Bool :=
  match slashParts (stripChars (· == '/') (strip identifier)) with
  | first :: second :: rest =>
    (first.contains ':' &&
        rulespecSourceRootTokens.contains ((first.dropWhile (· ≠ ':')).drop 1)) ||
      rulespecSourceRootTokens.contains first ||
      (rest ≠ [] && rulespecSourceRootTokens.contains second)
  | [first] =>
    first.contains ':' && rulespecSourceRootTokens.contains ((first.dropWhile (· ≠ ':')).drop 1)
  | [] => false

/-- `_target_rel_for_eval_identifier`, given `_citation_to_corpus_citation_path`. -/
def targetRelForEvalIdentifier (bareCitationPath : Text → Except Text Text) (citation : Text) :
    Except Text (Option RulePath) :=
  let normalized := stripChars (· == '/') (strip citation)
  let first := normalized.takeWhile (· ≠ '/')
  if first.contains ':' &&
      rulespecSourceRootTokens.contains ((first.dropWhile (· ≠ ':')).drop 1) then
    (sourceIdentifierToRelativeRulespecPath normalized).map some
  else if looksLikeCorpusCitationPath normalized then
    (sourceIdentifierToRelativeRulespecPath normalized).map some
  else
    match bareCitationPath citation >>= sourceIdentifierToRelativeRulespecPath with
    | .ok path => .ok (some path)
    | .error _ => .ok none

/-- The parts of a citation, read off the path of its file. -/
def partsOfPath (path : RulePath) : Option CitationParts :=
  match path with
  | root :: title :: name :: rest =>
    if root ≠ "statutes".toList then none
    else if rest = [] then some ⟨title, stem name, []⟩
    else some ⟨title, name, rest.dropLast ++ [stem (rest.getLastD [])]⟩
  | _ => none

/-- `_citation_parts_for_eval_identifier` -/
def citationPartsForEvalIdentifier (bareCitationPath : Text → Except Text Text) (citation : Text) :
    Except Text (Option CitationParts) := do
  let target ← targetRelForEvalIdentifier bareCitationPath citation
  pure (target.bind partsOfPath)

end AxiomEncode.Statute
