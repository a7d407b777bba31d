/-
# Corpus.Citation -- normalized citation paths

A citation path is the list of its segments (`path.split("/")`).  A `Segment`
carries the grammar that `normalizeCitationPath` enforces, so every path that a
reader has let through is made of segments whose digits are ASCII digits, and
the numeric sort keys of siblings are defined on all of them.
-/
import AxiomEncode.Corpus.Markers

namespace AxiomEncode.Corpus

open Theory

set_option autoImplicit false

def maxCorpusCitationSegmentLength : Nat := 512
def maxCorpusCitationSegments : Nat := 64
def maxCorpusCitationLength : Nat := 4096

/-- `_CITATION_HIERARCHY_SEGMENT_RE` under the length limit.  The other tests of
`_validate_safe_segment` (`/`, `\`, NUL, `*`, `%`, `.` and `..`) are implied. -/
def isCitationSegment (text : Text) : Bool :=
  text.length ≤ maxCorpusCitationSegmentLength &&
    match text with
    | [] => false
    | c :: rest => isAsciiAlnum c && rest.all fun d => isAsciiAlnum d || " .:-–".toList.contains d

/-- One segment of a normalized citation path. -/
abbrev Segment := { text : Text // isCitationSegment text = true }

instance lawfulBEqSegments : LawfulBEq (List Segment) := List.instLawfulBEq

abbrev CitationPath := List Segment

namespace CitationPath

/-- The path as text, segments joined by slashes. -/
def text (path : CitationPath) : Text :=
  List.intercalate ['/'] (path.map Subtype.val)

end CitationPath

/-- `len(text.encode("utf-8"))`. -/
def utf8Length (text : Text) : Nat := (text.map Char.utf8Size).sum

/-- `repr` of a text without quotes, control characters or backslashes. -/
def quoted (text : Text) : String := "'" ++ String.ofList text ++ "'"

/-- The exceptions of the resolver, each with its detail message. -/
inductive CorpusError (Row : Type) where
  /-- `CorpusResolutionError` -/
  | resolution (detail : String)
  /-- `InvalidCorpusCitationError` -/
  | invalidCitation (detail : String)
  /-- `CorpusSourceNotFoundError` -/
  | sourceNotFound (detail : String)
  /-- `InactiveCorpusSourceError` -/
  | inactiveSource (detail : String)
  /-- `InvalidActiveCorpusSourceError` -/
  | invalidActiveSource (detail : String)
  /-- `CorpusDescendantStructureError` -/
  | descendantStructure (detail : String)
  /-- `CorpusRowStructureError` -/
  | rowStructure (reason detail : String)
  /-- `AmbiguousCorpusSourceError` -/
  | ambiguousSource (citationPath : Text) (rows : List Row)
  /-- `CorpusSourceSliceError` -/
  | sourceSlice (detail : String)
  /-- `UnsafeCorpusPathError` -/
  | indirectPath (detail : String)
  /-- A `TypeError` of the language: incomparable sort keys. -/
  | typeError
  /-- The depth bound of a modelled recursion, which the trie never reaches. -/
  | recursion
  deriving DecidableEq, Repr

/-! ## The legal hierarchy below a U.S. section -/

/-- The width of a canonical section path of the U.S. Code or the CFR. -/
def usLegalHierarchyBaseLength (parts : List Text) : Option Nat :=
  match parts with
  | jurisdiction :: documentClass :: title :: _ :: _ =>
    if jurisdiction ≠ "us".toList ∨ title.isEmpty ∨ !title.all isAsciiDigit then none
    else if documentClass = "statute".toList then some 4
    -- a dotted section such as 273.2 is split into two segments
    else if documentClass = "regulation".toList ∧ 5 ≤ parts.length then some 5
    else none
  | _ => none

/-- The structural suffix of a canonical U.S. citation. -/
def usLegalHierarchyFragments (parts : List Text) (allowEmpty : Bool := false) :
    Option (List Text) :=
  match usLegalHierarchyBaseLength parts with
  | none => none
  | some base =>
    let fragments := parts.drop base
    if fragments.isEmpty then if allowEmpty then some [] else none
    else if fragments.any fun item => (legalMarkerKindOrdinals item).isEmpty then none
    else some fragments

/-- The ordinal a path's last segment has at its depth of the legal hierarchy. -/
def canonicalUsDescendantOrdinal (path : CitationPath) : Option Int :=
  let parts := path.map Subtype.val
  match usLegalHierarchyFragments parts with
  | none => none
  | some fragments =>
    let kind := legalMarkerKindForLevel (fragments.length - 1)
      (String.ofList (parts.getD 1 []))
    (legalMarkerKindOrdinals (fragments.getLastD [])).lookup kind

end AxiomEncode.Corpus
