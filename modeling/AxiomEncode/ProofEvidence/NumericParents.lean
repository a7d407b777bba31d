/-
# ProofEvidence.NumericParents -- blocks of alpha children under numeric parents

A source is read as a list of events: line headers `(1)` and `(a)`, and the separators of its records.  From
each header of a cited numeric parent at the smallest indentation of its record, `scan` follows the
alpha headers to the end of the parent; the children it found own the blocks between them.
-/
import AxiomEncode.Theory.PyNumber
import AxiomEncode.Theory.PyText
import Mathlib.Data.List.Sort

namespace AxiomEncode.ProofEvidence.NumericParents

open Theory

set_option autoImplicit false

abbrev Text := List Char

/-- `PROOF_EVIDENCE_SEGMENT_SEPARATOR` -/
def segmentSeparator : Text := ['\n', '\x1e', '\n']

inductive EventKind where
  | numeric
  | alpha
  | boundary
  deriving DecidableEq

structure Event where
  start : Nat
  kind : EventKind
  /-- The marker of a header. -/
  marker : Text := []
  /-- The columns of the indentation of a header, `len(indent.expandtabs(2))`. -/
  indent : Nat := 0
  deriving DecidableEq

/-- A block: parent, child, start and end. -/
structure Block where
  parent : Text
  child : Char
  start : Nat
  stop : Nat
  deriving DecidableEq

/-! ## Events -/

def isBlank (c : Char) : Bool := c = ' ' || c = '\t'

/-- The columns of blanks, where a tab goes on to the next even column. -/
def columns (blanks : Text) : Nat :=
  blanks.foldl (fun column c => if c = '\t' then column + 2 - column % 2 else column + 1) 0

/-- `\d` of a pattern. -/
def isDecimal (c : Char) : Bool := (digit? c).isSome

/-- `\d+` before a bracket. -/
def numericMarker (body : Text) : Option (Text × Text) :=
  let marker := body.takeWhile isDecimal
  if marker = [] then none else some (marker, body.dropWhile isDecimal)

/-- `[a-z]` -/
def alphaMarker (body : Text) : Option (Text × Text) :=
  match body with
  | c :: rest => if 'a' ≤ c ∧ c ≤ 'z' then some ([c], rest) else none
  | [] => none

/-- `^(?P<indent>[ \t]*)\((?P<marker>…)\)[ \t]+` at the start of a line: the marker and the indentation. -/
def headerOf (markerOf : Text → Option (Text × Text)) (line : Text) : Option (Text × Nat) :=
  match line.dropWhile isBlank with
  | '(' :: body =>
    match markerOf body with
    | some (marker, ')' :: c :: _) =>
      if isBlank c then some (marker, columns (line.takeWhile isBlank)) else none
    | _ => none
  | _ => none

/-- A line starts here. -/
def startsLine (text : Text) (index : Nat) : Bool := index = 0 || text[index - 1]? = some '\n'

/-- The headers of a text; a match of the pattern lies within its line. -/
def headers (markerOf : Text → Option (Text × Text)) (kind : EventKind) (text : Text) : List Event :=
  (List.range (text.length + 1)).filterMap fun index =>
    if startsLine text index then
      (headerOf markerOf (text.drop index)).map fun (marker, indent) => { start := index, kind, marker, indent }
    else none

/-- The separators from an index on, none inside another. -/
def separatorsFrom : Nat → Text → List Nat
  | index, '\n' :: '\x1e' :: '\n' :: rest => index :: separatorsFrom (index + 3) rest
  | index, _ :: rest => separatorsFrom (index + 1) rest
  | _, [] => []

def boundaries (text : Text) : List Event :=
  (separatorsFrom 0 text).map fun start => { start, kind := .boundary }

def eventsOf (text : Text) : List Event :=
  (headers numericMarker .numeric text ++ headers alphaMarker .alpha text ++
    boundaries text).insertionSort fun a b => a.start ≤ b.start

/-! ## Records -/

/-- The separator stands at an index. -/
def separatorAt (text : Text) (index : Nat) : Bool := segmentSeparator.isPrefixOf (text.drop index)

/-- The start of the record of an index: `rfind` of the separator before it. -/
def recordStart (text : Text) (index : Nat) : Nat :=
  match (List.range (index - 2)).reverse.find? (separatorAt text) with
  | some start => start + 3
  | none => 0

/-- The end of the record of an index: `find` of the separator from it on. -/
def recordEnd (text : Text) (index : Nat) : Nat :=
  (((List.range text.length).drop index).find? (separatorAt text)).getD text.length

def isHeader (event : Event) : Bool := event.kind = .numeric || event.kind = .alpha

/-- The header has the smallest indentation of its record. -/
def hasRecordIndent (text : Text) (events : List Event) (parent : Event) : Bool :=
  let indents := (events.filter fun event => isHeader event &&
    (recordStart text parent.start ≤ event.start && event.start < recordEnd text parent.start)).map Event.indent
  parent.indent = indents.min?.getD parent.indent

/-- After the last numeric header of its indentation an alpha header stands before the parent. -/
def followsAlpha (text : Text) (before : List Event) (parent : Event) : Bool :=
  let prior := before.filter fun event =>
    (recordStart text parent.start ≤ event.start && event.start < parent.start) && isHeader event
  (prior.reverse.takeWhile fun event => !(event.kind = .numeric && event.indent = parent.indent)).any
    fun event => event.kind = .alpha

/-! ## The scan of a parent -/

structure Scan where
  /-- The children and where they start. -/
  sequence : List (Char × Nat) := []
  /-- The code point that is expected. -/
  expected : Nat := 97
  insideNestedNumeric : Bool := false
  directAlphaIndent : Option Nat := none

/-- The child is taken. -/
def Scan.append (scan : Scan) (child : Char) (start : Nat) (indent : Option Nat) : Scan :=
  { sequence := scan.sequence ++ [(child, start)]
    expected := child.toNat + 1
    insideNestedNumeric := false
    directAlphaIndent := indent }

def scanFrom (length : Nat) (allowedChildren : List Text) (parentIndent : Nat) :
    List Event → Scan → Option (List (Char × Nat) × Nat)
  | [], scan => some (scan.sequence, length)
  | event :: events, scan =>
    match event.kind, event.marker with
    | .boundary, _ => some (scan.sequence, event.start)
    | .numeric, _ =>
      if scan.sequence = [] ∨ event.indent ≤ parentIndent then some (scan.sequence, event.start)
      else scanFrom length allowedChildren parentIndent events { scan with insideNestedNumeric := true }
    | .alpha, marker =>
      let child := marker.headD ' '
      if scan.sequence = [] ∧ marker ∈ allowedChildren ∧ parentIndent < event.indent then
        scanFrom length allowedChildren parentIndent events (scan.append child event.start (some event.indent))
      else if marker ∈ allowedChildren ∧ (∃ held ∈ scan.sequence, held.1 = child) ∧
          some event.indent = scan.directAlphaIndent then
        none
      else if scan.insideNestedNumeric ∧ child ∈ "ivxlcdm".toList ∧
          scan.directAlphaIndent.any fun direct => parentIndent < direct && direct < event.indent then
        scanFrom length allowedChildren parentIndent events scan
      else if child.toNat = scan.expected then
        match scan.directAlphaIndent with
        | none =>
          if event.indent < parentIndent then none
          else scanFrom length allowedChildren parentIndent events
            (scan.append child event.start (some event.indent))
        | some direct =>
          if event.indent ≠ direct then none
          else scanFrom length allowedChildren parentIndent events
            (scan.append child event.start (some direct))
      else some (scan.sequence, event.start)

/-- The blocks of the allowed children of a sequence that ends at `boundary`. -/
def blocksOf (parent : Text) (allowedChildren : List Text) (boundary : Nat) : List (Char × Nat) → List Block
  | [] => []
  | (child, start) :: rest =>
    let stop := match rest with
      | (_, next) :: _ => next
      | [] => boundary
    if [child] ∈ allowedChildren then
      { parent, child, start, stop } :: blocksOf parent allowedChildren boundary rest
    else blocksOf parent allowedChildren boundary rest

/-! ## The loop over the parents -/

/-- A numeric header of a cited parent at the smallest indentation of its record. -/
def isParent (text : Text) (scope : Text → List Text) (events : List Event) (event : Event) : Bool :=
  event.kind = .numeric && scope event.marker ≠ [] && hasRecordIndent text events event

/-- The blocks of one occurrence of a parent, none if it has none or is ambiguous. -/
def candidateOf (text : Text) (scope : Text → List Text) (before : List Event) (parent : Event)
    (after : List Event) : Option (List Block) :=
  if followsAlpha text before parent then none
  else
    ((scanFrom text.length (scope parent.marker) parent.indent after {}).map fun (sequence, boundary) =>
      blocksOf parent.marker (scope parent.marker) boundary sequence).filter (· ≠ [])

structure Collected where
  /-- `candidate_blocks`, in the order of its keys. -/
  candidates : List (Text × List (List Block)) := []
  /-- `parent_occurrence_counts` -/
  occurrences : Text → Nat := fun _ => 0

/-- `candidate_blocks.setdefault(parent, []).append(candidate)` -/
def addCandidate (candidates : List (Text × List (List Block))) (parent : Text) (candidate : List Block) :
    List (Text × List (List Block)) :=
  if candidates.any fun entry => entry.1 = parent then
    candidates.map fun entry => if entry.1 = parent then (entry.1, entry.2 ++ [candidate]) else entry
  else candidates ++ [(parent, [candidate])]

/-- The loop over the events that remain. -/
def collect (text : Text) (scope : Text → List Text) (events : List Event) :
    List Event → List Event → Collected → Collected
  | _, [], collected => collected
  | before, event :: after, collected =>
    let collected :=
      if isParent text scope events event then
        let occurrences :=
          Function.update collected.occurrences event.marker (collected.occurrences event.marker + 1)
        match candidateOf text scope before event after with
        | some candidate =>
          { candidates := addCandidate collected.candidates event.marker candidate, occurrences }
        | none => { collected with occurrences }
      else collected
    collect text scope events (before ++ [event]) after collected

/-- `_source_numeric_parent_alpha_range_blocks`, where a parent that is not in the scope has no children. -/
def sourceNumericParentAlphaRangeBlocks (text : Text) (scope : Text → List Text) : List Block :=
  let events := eventsOf text
  let collected := collect text scope events [] events {}
  collected.candidates.flatMap fun (parent, candidates) =>
    match candidates with
    | [candidate] => if collected.occurrences parent = 1 then candidate else []
    | _ => []

example : sourceNumericParentAlphaRangeBlocks "(1) x\n (a) y\n (b) z\n(2) w".toList
    (fun marker => if marker = ['1'] then [['a'], ['b']] else []) =
      [⟨['1'], 'a', 6, 13⟩, ⟨['1'], 'b', 13, 20⟩] := by
  decide

end AxiomEncode.ProofEvidence.NumericParents
