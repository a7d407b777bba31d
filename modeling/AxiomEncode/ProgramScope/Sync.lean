/-
# ProgramScope.Sync -- updating one scope of a ProgramSpec

`syncedScope` computes the list of modules that a scope should hold (`sync_program_scope`),
`updatedScopeText` writes it into the text of the ProgramSpec.  The second never parses:
what PyYAML reported of the sequence (its marks, and the lines of its entries) is all it
knows of YAML.
-/
import AxiomEncode.Theory.LineEdit
import Mathlib.Data.Char
import Mathlib.Data.List.Lex

namespace AxiomEncode.ProgramScope

open Theory

set_option autoImplicit false

abbrev Text := List Char

/-- A position that PyYAML reports. -/
structure Mark where
  index : Nat
  line : Nat
  column : Nat
  deriving DecidableEq, Repr

/-- A scalar node; its value is the caller's business. -/
structure ScalarNode where
  startMark : Mark
  endMark : Mark
  deriving DecidableEq, Repr

structure SequenceNode where
  startMark : Mark
  endMark : Mark
  flowStyle : Bool
  value : List ScalarNode
  deriving DecidableEq, Repr

inductive ScopeError where
  /-- `ProgramScopeError`, with its message. -/
  | program (detail : String)
  /-- Python's own errors: unequal lengths or an empty minimum, and a bad index. -/
  | valueError
  | indexError
  deriving DecidableEq, Repr

/-! ## The desired list -/

/-- `tuple(dict.fromkeys(items))` -/
def fromKeys (items : List Text) : List Text := items.eraseDups

/-- `bisect.insort(items, item)` on a sorted list. -/
def insort (item : Text) : List Text → List Text
  | [] => [item]
  | first :: rest => if item < first then item :: first :: rest else first :: insort item rest

/-- `list(existing) == sorted(existing)` -/
def isSorted (existing : List Text) : Bool := existing.mergeSort (· ≤ ·) = existing

/-- One round of the loop over the additions. -/
def addItem (preserveSortedOrder : Bool) (desired : List Text) (item : Text) : List Text :=
  if item ∈ desired then desired
  else if preserveSortedOrder then insort item desired
  else desired ++ [item]

structure ScopeSync where
  desired : List Text
  added : List Text
  removed : List Text
  changed : Bool
  deriving DecidableEq, Repr

/-- The part of `sync_program_scope` behind its checks of the repository: the update of one
scope, from normalized paths. -/
def syncedScope (scope : Text) (existing add remove : List Text) : Except ScopeError ScopeSync :=
  if ¬ existing.Nodup then
    .error (.program s!"ProgramSpec scope '{String.ofList scope}' contains duplicate paths")
  else
    let additions := fromKeys add
    let removals := fromKeys remove
    let overlap := (additions.filter (· ∈ removals)).mergeSort (· ≤ ·)
    if overlap ≠ [] then
      .error (.program ("scope paths cannot be both added and removed: [" ++
        ", ".intercalate (overlap.map fun item => s!"'{String.ofList item}'") ++ "]"))
    else
      let preserveSortedOrder := isSorted existing
      let desired := additions.foldl (addItem preserveSortedOrder)
        (existing.filter (· ∉ removals))
      .ok
        { desired
          added := additions.filter (· ∉ existing)
          removed := removals.filter (· ∈ existing)
          changed := desired ≠ existing }

/-! ## The updated text -/

def endsWithCrLf (line : Text) : Bool := "\r\n".toList.isSuffixOf line

/-- `line.endswith(("\n", "\r"))` -/
def looksFinished (line : Text) : Bool := line.getLast?.any fun c => c = '\n' || c = '\r'

def isComment (line : Text) : Bool := (line.dropWhile isSpace).head? = some '#'

/-- The loop that moves an anchor above a block of comments. -/
def aboveComments (lines : List Text) : Nat → Nat
  | 0 => 0
  | anchor + 1 =>
    if lines[anchor]?.any isComment then aboveComments lines anchor else anchor + 1

/-- Where the line of a new entry goes: before the following survivor in a sorted scope, else
behind the last survivor, or where the first entry was. -/
def anchorOf (lines : List Text) (existing : List Text) (survivors : List (Text × Nat))
    (firstItemLine : Nat) (value : Text) : Nat :=
  match survivors.getLast? with
  | none => firstItemLine
  | some (_, lastLine) =>
    if isSorted existing then
      let following := (survivors.filter fun entry => value < entry.1).map Prod.snd
      aboveComments lines (following.head?.getD (lastLine + 1))
    else lastLine + 1

def spaces (count : Nat) : Text := List.replicate count ' '

/-- `f"{indent}- {value}{newline}"` -/
def entryLine (indent newline value : Text) : Text := indent ++ "- ".toList ++ value ++ newline

/-- The flow branch: an empty sequence is replaced as a whole. -/
def updatedFlowText (text sampleLine newline indent : Text) (target : SequenceNode)
    (desired : List Text) : Except ScopeError Text :=
  if !target.value.isEmpty then
    .error (.program "non-empty scope sequences must use block style")
  else
    let linePrefix := sampleLine.take target.startMark.column
    if !(strip linePrefix).isEmpty then
      let lineStart := target.startMark.index - target.startMark.column
      let lineBody :=
        if newline.isSuffixOf sampleLine then sampleLine.take (sampleLine.length - newline.length)
        else sampleLine
      let lineEnd := lineStart + lineBody.length
      let keyIndent :=
        (sampleLine.takeWhile fun c => c = ' ' || c = '\t').length
      let suffix := (text.take lineEnd).drop target.endMark.index
      let before := (text.take target.startMark.index).rdropWhile fun c => c = ' ' || c = '\t'
      let entries := newline.intercalate (desired.map (entryLine (spaces (keyIndent + 2)) []))
      .ok (before ++ suffix ++ newline ++ entries ++ text.drop lineEnd)
    else
      match desired with
      | [] => .error .indexError
      | first :: rest =>
        .ok (text.take target.startMark.index ++ "- ".toList ++ first ++
          (rest.flatMap fun item => newline ++ entryLine indent [] item) ++
          text.drop target.endMark.index)

/-- The lines of the block branch.  `itemLines` pairs the entries with their lines. -/
def updatedLines (lines existing : List Text) (itemLines : List (Text × Nat))
    (firstItemLine : Nat) (indent newline : Text) (desired : List Text) : List Text :=
  let removedLines := (itemLines.filter fun entry => entry.1 ∉ desired).map Prod.snd
  let insertions : Nat → List Text :=
    if desired = [] then fun index =>
      if index = firstItemLine then [indent ++ "  []".toList ++ newline] else []
    else
      let survivors := itemLines.filter fun entry => entry.1 ∈ desired
      let newItems := desired.filter (· ∉ existing)
      fun index =>
        (newItems.filter fun value => anchorOf lines existing survivors firstItemLine value = index).map
          (entryLine indent newline)
  rebuild insertions (removedLines.contains ·) looksFinished (· ++ newline) [] 0 lines

/-- `_updated_scope_text`.  The paths of `existing` are distinct: the caller has checked it. -/
def updatedScopeText (text : Text) (target : SequenceNode) (existing desired : List Text) :
    Except ScopeError Text :=
  let indent := spaces target.startMark.column
  let lines := keptLines text
  match lines[target.startMark.line]? with
  | none => .error .indexError
  | some sampleLine =>
    let newline := if endsWithCrLf sampleLine then "\r\n".toList else "\n".toList
    if target.flowStyle then
      updatedFlowText text sampleLine newline indent target desired
    else if (target.value.take existing.length).any fun node =>
        node.startMark.line ≠ node.endMark.line then
      .error (.program "scope entries must occupy one line each")
    else if existing.length ≠ target.value.length then .error .valueError
    else
      let itemLines := existing.zip (target.value.map fun node => node.startMark.line)
      match (itemLines.map Prod.snd).min? with
      | none => .error .valueError
      | some firstItemLine =>
        .ok (updatedLines lines existing itemLines firstItemLine indent newline desired).flatten

end AxiomEncode.ProgramScope
