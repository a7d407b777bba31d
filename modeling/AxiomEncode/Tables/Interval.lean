/-
# Tables.Interval -- tables of intervals and the formulas that select their rows

A source table with the columns "at least" and "but less than" is parsed to rows of
numeric cells.  `buildIntervalSelectorFormula` writes a formula that selects a row by
comparing an input with parameters that hold the bounds of all rows, and
`intervalSelectorKeyForValue` selects a row directly, to write the expected outputs of
tests.  A formula is kept as the tree that its text stands for (`render`).
-/
import AxiomEncode.Theory.Checks
import AxiomEncode.Theory.PyNumber
import AxiomEncode.Theory.PyText
import AxiomEncode.Theory.Regex

namespace AxiomEncode.Tables

open Theory

set_option autoImplicit false

abbrev Text := List Char

/-! ## Numeric cells -/

/-- `_parse_source_numeric_cell`, before the rounding to a float. -/
def parseSourceNumericCell (cell : Text) : Option Decimal :=
  readDecimal ((strip cell).filter (· ≠ ','))

/-- A cell that `_parse_source_numeric_cell` accepts. -/
abbrev NumericCell := { text : Text // (parseSourceNumericCell text).isSome = true }

def toNumericCell (text : Text) : Option NumericCell :=
  if accepted : (parseSourceNumericCell text).isSome = true then some ⟨text, accepted⟩ else none

/-- A value of a bound parameter: an `int` or a `float`. -/
inductive Bound where
  | whole (value : ℚ)
  | float (value : PyFloat)
  deriving DecidableEq

/-- `bound <= x` -/
def Bound.le (bound : Bound) (x : ℚ) : Bool :=
  match bound with
  | .whole value => value ≤ x
  | .float value => value.le x

/-- `_coerce_interval_source_bound_value` -/
def coerceIntervalSourceBoundValue (raw : Text) : Option Bound :=
  (readDecimal ((strip raw).filter (· ≠ ','))).map fun decimal =>
    if decimal.isWhole then .whole decimal.value else .float (binary64 decimal.value)

/-- `float(raw)` of a cell: a numeral, without separators. -/
def floatOf (raw : Text) : Except Text PyFloat :=
  match readDecimal (strip raw) with
  | some decimal => .ok (binary64 decimal.value)
  | none => .error ("could not convert string to float: '".toList ++ raw ++ ['\''])

/-! ## Rows -/

/-- `_IntervalSourceRow`: an open bound is `None`. -/
structure IntervalSourceRow where
  lower : Option NumericCell
  upper : Option NumericCell
  outputs : List NumericCell
  deriving DecidableEq

/-- `_IntervalSourceTable`: at least one row, and as many outputs in each. -/
structure IntervalSourceTable where
  outputHeaders : List Text
  rows : List IntervalSourceRow
  outputCount : Nat
  rows_ne_nil : rows ≠ []
  outputCount_pos : 0 < outputCount
  length_outputs : ∀ row ∈ rows, row.outputs.length = outputCount

/-- `_source_table_cells` -/
def sourceTableCells (line : Text) : List Text :=
  if line.contains '|' then ((line.splitOn '|').map strip).filter (· ≠ []) else []

/-- `str.lower()` of one character, as far as it is a letter or digit of ASCII. -/
def lower (c : Char) : Char :=
  if c = '\u212a' then 'k' else if c = '\u0130' then 'i' else c.toLower

/-- `_normalized_text` -/
def normalizedText (value : Text) : Text :=
  (value.map lower).filter fun c => c.isLower || c.isDigit

/-- `_find_interval_row_key_header_index` -/
def findIntervalRowKeyHeaderIndex : List Text → Option Nat
  | first :: second :: rest =>
    if normalizedText first = "atleast".toList && normalizedText second = "butlessthan".toList then
      some 0
    else (findIntervalRowKeyHeaderIndex (second :: rest)).map (· + 1)
  | _ => none

/-- `_is_markdown_separator_cell` -/
def isMarkdownSeparatorCell (cell : Text) : Bool :=
  (Regex.sequence [.opt (.char ':'), .atLeast (.char '-') 2, .opt (.char ':')]).fullMatch (strip cell)

/-- `_parse_interval_bound_cell`: nothing for `_UNPARSED_BOUND`. -/
def parseIntervalBoundCell (cell : Text) : Option (Option NumericCell) :=
  let normalized := strip cell
  if normalized.all fun c => c = '.' || c = '…' then some none
  else (toNumericCell normalized).map some

/-- `_compact_interval_output_headers` -/
def compactIntervalOutputHeaders (cells : List Text) (rowKeyIndex : Nat) : List Text :=
  ((cells.take rowKeyIndex).takeWhile fun cell => !isMarkdownSeparatorCell cell).drop 2

/-- One group of cells of a compact row. -/
def compactRow (group : List Text) : Option IntervalSourceRow :=
  match group with
  | first :: second :: rest => do
    let lower ← parseIntervalBoundCell first
    let upper ← parseIntervalBoundCell second
    let outputs ← rest.mapM toNumericCell
    some ⟨lower, upper, outputs⟩
  | _ => none

/-- Groups of one size. -/
def groupsOf (size : Nat) (cells : List Text) : List (List Text) :=
  (List.range (cells.length / size)).map fun i => (cells.drop (i * size)).take size

/-- `_compact_interval_rows_from_cells` -/
def compactIntervalRowsFromCells (cells : List Text) (outputCount : Option Nat) :
    List IntervalSourceRow :=
  let counts := match outputCount with
    | some count => [count]
    | none => List.range' 1 7
  (counts.findSome? fun count =>
    if count = 0 || cells.length % (count + 2) ≠ 0 then none
    else
      match (groupsOf (count + 2) cells).mapM compactRow with
      | some rows => if 1 < rows.length then some rows else none
      | none => none).getD []

/-- The bounds at the head of some cells, with the numeric cells behind them. -/
def rowAt (cells : List Text) : Option IntervalSourceRow :=
  match cells with
  | first :: second :: rest => do
    let lower ← parseIntervalBoundCell first
    let upper ← parseIntervalBoundCell second
    let outputs := rest.filterMap toNumericCell
    if outputs = [] then none else some ⟨lower, upper, outputs⟩
  | _ => none

/-- `_interval_row_cells_from_cells` -/
def intervalRowCellsFromCells (cells : List Text) : Except Text (Option IntervalSourceRow) :=
  let cells := match findIntervalRowKeyHeaderIndex cells with
    | some index => cells.drop (index + 2)
    | none => cells
  if cells = [] then .error "list index out of range".toList
  else .ok ((List.range (max 1 (cells.length - 2))).findSome? fun start => rowAt (cells.drop start))

/-- `_cells_look_like_interval_row` -/
def cellsLookLikeIntervalRow (cells : List Text) : Bool :=
  cells.head?.any fun cell => (parseIntervalBoundCell cell).isSome

/-- What the loop over the lines keeps: the headers and the rows so far. -/
abbrev TableParts := List Text × List IntervalSourceRow

/-- A row of its own. -/
def addRow (parts : TableParts) (cells : List Text) : Except Text TableParts := do
  match ← intervalRowCellsFromCells cells with
  | some row => pure (parts.1, parts.2 ++ [row])
  | none => pure parts

/-- A line of cells. -/
def addCells (parts : TableParts) (cells : List Text) : Except Text TableParts :=
  match findIntervalRowKeyHeaderIndex cells with
  | none => addRow parts cells
  | some index =>
    let candidates := cells.drop (index + 2)
    if candidates = [] then addRow parts cells
    else if !cellsLookLikeIntervalRow candidates then addRow (candidates, parts.2) cells
    else
      let headers := compactIntervalOutputHeaders cells index
      let count := if headers.length = 0 then none else some headers.length
      let rows := compactIntervalRowsFromCells candidates count
      if rows = [] then addRow parts cells
      else .ok (if headers = [] then parts.1 else headers, parts.2 ++ rows)

def addLine (parts : TableParts) (line : Text) : Except Text TableParts :=
  if sourceTableCells line = [] then .ok parts else addCells parts (sourceTableCells line)

/-- The rows make a table. -/
def tableOf (parts : TableParts) : Option IntervalSourceTable :=
  match parts.2 with
  | [] => none
  | row :: rest =>
    let count := row.outputs.length
    if shaped : 0 < count ∧ ∀ other ∈ row :: rest, other.outputs.length = count then
      let headers := if parts.1.length = count then parts.1 else []
      some ⟨headers, row :: rest, count, List.cons_ne_nil _ _, shaped.1, shaped.2⟩
    else none

/-- `_parse_interval_source_table` -/
def parseIntervalSourceTable (text : Text) : Except Text (Option IntervalSourceTable) := do
  let parts ← (splitlines text).foldlM addLine ([], [])
  pure (tableOf parts)

/-! ## The formula -/

inductive Side where
  | lower
  | upper
  deriving DecidableEq

def IntervalSourceRow.bound (row : IntervalSourceRow) : Side → Option NumericCell
  | .lower => row.lower
  | .upper => row.upper

/-- What the input is compared with: an entry of a bound parameter, or the cell. -/
inductive Operand where
  | entry (name : Text) (row : Nat)
  | cell (raw : Text)
  deriving DecidableEq

/-- `input >= operand` for a lower bound, `input < operand` for an upper one. -/
structure Comparison where
  side : Side
  operand : Operand
  deriving DecidableEq

inductive SelectorFormula where
  | row (index : Nat)
  /-- `if condition: index else: otherwise` -/
  | choose (condition : List Comparison) (index : Nat) (otherwise : SelectorFormula)
  deriving DecidableEq

def showNat (n : Nat) : Text := (toString n).toList

def Operand.render : Operand → Text
  | .entry name row => name ++ '[' :: (showNat row ++ [']'])
  | .cell raw => raw

def Comparison.render (input : Text) (comparison : Comparison) : Text :=
  match comparison.side with
  | .lower => input ++ " >= ".toList ++ comparison.operand.render
  | .upper => input ++ " < ".toList ++ comparison.operand.render

/-- The text of a formula. -/
def SelectorFormula.render (input : Text) : SelectorFormula → Text
  | .row index => showNat index
  | .choose condition index otherwise =>
    "if ".toList ++ " and ".toList.intercalate (condition.map (Comparison.render input)) ++
      ": ".toList ++ showNat index ++ " else: ".toList ++ otherwise.render input

/-- The comparison of one side of a row, if it is bounded. -/
def sideCondition (side : Side) (name : Option Text) (row : IntervalSourceRow) (index : Nat) :
    List Comparison :=
  match row.bound side with
  | none => []
  | some cell =>
    match name with
    | some name => [⟨side, .entry name index⟩]
    | none => [⟨side, .cell cell.val⟩]

/-- `_interval_row_condition` -/
def intervalRowCondition (lowerName upperName : Option Text) (row : IntervalSourceRow)
    (index : Nat) : List Comparison :=
  sideCondition .lower lowerName row index ++ sideCondition .upper upperName row index

/-- The tolerance of `math.isclose`, as a float. -/
def tolerance : ℚ := 4951760157141521 / 4951760157141521099596496896

/-- `_interval_rows_are_contiguous`, for two rows or more. -/
def bordersMeet : List IntervalSourceRow → Except Text Bool
  | previous :: current :: rest =>
    match previous.upper, current.lower with
    | some upper, some lower => do
      let upper ← floatOf upper.val
      let lower ← floatOf lower.val
      if upper.isClose lower tolerance then bordersMeet (current :: rest) else pure false
    | _, _ => .ok false
  | _ => .ok true

/-- `_interval_rows_are_contiguous` -/
def intervalRowsAreContiguous (rows : List IntervalSourceRow) : Except Text Bool :=
  if rows.length < 2 then .ok false else bordersMeet rows

/-- The chain of conditions before a tail. -/
def chain (lowerName upperName : Option Text) (start : Nat) (rows : List IntervalSourceRow)
    (tail : SelectorFormula) : SelectorFormula :=
  (rows.zipIdx start).foldr (fun entry tail =>
    match intervalRowCondition lowerName upperName entry.1 entry.2 with
    | [] => .row entry.2
    | condition => .choose condition entry.2 tail) tail

/-- `_build_interval_selector_formula` -/
def buildIntervalSelectorFormula (rows : List IntervalSourceRow) (lowerName upperName : Option Text) :
    Except Text (Option SelectorFormula) :=
  if rows = [] then .ok none
  else do
    let contiguous ← intervalRowsAreContiguous rows
    if contiguous && (rows.getLast?.all fun row => row.upper.isNone) then
      pure (some (chain lowerName upperName 1 rows.dropLast (.row rows.length)))
    else pure (some (chain lowerName upperName 1 rows (.row 0)))

/-- `_interval_bound_values` -/
def intervalBoundValues (rows : List IntervalSourceRow) (side : Side) (start : Nat) :
    List (Nat × Bound) :=
  (rows.zipIdx start).filterMap fun entry =>
    (entry.1.bound side).bind fun cell =>
      (coerceIntervalSourceBoundValue cell.val).map (entry.2, ·)

/-! ## What a formula selects -/

/-- The number that an operand stands for, given the bound parameter of its side. -/
def Operand.eval (values : List (Nat × Bound)) : Operand → Option Bound
  | .entry _ row => values.lookup row
  | .cell raw => coerceIntervalSourceBoundValue raw

def Comparison.eval (values : Side → List (Nat × Bound)) (x : ℚ) (comparison : Comparison) :
    Option Bool :=
  (comparison.operand.eval (values comparison.side)).map fun bound =>
    match comparison.side with
    | .lower => bound.le x
    | .upper => !bound.le x

/-- A conjunction, up to its first comparison that fails. -/
def evalCondition (values : Side → List (Nat × Bound)) (x : ℚ) : List Comparison → Option Bool
  | [] => some true
  | comparison :: rest => do
    if ← comparison.eval values x then evalCondition values x rest else some false

/-- The value of a formula, nothing if it looks up an entry that is not there. -/
def SelectorFormula.eval (values : Side → List (Nat × Bound)) (x : ℚ) : SelectorFormula → Option Nat
  | .row index => some index
  | .choose condition index otherwise => do
    if ← evalCondition values x condition then some index else otherwise.eval values x

/-- The turns of the loop from a row on. -/
def selectorKeyFrom (x : ℚ) (start : Nat) : List IntervalSourceRow → Except Text (Option Nat)
  | [] => .ok none
  | row :: rest => do
    let lowerOk ← match row.lower with
      | none => pure true
      | some cell => (floatOf cell.val).map (·.le x)
    let upperOk ← match row.upper with
      | none => pure true
      | some cell => (floatOf cell.val).map (·.gt x)
    if lowerOk && upperOk then pure (some start) else selectorKeyFrom x (start + 1) rest

/-- `_interval_selector_key_for_value` -/
def intervalSelectorKeyForValue (x : ℚ) (rows : List IntervalSourceRow) : Except Text (Option Nat) :=
  selectorKeyFrom x 1 rows

end AxiomEncode.Tables
