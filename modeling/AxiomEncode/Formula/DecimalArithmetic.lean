/-
# Formula.DecimalArithmetic -- the decimals of formulas

An operation of two decimals is computed to 64 digits and fitted into the 96-bit envelope at the largest
scale that holds it.  A minus sign before an operand is evaluated in the context of the caller, of 28 digits.
-/
import AxiomEncode.Theory.DecimalContext

namespace AxiomEncode.Formula.DecimalArithmetic

open Theory

set_option autoImplicit false

/-- `Decimal("79228162514264337593543950335")`, the largest coefficient of 96 bits. -/
def maximum : Int := 79228162514264337593543950335

/-- What a formula evaluates to, as far as arithmetic reads it. -/
inductive Value where
  | unresolved
  | boolean (value : Bool)
  | int (value : Int)
  /-- A finite float, as the decimal that its `str` writes. -/
  | float (written : FiniteDecimal)
  | decimal (value : FiniteDecimal)
  /-- Texts, dates, infinite floats and decimals. -/
  | other
  deriving DecidableEq

/-- The checks of `_rulespec_runtime_decimal` on a finite decimal. -/
def envelope (candidate : FiniteDecimal) : Option FiniteDecimal :=
  if candidate.coefficient = 0 then some ⟨0, 0⟩
  else
    let candidate :=
      if candidate.exponent < 0 then
        candidate.cutZeros (Nat.log 10 candidate.coefficient.natAbs + 1)
      else candidate
    if candidate.exponent < -28 then none
    else if (maximum : ℚ) < |candidate.value| then none
    else if candidate.exponent < 0 ∧ maximum < |candidate.coefficient| then none
    else some candidate

/-- `_rulespec_runtime_decimal` -/
def runtimeDecimal : Value → Option FiniteDecimal
  | .int value => envelope ⟨value, 0⟩
  | .float written => envelope written
  | .decimal value => envelope value
  | _ => none

inductive Operator where
  | plus
  | minus
  | star
  | slash
  deriving DecidableEq

inductive ArithmeticError where
  | invalidOperation
  | divisionByZero
  deriving DecidableEq

/-- One scale of the loop: its decimal if that fits, `none` where the loop goes on. -/
def fitScale (value : FiniteDecimal) (scale : Nat) : Option (Except ArithmeticError FiniteDecimal) :=
  match value.quantize 64 (-scale) with
  | none => some (.error .invalidOperation)
  | some rounded => if |(rounded.scaleb scale).value| ≤ maximum then some (.ok rounded) else none

/-- `_rulespec_decimal_result_value`, `for scale in range(28, -1, -1)`. -/
def decimalResultValue (value : FiniteDecimal) : Except ArithmeticError FiniteDecimal :=
  ((List.range 29).reverse.findSome? (fitScale value)).getD (.error .invalidOperation)

/-- `_rulespec_decimal_binary_operation` -/
def decimalBinaryOperation (left right : FiniteDecimal) (operator : Operator) :
    Except ArithmeticError FiniteDecimal :=
  match operator with
  | .plus => decimalResultValue ((left.sum right).fix 64)
  | .minus => decimalResultValue ((left.sum right.neg).fix 64)
  | .star => decimalResultValue ((left.product right).fix 64)
  | .slash =>
    if right.coefficient = 0 then
      -- zero over zero is undefined, an invalid operation
      .error (if left.coefficient = 0 then .invalidOperation else .divisionByZero)
    else decimalResultValue (left.quotient 64 right)

/-- The step of `parse_addition` and of `parse_multiplication`. -/
def evaluateBinary (left right : Value) (operator : Operator) : Value :=
  match runtimeDecimal left, runtimeDecimal right with
  | some left, some right =>
    match decimalBinaryOperation left right operator with
    | .ok value => .decimal value
    | .error _ => .unresolved
  | _, _ => .unresolved

/-- The branch of `parse_unary` for a minus sign, in the default context of 28 digits. -/
def evaluateMinus (operand : Value) : Value :=
  match runtimeDecimal operand with
  | some number => .decimal (number.neg.fix 28)
  | none => .unresolved

example : evaluateMinus (.decimal ⟨150, -2⟩) = .decimal ⟨-15, -1⟩ ∧
    decimalBinaryOperation ⟨2, 0⟩ ⟨3, 0⟩ .slash = .ok ⟨6666666666666666666666666667, -28⟩ := by
  decide +kernel

end AxiomEncode.Formula.DecimalArithmetic
