/-
# Theory.PyNumber -- decimal texts and binary64 numbers

A decimal text is read to the rational number it writes (`readDecimal`), and `binary64`
rounds a rational to the nearest float, ties to even.  A float is a rational or an
infinity; the sign of a zero is not kept.
-/
import Mathlib.Data.Rat.Floor
import Mathlib.Tactic.Common

namespace AxiomEncode.Theory

set_option autoImplicit false

/-- The zeros of the decimal digits, nine more digits behind each. -/
def decimalZeros : List Nat :=
  [0x30, 0x660, 0x6f0, 0x7c0, 0x966, 0x9e6, 0xa66, 0xae6, 0xb66, 0xbe6, 0xc66, 0xce6, 0xd66, 0xde6,
    0xe50, 0xed0, 0xf20, 0x1040, 0x1090, 0x17e0, 0x1810, 0x1946, 0x19d0, 0x1a80, 0x1a90, 0x1b50,
    0x1bb0, 0x1c40, 0x1c50, 0xa620, 0xa8d0, 0xa900, 0xa9d0, 0xa9f0, 0xaa50, 0xabf0, 0xff10, 0x104a0,
    0x10d30, 0x11066, 0x110f0, 0x11136, 0x111d0, 0x112f0, 0x11450, 0x114d0, 0x11650, 0x116c0,
    0x11730, 0x118e0, 0x11950, 0x11c50, 0x11d50, 0x11da0, 0x11f50, 0x16a60, 0x16ac0, 0x16b50,
    0x1d7ce, 0x1d7d8, 0x1d7e2, 0x1d7ec, 0x1d7f6, 0x1e140, 0x1e2f0, 0x1e4f0, 0x1e950, 0x1fbf0]

/-- The value of a decimal digit, `\d`. -/
def digit? (c : Char) : Option Nat :=
  (decimalZeros.find? fun start => start ≤ c.toNat && c.toNat < start + 10).map (c.toNat - ·)

/-- `\d+`, the whole text. -/
def allDigits (text : List Char) : Bool := text ≠ [] && text.all fun c => (digit? c).isSome

def readDigits (text : List Char) : Nat :=
  text.foldl (fun value c => 10 * value + (digit? c).getD 0) 0

/-- A decimal text that was read: its value, and whether it has a fraction. -/
structure Decimal where
  value : ℚ
  isWhole : Bool
  deriving DecidableEq

/-- `-?\d+(?:\.\d+)?`, the whole text. -/
def readDecimal (text : List Char) : Option Decimal :=
  let digits := if text.head? = some '-' then text.drop 1 else text
  let sign : ℚ := if text.head? = some '-' then -1 else 1
  let whole := digits.takeWhile (· ≠ '.')
  let fraction := (digits.dropWhile (· ≠ '.')).drop 1
  if !allDigits whole then none
  else if !digits.contains '.' then some ⟨sign * readDigits whole, true⟩
  else if allDigits fraction then
    some ⟨sign * (readDigits whole + readDigits fraction / 10 ^ fraction.length), false⟩
  else none

/-! ## Floats -/

inductive PyFloat where
  | finite (value : ℚ)
  | inf
  | negInf
  deriving DecidableEq

/-- The exponent of the highest bit of a positive rational. -/
def exponentOf (q : ℚ) : Int :=
  let guess : Int := (Nat.log2 q.num.natAbs : Int) - Nat.log2 q.den
  if q < 2 ^ guess then guess - 1 else guess

/-- The nearest integer, ties to even. -/
def roundEven (q : ℚ) : Int :=
  let below := ⌊q⌋
  if q - below < 1 / 2 then below
  else if 1 / 2 < q - below then below + 1
  else if below % 2 = 0 then below else below + 1

/-- The nearest float. -/
def binary64 (q : ℚ) : PyFloat :=
  if q = 0 then .finite 0
  else
    let unit : Int := max (exponentOf |q| - 52) (-1074)
    let rounded : ℚ := roundEven (q / 2 ^ unit) * 2 ^ unit
    if 2 ^ (1024 : Int) ≤ rounded then .inf
    else if rounded ≤ -2 ^ (1024 : Int) then .negInf
    else .finite rounded

namespace PyFloat

/-- `bound <= x` -/
def le (bound : PyFloat) (x : ℚ) : Bool :=
  match bound with
  | .finite value => value ≤ x
  | .inf => false
  | .negInf => true

/-- `x < bound` -/
def gt (bound : PyFloat) (x : ℚ) : Bool := !bound.le x

/-- `math.isclose(a, b, rel_tol=0, abs_tol=tolerance)` -/
def isClose (a b : PyFloat) (tolerance : ℚ) : Bool :=
  if a = b then true
  else
    match a, b with
    | .finite a, .finite b => (binary64 |b - a|).le tolerance
    | _, _ => false

end PyFloat

end AxiomEncode.Theory
