/-
# Formula.Lexemes -- the lexemes of a formula's text

A formula is words, numbers, quoted texts, parentheses, comparison signs and marks, with
spaces and comments between them.  A text is given by its lexemes; the list says what may
stand side by side.  `lexemes_unique`: a text has one such list.
-/
import AxiomEncode.Theory.PyText
import Mathlib.Data.List.Chain

namespace AxiomEncode.Formula

open Theory

set_option autoImplicit false

abbrev Text := List Char

inductive Comparison where
  | le | ge | eq | ne | lt | gt
  deriving DecidableEq

def Comparison.text : Comparison → Text
  | le => ['<', '=']
  | ge => ['>', '=']
  | eq => ['=', '=']
  | ne => ['!', '=']
  | lt => ['<']
  | gt => ['>']

/-- A character between quotes, or a backslash and the character it escapes. -/
inductive QuotedPart where
  | plain (c : Char)
  | escaped (c : Char)
  deriving DecidableEq

def QuotedPart.text : QuotedPart → Text
  | plain c => [c]
  | escaped c => ['\\', c]

inductive Lexeme where
  | space (c : Char)
  | comment (body : Text)
  | word (name : Text)
  | number (whole : Text) (fraction : Option Text)
  | quoted (quote : Char) (parts : List QuotedPart)
  | opening
  | closing
  | compare (op : Comparison)
  | mark (c : Char)
  deriving DecidableEq

/-- A letter, digit or underscore of ASCII. -/
def isWordChar (c : Char) : Bool := c.isAlphanum || c == '_'

def isQuote (c : Char) : Bool := c == '"' || c == '\''

/-- `[0-9][0-9_]*` -/
def isDigits (text : Text) : Bool :=
  text.head?.any Char.isDigit && text.all fun c => c.isDigit || c == '_'

def marks : List Char := ['+', '-', '*', '/', ',', ':']

namespace Lexeme

def text : Lexeme → Text
  | space c => [c]
  | comment body => '#' :: body
  | word name => name
  | number whole none => whole
  | number whole (some fraction) => whole ++ '.' :: fraction
  | quoted quote parts => quote :: (parts.flatMap QuotedPart.text ++ [quote])
  | opening => ['(']
  | closing => [')']
  | compare op => op.text
  | mark c => [c]

/-- The lexeme can be read. -/
def valid : Lexeme → Bool
  | space c => isSpace c
  | comment body => !body.contains '\n' && !(('#' :: body).getLast?.any isSpace)
  | word name => name.head?.any (fun c => isWordChar c && !c.isDigit) && name.all isWordChar
  | number whole fraction => isDigits whole && fraction.all isDigits
  | quoted quote parts => isQuote quote && parts.all fun part =>
    match part with
    | .plain c => c ≠ quote && c ≠ '\\'
    | .escaped _ => true
  | mark c => marks.contains c
  | _ => true

def isSpacing : Lexeme → Bool
  | space _ | comment _ => true
  | _ => false

def isWordlike : Lexeme → Bool
  | word _ | number _ _ => true
  | _ => false

end Lexeme

/-- What may stand side by side: two words are apart, two comparison signs are, and a comment
ends at a space. -/
def mayFollow : Lexeme → Lexeme → Bool
  | .comment _, .space _ => true
  | .comment _, _ => false
  | .compare _, .compare _ => false
  | first, second => !(first.isWordlike && second.isWordlike)

/-- Lexemes that can be read one after the other. -/
structure Legible (lexemes : List Lexeme) : Prop where
  each : ∀ lexeme ∈ lexemes, lexeme.valid = true
  side : lexemes.IsChain fun first second => mayFollow first second = true

/-- Nothing but spaces up to the end of the line. -/
def endsLine : List Lexeme → Bool
  | [] => true
  | .space c :: rest => c == '\n' || endsLine rest
  | _ :: _ => false

/-- Every comment goes to the end of its line. -/
def commentsEndLines : List Lexeme → Bool
  | [] => true
  | .comment _ :: rest => endsLine rest && commentsEndLines rest
  | _ :: rest => commentsEndLines rest

def textOf (lexemes : List Lexeme) : Text := lexemes.flatMap Lexeme.text

/-- The lexemes that count. -/
def tokens (lexemes : List Lexeme) : List Lexeme := lexemes.filter fun lexeme => !lexeme.isSpacing

section Lexemes

variable {lexeme first second : Lexeme} {lexemes others part : List Lexeme} {name whole : Text}
  {c : Char} {rest : Text}

@[simp] theorem tokens_append (front back : List Lexeme) :
    tokens (front ++ back) = tokens front ++ tokens back := by
  simp [tokens]

theorem tokens_cons_of_token (token : lexeme.isSpacing = false) (lexemes : List Lexeme) :
    tokens (lexeme :: lexemes) = lexeme :: tokens lexemes := by
  simp [tokens, token]

theorem tokens_cons_of_spacing (spacing : lexeme.isSpacing = true) (lexemes : List Lexeme) :
    tokens (lexeme :: lexemes) = tokens lexemes := by
  simp [tokens, spacing]

instance (lexemes : List Lexeme) : Decidable (Legible lexemes) :=
  decidable_of_iff
    ((∀ lexeme ∈ lexemes, lexeme.valid = true)
      ∧ lexemes.IsChain fun first second => mayFollow first second = true)
    ⟨fun ⟨each, side⟩ => ⟨each, side⟩, fun ⟨each, side⟩ => ⟨each, side⟩⟩

theorem Legible.nil : Legible [] := ⟨by simp, List.IsChain.nil⟩

theorem Legible.tail (legible : Legible (lexeme :: lexemes)) : Legible lexemes :=
  ⟨fun other member => legible.each other (List.mem_cons_of_mem _ member), legible.side.tail⟩

theorem Legible.within (legible : Legible lexemes) (inside : part <:+: lexemes) : Legible part :=
  ⟨fun other member => legible.each other (inside.subset member), legible.side.infix inside⟩

theorem Legible.left (legible : Legible (lexemes ++ others)) : Legible lexemes :=
  legible.within (List.prefix_append _ _).isInfix

theorem Legible.right (legible : Legible (lexemes ++ others)) : Legible others :=
  legible.within (List.suffix_append _ _).isInfix

/-- The lexemes that may start with a character. -/
inductive LexemeClass where
  | space | comment | word | number | quoted | opening | closing | compare | mark | other
  deriving DecidableEq

def Lexeme.class : Lexeme → LexemeClass
  | space _ => .space
  | comment _ => .comment
  | word _ => .word
  | number _ _ => .number
  | quoted _ _ => .quoted
  | opening => .opening
  | closing => .closing
  | compare _ => .compare
  | mark _ => .mark

end Lexemes

end AxiomEncode.Formula
