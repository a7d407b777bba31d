/-
# Validator.ConstantFalse -- which Judgment rules need no positive case

A rule whose formulas are all false for syntactic reasons is exempted from a positive
companion case.  A worklist takes the formula apart at `and`; each part is read by scanners
that know quotes and parentheses.

A scanner carries where it stands among quotes (`Quoting`) and how deep in parentheses.
`isWord` is `\w` of a pattern.
-/
import AxiomEncode.Formula.Grammar
import AxiomEncode.Theory.PyYaml

namespace AxiomEncode.Validator

open Theory
open Formula (Text Comparison isQuote isDigits bareDigits)

set_option autoImplicit false

/-- `quote` and `escaped` -/
inductive Quoting where
  | outside
  | inside (quote : Char) (escaped : Bool)
  deriving DecidableEq

def Quoting.step (c : Char) : Quoting → Quoting
  | outside => if isQuote c then inside c false else outside
  | inside quote true => inside quote false
  | inside quote false =>
    if c = '\\' then inside quote true else if c = quote then outside else inside quote false

/-- The character belongs to a quoted text. -/
def Quoting.reads (quoting : Quoting) (c : Char) : Bool := quoting ≠ .outside || isQuote c

/-- `matching_parentheses`, by the position of the opening one; `none` where a closing
parenthesis has no partner, or where something stays open. -/
def matchingParentheses (quoting : Quoting) (index : Nat) (opening : List Nat)
    (found : List (Nat × Nat)) : Text → Option (List (Nat × Nat))
  | [] => if quoting ≠ .outside || !opening.isEmpty then none else some found
  | c :: rest =>
    if quoting.reads c then
      matchingParentheses (quoting.step c) (index + 1) opening found rest
    else if c = '(' then matchingParentheses quoting (index + 1) (index :: opening) found rest
    else if c = ')' then
      match opening with
      | [] => none
      | start :: opening =>
        matchingParentheses quoting (index + 1) opening ((start, index) :: found) rest
    else matchingParentheses quoting (index + 1) opening found rest

/-- The loop over `start` and `end`; `window` is the text between them, both included. -/
def unwrap (found : List (Nat × Nat)) : Nat → Nat → Text → Text
  | 0, _, window => window
  | fuel + 1, start, window =>
    if 1 < window.length ∧ found.lookup start = some (start + window.length - 1) then
      let inner := window.tail.dropLast
      unwrap found fuel (start + 1 + (inner.takeWhile isSpace).length) (strip inner)
    else window

/-- `_strip_balanced_outer_parentheses` -/
def stripBalancedOuterParentheses (expression : Text) : Text :=
  let stripped := strip expression
  if stripped.head? ≠ some '(' ∨ stripped.getLast? ≠ some ')' then stripped
  else
    match matchingParentheses .outside 0 [] [] stripped with
    | none => stripped
    | some found => unwrap found stripped.length 0 stripped

/-! ## Splitting at an operator -/

/-- `\b` between two characters. -/
def isBoundary (isWord : Char → Bool) (before after : Option Char) : Bool :=
  before.any isWord != after.any isWord

/-- `\b` + operator + `\b` matches here. -/
def matchesWord (isWord : Char → Bool) (operator : Text) (before : Option Char) (rest : Text) : Bool :=
  isBoundary isWord before rest.head? && operator.isPrefixOf rest
    && isBoundary isWord operator.getLast? (rest.drop operator.length).head?

/-- The parts between the operators; the first `skip` characters belong to an operator that
was found, `part` is what was read of the current part. -/
def splitFrom (isWord : Char → Bool) (operator : Text) (quoting : Quoting) (depth : Nat)
    (before : Option Char) (skip : Nat) (part : Text) : Text → List Text
  | [] => [part]
  | c :: rest =>
    match skip with
    | skip + 1 => splitFrom isWord operator quoting depth (some c) skip part rest
    | 0 =>
      if quoting.reads c then
        splitFrom isWord operator (quoting.step c) depth (some c) 0 (part ++ [c]) rest
      else if c = '(' then
        splitFrom isWord operator quoting (depth + 1) (some c) 0 (part ++ [c]) rest
      else if c = ')' then
        splitFrom isWord operator quoting (depth - 1) (some c) 0 (part ++ [c]) rest
      else if depth = 0 && matchesWord isWord operator before (c :: rest) then
        part :: splitFrom isWord operator quoting depth (some c) (operator.length - 1) [] rest
      else splitFrom isWord operator quoting depth (some c) 0 (part ++ [c]) rest

/-- `_split_top_level_boolean_operator` -/
def splitTopLevelBooleanOperator (isWord : Char → Bool) (expression operator : Text) : List Text :=
  ((splitFrom isWord operator .outside 0 none 0 [] expression).map strip).filter (· ≠ [])

/-! ## Literal comparisons -/

/-- The first operator of `("<=", ">=", "==", "!=", "<", ">")` that the text starts with. -/
def operatorAt (text : Text) : Option Comparison :=
  [Comparison.le, .ge, .eq, .ne, .lt, .gt].find? fun op => op.text.isPrefixOf text

/-- The operators outside quotes and parentheses, each with the text before and behind it;
`read` is the text that was read. -/
def comparisonsFrom (quoting : Quoting) (depth : Nat) (skip : Nat) (read : Text) :
    Text → Option (List (Text × Comparison × Text))
  | [] => if quoting ≠ .outside || depth ≠ 0 then none else some []
  | c :: rest =>
    match skip with
    | skip + 1 => comparisonsFrom quoting depth skip (read ++ [c]) rest
    | 0 =>
      if quoting.reads c then comparisonsFrom (quoting.step c) depth 0 (read ++ [c]) rest
      else if c = '(' then comparisonsFrom quoting (depth + 1) 0 (read ++ [c]) rest
      else if c = ')' then
        if depth = 0 then none else comparisonsFrom quoting (depth - 1) 0 (read ++ [c]) rest
      else
        match if depth = 0 then operatorAt (c :: rest) else none with
        | some op => do
          let later ← comparisonsFrom quoting depth (op.text.length - 1) (read ++ [c]) rest
          pure ((read, op, (c :: rest).drop op.text.length) :: later)
        | none => comparisonsFrom quoting depth 0 (read ++ [c]) rest

/-- `_split_rulespec_literal_comparison` -/
def splitRulespecLiteralComparison (expression : Text) : Option (Text × Comparison × Text) :=
  match comparisonsFrom .outside 0 0 [] expression with
  | some [(left, op, right)] =>
    if strip left = [] ∨ strip right = [] then none else some (strip left, op, strip right)
  | _ => none

inductive Literal where
  | boolean (truth : Bool)
  | integer (value : Int)
  | decimal (value : ℚ)
  | text (value : Text)
  deriving DecidableEq

def removeMinus (literal : Text) : Text := if literal.head? = some '-' then literal.tail else literal

def isNegative (literal : Text) : Bool := literal.head? = some '-'

/-- `text.lstrip("0") or "0"` -/
def withoutLeadingZeros (text : Text) : Text :=
  let rest := text.dropWhile (· = '0')
  if rest = [] then ['0'] else rest

/-- The characters between the quotes, with their escapes; `none` at a quote or a lone
backslash. -/
def quotedValue (quote : Char) : Text → Option Text
  | [] => some []
  | c :: rest =>
    if c = quote then none
    else if c ≠ '\\' then (c :: ·) <$> quotedValue quote rest
    else
      match rest with
      | [] => none
      | escaped :: rest => (Formula.unescape escaped :: ·) <$> quotedValue quote rest

/-- `-?[0-9][0-9_]*` -/
def integerLiteral (literal : Text) : Option (Option Literal) :=
  if isDigits (removeMinus literal) then
    let magnitude := withoutLeadingZeros (bareDigits (removeMinus literal))
    let value : Int := digitsValue magnitude
    some (if 19 < magnitude.length ∨ value > 2 ^ 63 - 1 then none
      else some (.integer (if isNegative literal then -value else value)))
  else none

/-- `-?[0-9][0-9_]*\.[0-9][0-9_]*` -/
def decimalLiteral (literal : Text) : Option (Option Literal) :=
  match (removeMinus literal).splitOn '.' with
  | [whole, fractional] =>
    if isDigits whole && isDigits fractional then
      let places := bareDigits fractional
      let coefficientText := withoutLeadingZeros (bareDigits whole ++ places)
      let value : ℚ := digitsValue coefficientText / 10 ^ places.length
      some (if 28 < places.length ∨ 29 < coefficientText.length
          ∨ digitsValue coefficientText > 2 ^ 96 - 1 then none
        else some (.decimal (if isNegative literal then -value else value)))
    else none
  | _ => none

/-- `_rulespec_literal_value` -/
def rulespecLiteralValue (expression : Text) : Option Literal :=
  let literal := stripBalancedOuterParentheses (strip expression)
  if literal = "true".toList ∨ literal = "True".toList then some (.boolean true)
  else if literal = "false".toList ∨ literal = "False".toList then some (.boolean false)
  else
    match integerLiteral literal with
    | some answer => answer
    | none =>
      match decimalLiteral literal with
      | some answer => answer
      | none =>
        match literal with
        | quote :: body =>
          if isQuote quote && body.getLast? = some quote then
            Literal.text <$> quotedValue quote body.dropLast
          else none
        | [] => none

/-- `Decimal(value)` of a number. -/
def Literal.number? : Literal → Option ℚ
  | integer value => some value
  | decimal value => some value
  | _ => none

/-- The comparison of two literal values. -/
def compareLiterals (op : Comparison) (left right : Literal) : Option Bool :=
  match left.number?, right.number? with
  | some a, some b => some (op.onNumbers a b)
  | _, _ =>
    match left, right with
    | .boolean a, .boolean b => op.onEqual (a = b)
    | .text a, .text b => op.onEqual (a = b)
    | _, _ => none

/-- `_literal_comparison_truth_value` -/
def literalComparisonTruthValue (expression : Text) : Option Bool := do
  let (leftText, op, rightText) ← splitRulespecLiteralComparison expression
  let left ← rulespecLiteralValue leftText
  let right ← rulespecLiteralValue rightText
  compareLiterals op left right

/-! ## The worklist -/

/-- The text that a turn of the loop looks at. -/
def exactText (part : Text) : Text := stripBalancedOuterParentheses (strip part)

def isFalseWord (exact : Text) : Bool := exact = "false".toList || exact = "False".toList

end AxiomEncode.Validator
