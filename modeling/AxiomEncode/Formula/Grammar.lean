/-
# Formula.Grammar -- what a formula means

`Denotes` is the grammar: a conditional stands where an expression starts, and then come
`or`, `and`, `not`, one comparison, sums, products, signs, names, literals, groups and
calls.  A formula means a value in every environment.  The operators have their usual
meaning on numbers, texts and truth values; on other values the environment says what they do.
-/
import AxiomEncode.Formula.Lexemes
import AxiomEncode.Theory.Digits
import Mathlib.Algebra.Order.Field.Rat

namespace AxiomEncode.Formula

open Theory

set_option autoImplicit false

inductive Value where
  | boolean (truth : Bool)
  | number (value : ℚ)
  | text (value : Text)
  | other (tag : Nat)
  deriving DecidableEq

structure Environment where
  variable_ : Text → Value
  call : Text → List Value → Value
  /-- An operator on values it is not made for. -/
  otherwise : Text → List Value → Value

abbrev Meaning := Environment → Value

/-! ## The operators -/

def Comparison.onNumbers : Comparison → ℚ → ℚ → Bool
  | le, a, b => a ≤ b
  | ge, a, b => b ≤ a
  | eq, a, b => a = b
  | ne, a, b => a ≠ b
  | lt, a, b => a < b
  | gt, a, b => b < a

/-- Texts and truth values are equal or not. -/
def Comparison.onEqual : Comparison → Bool → Option Bool
  | eq, same => some same
  | ne, same => some !same
  | _, _ => none

def Comparison.apply (op : Comparison) (env : Environment) : Value → Value → Value
  | .number a, .number b => .boolean (op.onNumbers a b)
  | .text a, .text b =>
    match op.onEqual (a = b) with
    | some truth => .boolean truth
    | none => env.otherwise op.text [.text a, .text b]
  | .boolean a, .boolean b =>
    match op.onEqual (a = b) with
    | some truth => .boolean truth
    | none => env.otherwise op.text [.boolean a, .boolean b]
  | a, b => env.otherwise op.text [a, b]

def Value.and (env : Environment) : Value → Value → Value
  | .boolean false, _ => .boolean false
  | _, .boolean false => .boolean false
  | .boolean true, .boolean true => .boolean true
  | a, b => env.otherwise "and".toList [a, b]

def Value.or (env : Environment) : Value → Value → Value
  | .boolean true, _ => .boolean true
  | _, .boolean true => .boolean true
  | .boolean false, .boolean false => .boolean false
  | a, b => env.otherwise "or".toList [a, b]

def Value.not (env : Environment) : Value → Value
  | .boolean truth => .boolean !truth
  | a => env.otherwise "not".toList [a]

def Value.arithmetic (c : Char) (env : Environment) : Value → Value → Value
  | .number a, .number b =>
    if c = '+' then .number (a + b)
    else if c = '-' then .number (a - b)
    else if c = '*' then .number (a * b)
    else if b = 0 then env.otherwise [c] [.number a, .number b]
    else .number (a / b)
  | a, b => env.otherwise [c] [a, b]

def Value.negative (env : Environment) : Value → Value
  | .number a => .number (-a)
  | a => env.otherwise ['-'] [a]

def Value.conditional (env : Environment) : Value → Value → Value → Value
  | .boolean true, a, _ => a
  | .boolean false, _, b => b
  | condition, a, b => env.otherwise "if".toList [condition, a, b]

/-! ## Words and literals -/

def keywords : List Text :=
  ["entity", "amend", "from", "to", "match", "if", "elif", "else", "and", "or", "not", "true",
    "True", "false", "False"].map String.toList

def isIdentifier (name : Text) : Bool := !keywords.contains name

def keyword (name : String) : Lexeme := .word name.toList

/-- `true` and `false`, in two spellings. -/
def booleanWord (name : Text) : Option Bool :=
  if name = "true".toList ∨ name = "True".toList then some true
  else if name = "false".toList ∨ name = "False".toList then some false
  else none

/-- The digits among which underscores stand. -/
def bareDigits (text : Text) : Text := text.filter (· ≠ '_')

def numberValue (whole : Text) (fraction : Option Text) : ℚ :=
  let places := bareDigits (fraction.getD [])
  (digitsValue (bareDigits whole ++ places) : ℚ) / 10 ^ places.length

def unescape (c : Char) : Char :=
  if c = 'n' then '\n' else if c = 'r' then '\r' else if c = 't' then '\t' else c

def QuotedPart.value : QuotedPart → Char
  | plain c => c
  | escaped c => unescape c

/-! ## The grammar -/

/-- The operators of one precedence, read from left to right. -/
inductive Chain where
  | disjunction | conjunction | sum | product
  deriving DecidableEq

/-- The operators of a chain. -/
def Chain.operation : Chain → Lexeme → Option (Environment → Value → Value → Value)
  | disjunction, .word name => if name = "or".toList then some Value.or else none
  | conjunction, .word name => if name = "and".toList then some Value.and else none
  | sum, .mark c => if c = '+' ∨ c = '-' then some (Value.arithmetic c) else none
  | product, .mark c => if c = '*' ∨ c = '/' then some (Value.arithmetic c) else none
  | _, _ => none

/-- What is read. -/
inductive Kind where
  | entry
  | chain (chain : Chain)
  /-- What follows the first operands of a chain. -/
  | tail (chain : Chain) (before : Meaning)
  | negation
  | comparison
  | signed
  | primary
  /-- What follows the first arguments of a call, with the closing parenthesis. -/
  | arguments (function : Text) (before : List Meaning)

/-- The operands of a chain. -/
def Chain.operand : Chain → Kind
  | disjunction => .chain .conjunction
  | conjunction => .negation
  | sum => .chain .product
  | product => .signed

def Meaning.call (function : Text) (arguments : List Meaning) : Meaning :=
  fun env => env.call function (arguments.map fun argument => argument env)

inductive Denotes : Kind → List Lexeme → Meaning → Prop
  | conditional {condition yes no : List Lexeme} {c a b : Meaning} :
      Denotes .entry condition c → Denotes .entry yes a → Denotes .entry no b →
      Denotes .entry
        (keyword "if" :: (condition ++ .mark ':' :: (yes ++ keyword "else" :: .mark ':' :: no)))
        fun env => Value.conditional env (c env) (a env) (b env)
  | expression {ts : List Lexeme} {m : Meaning} :
      Denotes (.chain .disjunction) ts m → Denotes .entry ts m
  | chain {ch : Chain} {ts more : List Lexeme} {a m : Meaning} :
      Denotes ch.operand ts a → Denotes (.tail ch a) more m → Denotes (.chain ch) (ts ++ more) m
  | stop {ch : Chain} {m : Meaning} : Denotes (.tail ch m) [] m
  | more {ch : Chain} {op : Lexeme} {f : Environment → Value → Value → Value}
      {ts more : List Lexeme} {a b m : Meaning} :
      ch.operation op = some f → Denotes ch.operand ts b →
      Denotes (.tail ch fun env => f env (a env) (b env)) more m →
      Denotes (.tail ch a) (op :: (ts ++ more)) m
  | negation {ts : List Lexeme} {m : Meaning} :
      Denotes .negation ts m →
      Denotes .negation (keyword "not" :: ts) fun env => Value.not env (m env)
  | affirmed {ts : List Lexeme} {m : Meaning} :
      Denotes .comparison ts m → Denotes .negation ts m
  | comparison {op : Comparison} {left right : List Lexeme} {a b : Meaning} :
      Denotes (.chain .sum) left a → Denotes (.chain .sum) right b →
      Denotes .comparison (left ++ .compare op :: right) fun env => op.apply env (a env) (b env)
  | alone {ts : List Lexeme} {m : Meaning} :
      Denotes (.chain .sum) ts m → Denotes .comparison ts m
  | negative {ts : List Lexeme} {m : Meaning} :
      Denotes .signed ts m →
      Denotes .signed (.mark '-' :: ts) fun env => Value.negative env (m env)
  | unsigned {ts : List Lexeme} {m : Meaning} :
      Denotes .primary ts m → Denotes .signed ts m
  | name {x : Text} : isIdentifier x = true →
      Denotes .primary [.word x] fun env => env.variable_ x
  | boolean {x : Text} {truth : Bool} : booleanWord x = some truth →
      Denotes .primary [.word x] fun _ => .boolean truth
  | number {whole : Text} {fraction : Option Text} :
      Denotes .primary [.number whole fraction] fun _ => .number (numberValue whole fraction)
  | quoted {quote : Char} {parts : List QuotedPart} :
      Denotes .primary [.quoted quote parts] fun _ => .text (parts.map QuotedPart.value)
  | group {ts : List Lexeme} {m : Meaning} :
      Denotes .entry ts m → Denotes .primary (.opening :: (ts ++ [.closing])) m
  | call {f : Text} {ts : List Lexeme} {m : Meaning} : isIdentifier f = true →
      Denotes (.arguments f []) ts m → Denotes .primary (.word f :: .opening :: ts) m
  | noArguments {f : Text} : Denotes (.arguments f []) [.closing] (Meaning.call f [])
  | lastArgument {f : Text} {before : List Meaning} {ts : List Lexeme} {m : Meaning} :
      Denotes .entry ts m →
      Denotes (.arguments f before) (ts ++ [.closing]) (Meaning.call f (before ++ [m]))
  | argument {f : Text} {before : List Meaning} {ts more : List Lexeme} {a m : Meaning} :
      Denotes .entry ts a → Denotes (.arguments f (before ++ [a])) more m →
      Denotes (.arguments f before) (ts ++ .mark ',' :: more) m

end AxiomEncode.Formula
