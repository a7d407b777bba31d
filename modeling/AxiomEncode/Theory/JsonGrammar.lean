/-
# Theory.JsonGrammar -- the texts of the JSON grammar

A `Tree` is the concrete syntax of one value: every blank, every escape and every
digit of its text (`Tree.text`).  Blanks, escapes and numbers carry the rules of the
grammar, so a tree that breaks them cannot be built.  The symbols of a text are
characters or bytes; the grammar looks at their codes only (`Alphabet`), and above
the ASCII range it admits every symbol inside a string.

Of a tree this module has its text, its nesting, its objects at every level and
what may stand behind it (`Stops`).  What a text of characters denotes is in
`Theory.JsonDenotes`.
-/
import Mathlib.Tactic.Common
import Mathlib.Data.Char

namespace AxiomEncode.Theory

set_option autoImplicit false

/-- Symbols with codes; those below 128 are the ASCII characters. -/
class Alphabet (α : Type) where
  code : α → Nat
  letter : Nat → α
  code_letter : ∀ n, n < 128 → code (letter n) = n
  code_injective : Function.Injective code

instance : Alphabet Char where
  code := Char.toNat
  letter := Char.ofNat
  code_letter := by decide
  code_injective _ _ same := Char.ext (UInt32.toNat_inj.mp same)

instance : Alphabet UInt8 where
  code := UInt8.toNat
  letter := UInt8.ofNat
  code_letter := by decide
  code_injective _ _ same := UInt8.toNat_inj.mp same

namespace Grammar

open Alphabet

variable {α : Type} [Alphabet α]
variable {x : α} {rest : List α}

theorem eq_letter {n : Nat} (small : n < 128) (equal : code x = n) : x = letter n :=
  code_injective (equal.trans (code_letter n small).symm)

/-! ## Tokens -/

def isBlank (x : α) : Bool := code x == 32 || code x == 9 || code x == 10 || code x == 13

def isDigit (x : α) : Bool := 48 ≤ code x && code x ≤ 57

def isHex (x : α) : Bool :=
  isDigit x || (65 ≤ code x && code x ≤ 70) || (97 ≤ code x && code x ≤ 102)

/-- A symbol that stands for itself inside a string. -/
def isFree (x : α) : Bool := 32 ≤ code x && code x != 34 && code x != 92

/-- The letter of a two-symbol escape. -/
def isEscapeLetter (x : α) : Bool := [34, 92, 47, 98, 102, 110, 114, 116].contains (code x)

structure Blanks (α : Type) [Alphabet α] where
  text : List α
  blank : text.all isBlank = true

def noBlanks : Blanks α := ⟨[], rfl⟩

inductive StringPart (α : Type) [Alphabet α] where
  | plain (x : α) (free : isFree x = true)
  | short (x : α) (named : isEscapeLetter x = true)
  | unicode (a b c d : α) (hex : [a, b, c, d].all isHex = true)

def StringPart.text : StringPart α → List α
  | .plain x _ => [x]
  | .short x _ => [letter 92, x]
  | .unicode a b c d _ => [letter 92, letter 117, a, b, c, d]

/-- A string behind its opening quote, with the closing one. -/
def closedText (parts : List (StringPart α)) : List α := parts.flatMap StringPart.text ++ [letter 34]

def stringText (parts : List (StringPart α)) : List α := letter 34 :: closedText parts

/-- Zero, or digits that do not start with a zero. -/
def isWhole (digits : List α) : Bool :=
  match digits with
  | [] => false
  | first :: rest => (first :: rest).all isDigit && (code first != 48 || rest.isEmpty)

/-- Nothing, or a point and digits. -/
def isFraction (text : List α) : Bool :=
  match text with
  | [] => true
  | point :: digits => code point == 46 && !digits.isEmpty && digits.all isDigit

/-- Nothing, or `e`, a sign that may be left out, and digits. -/
def isExponent (text : List α) : Bool :=
  match text with
  | [] => true
  | e :: rest => (code e == 101 || code e == 69) &&
      match rest with
      | [] => false
      | sign :: digits =>
        if code sign == 43 || code sign == 45 then !digits.isEmpty && digits.all isDigit
        else (sign :: digits).all isDigit

structure Number (α : Type) [Alphabet α] where
  negative : Bool
  whole : List α
  fraction : List α
  exponent : List α
  isWhole : isWhole whole = true
  isFraction : isFraction fraction = true
  isExponent : isExponent exponent = true

def Number.text (n : Number α) : List α :=
  (if n.negative then [letter 45] else []) ++ (n.whole ++ (n.fraction ++ n.exponent))

inductive Word where
  | null
  | false
  | true
  deriving DecidableEq

def Word.text : Word → List α
  | .null => [110, 117, 108, 108].map letter
  | .false => [102, 97, 108, 115, 101].map letter
  | .true => [116, 114, 117, 101].map letter

/-! ## Values -/

/-- The name of a member with the blanks around it. -/
structure Key (α : Type) [Alphabet α] where
  before : Blanks α
  name : List (StringPart α)
  after : Blanks α

def Key.text (key : Key α) : List α := key.before.text ++ (stringText key.name ++ key.after.text)

mutual

inductive Tree (α : Type) [Alphabet α] where
  | word (w : Word)
  | number (n : Number α)
  | string (parts : List (StringPart α))
  | emptyArray (space : Blanks α)
  | array (items : Items α)
  | emptyObject (space : Blanks α)
  | object (members : Members α)

/-- One item or more, with the blanks around each. -/
inductive Items (α : Type) [Alphabet α] where
  | last (before : Blanks α) (item : Tree α) (after : Blanks α)
  | more (before : Blanks α) (item : Tree α) (after : Blanks α) (rest : Items α)

/-- One member or more, with the blanks around each value. -/
inductive Members (α : Type) [Alphabet α] where
  | last (key : Key α) (before : Blanks α) (item : Tree α) (after : Blanks α)
  | more (key : Key α) (before : Blanks α) (item : Tree α) (after : Blanks α) (rest : Members α)

end

mutual

def Tree.text : Tree α → List α
  | .word w => w.text
  | .number n => n.text
  | .string parts => stringText parts
  | .emptyArray space => letter 91 :: (space.text ++ [letter 93])
  | .array items => letter 91 :: items.text
  | .emptyObject space => letter 123 :: (space.text ++ [letter 125])
  | .object members => letter 123 :: members.text

/-- The items with the closing bracket. -/
def Items.text : Items α → List α
  | .last before item after => before.text ++ (item.text ++ (after.text ++ [letter 93]))
  | .more before item after rest =>
    before.text ++ (item.text ++ (after.text ++ letter 44 :: rest.text))

/-- The members with the closing brace. -/
def Members.text : Members α → List α
  | .last key before item after =>
    key.text ++ letter 58 :: (before.text ++ (item.text ++ (after.text ++ [letter 125])))
  | .more key before item after rest =>
    key.text ++ letter 58 ::
      (before.text ++ (item.text ++ (after.text ++ letter 44 :: rest.text)))

end

/-- A whole text: a value with blanks around it. -/
structure Document (α : Type) [Alphabet α] where
  before : Blanks α
  value : Tree α
  after : Blanks α

def Document.text (document : Document α) : List α :=
  document.before.text ++ (document.value.text ++ document.after.text)

/-! ## Nesting and objects -/

mutual

/-- How many values lie around the deepest one. -/
def Tree.nesting : Tree α → Nat
  | .array items => items.nesting + 1
  | .object members => members.nesting + 1
  | _ => 0

def Items.nesting : Items α → Nat
  | .last _ item _ => item.nesting
  | .more _ item _ rest => max item.nesting rest.nesting

def Members.nesting : Members α → Nat
  | .last _ _ item _ => item.nesting
  | .more _ _ item _ rest => max item.nesting rest.nesting

end

/-- The encoded names of an object, quotes included. -/
def Members.names : Members α → List (List α)
  | .last key _ _ _ => [stringText key.name]
  | .more key _ _ _ rest => stringText key.name :: rest.names

mutual

/-- The encoded names of every object at every level. -/
def Tree.objects : Tree α → List (List (List α))
  | .array items => items.objects
  | .object members => members.names :: members.objects
  | _ => []

def Items.objects : Items α → List (List (List α))
  | .last _ item _ => item.objects
  | .more _ item _ rest => item.objects ++ rest.objects

/-- The objects inside the values of an object. -/
def Members.objects : Members α → List (List (List α))
  | .last _ _ item _ => item.objects
  | .more _ _ item _ rest => item.objects ++ rest.objects

end

/-! ## What may stand behind a value -/

/-- A blank, a comma, a closing bracket or a closing brace. -/
def isStop (x : α) : Bool := isBlank x || code x == 44 || code x == 93 || code x == 125

/-- The end of the text or one of the symbols that end a value. -/
def Stops (rest : List α) : Prop := ∀ x ∈ rest.head?, isStop x = true

@[simp] theorem stops_nil : Stops ([] : List α) := by
  intro x first
  cases first

@[simp] theorem stops_cons : Stops (x :: rest) ↔ isStop x = true := by
  simp [Stops]

theorem stops_blanks (space : Blanks α) (stops : Stops rest) :
    Stops (space.text ++ rest) := by
  obtain ⟨text, blank⟩ := space
  cases text with
  | nil => exact stops
  | cons x text =>
    simp only [List.all_cons, Bool.and_eq_true] at blank
    simp [isStop, blank.1]

theorem isStop_comma : isStop (letter 44 : α) = true := by
  simp [isStop, code_letter]

theorem isStop_bracket : isStop (letter 93 : α) = true := by
  simp [isStop, code_letter]

theorem isStop_brace : isStop (letter 125 : α) = true := by
  simp [isStop, code_letter]

/-- A symbol of a number. -/
def isNumeric (x : α) : Bool :=
  isDigit x || [43, 45, 46, 69, 101].contains (code x)

theorem isDigit_isNumeric (digit : isDigit x = true) : isNumeric x = true := by
  simp [isNumeric, digit]

theorem isNumeric_of_mem_number (n : Number α) (member : x ∈ n.text) :
    isNumeric x = true := by
  obtain ⟨negative, whole, fraction, exponent, isWhole, isFraction, isExponent⟩ := n
  simp only [Number.text, List.mem_append] at member
  rcases member with sign | inWhole | inFraction | inExponent
  · cases negative
    · cases sign
    · rw [if_pos rfl, List.mem_singleton] at sign
      simp [sign, isNumeric, code_letter]
  · cases whole with
    | nil => cases inWhole
    | cons first rest =>
      simp only [Grammar.isWhole, Bool.and_eq_true, List.all_eq_true] at isWhole
      exact isDigit_isNumeric (isWhole.1 x inWhole)
  · cases fraction with
    | nil => cases inFraction
    | cons point digits =>
      simp only [Grammar.isFraction, Bool.and_eq_true, List.all_eq_true, beq_iff_eq] at isFraction
      rcases List.mem_cons.mp inFraction with rfl | digit
      · simp [isNumeric, isFraction.1.1]
      · exact isDigit_isNumeric (isFraction.2 x digit)
  · match exponent with
    | [] => cases inExponent
    | [e] => simp [Grammar.isExponent] at isExponent
    | e :: sign :: digits =>
      simp only [Grammar.isExponent, Bool.and_eq_true, Bool.or_eq_true, beq_iff_eq] at isExponent
      obtain ⟨marker, tail⟩ := isExponent
      rcases List.mem_cons.mp inExponent with rfl | later
      · rcases marker with lower | upper
        · simp [isNumeric, lower]
        · simp [isNumeric, upper]
      · split_ifs at tail with signed
        · simp only [Bool.and_eq_true, List.all_eq_true] at tail
          rcases List.mem_cons.mp later with rfl | digit
          · rcases signed with plus | minus
            · simp [isNumeric, plus]
            · simp [isNumeric, minus]
          · exact isDigit_isNumeric (tail.2 x digit)
        · rw [List.all_eq_true] at tail
          exact isDigit_isNumeric (tail x later)

theorem isStop_letter {n : Nat} (small : n < 128) :
    isStop (letter n : α) = [32, 9, 10, 13, 44, 93, 125].contains n := by
  simp only [isStop, isBlank, code_letter n small, List.contains_cons, List.contains_nil,
    Bool.or_false, Bool.or_assoc]

/-- The first symbol of a value tells its kind; none of them is a blank or closes anything. -/
theorem Tree.exists_head (tree : Tree α) :
    ∃ x rest, tree.text = x :: rest ∧ isStop x = false := by
  have plain : ∀ n, n < 128 → [32, 9, 10, 13, 44, 93, 125].contains n = false →
      isStop (letter n : α) = false := fun n small other => (isStop_letter small).trans other
  cases tree with
  | word w =>
    cases w
    · exact ⟨letter 110, _, rfl, plain 110 (by decide) (by decide)⟩
    · exact ⟨letter 102, _, rfl, plain 102 (by decide) (by decide)⟩
    · exact ⟨letter 116, _, rfl, plain 116 (by decide) (by decide)⟩
  | number n =>
    obtain ⟨x, rest, split⟩ : ∃ x rest, n.text = x :: rest := by
      apply List.exists_cons_of_ne_nil
      intro empty
      have some_ := n.isWhole
      simp only [Number.text, List.append_eq_nil_iff] at empty
      simp [empty.2.1, Grammar.isWhole] at some_
    refine ⟨x, rest, split, ?_⟩
    have numeric := isNumeric_of_mem_number n (split ▸ List.mem_cons_self)
    simp only [isNumeric, isDigit, Bool.or_eq_true, Bool.and_eq_true, decide_eq_true_eq,
      List.contains_eq_mem, List.mem_cons, List.not_mem_nil, or_false] at numeric
    simp only [isStop, isBlank, Bool.or_eq_false_iff, beq_eq_false_iff_ne, ne_eq]
    omega
  | string parts => exact ⟨letter 34, _, rfl, plain 34 (by decide) (by decide)⟩
  | emptyArray space => exact ⟨letter 91, _, rfl, plain 91 (by decide) (by decide)⟩
  | array items => exact ⟨letter 91, _, rfl, plain 91 (by decide) (by decide)⟩
  | emptyObject space => exact ⟨letter 123, _, rfl, plain 123 (by decide) (by decide)⟩
  | object members => exact ⟨letter 123, _, rfl, plain 123 (by decide) (by decide)⟩

end Grammar

end AxiomEncode.Theory
