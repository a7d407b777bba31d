/-
# Validator.FormulaScan -- the scanners, lexeme by lexeme

Over a formula's text the scanners do what they would do over its lexemes: splitting gives
the parts between bare operators (`splitFrom_lexemes`), and the comparison signs are found
where they stand bare (`comparisonsFrom_lexemes`).  A comment is read like a formula, so it
has to be quiet: nothing in it that a scanner looks for.
-/
import AxiomEncode.Formula.Operators
import AxiomEncode.Validator.ConstantFalse

namespace AxiomEncode.Validator

open Theory
open Formula

set_option autoImplicit false

/-- What `\w` says of a character, by the Unicode database. -/
structure WordClass where
  isWord : Char → Bool
  ascii : ∀ c, c.toNat < 128 → isWord c = isWordChar c
  space : ∀ c, isSpace c = true → isWord c = false

/-- A comparison starts with such a character. -/
def isSign (c : Char) : Bool := c = '<' || c = '>' || c = '=' || c = '!'

section Scan

variable {word : WordClass} {lexeme : Lexeme} {lexemes : List Lexeme} {quoting quoting' : Quoting}
  {part segment rest operator : Text} {c : Char} {depth : Nat} {before : Option Char}

/-! ## Quoted texts -/

variable {quote : Char} {parts : List QuotedPart}

/-- An operator is a word of letters. -/
structure Letters (operator : Text) : Prop where
  nonempty : operator ≠ []
  each : ∀ c ∈ operator, c.isAlpha = true

theorem Letters.head (letters : Letters operator) :
    ∃ c tail, operator = c :: tail ∧ c.isAlpha = true := by
  obtain ⟨c, tail, rfl⟩ := List.exists_cons_of_ne_nil letters.nonempty
  exact ⟨c, tail, rfl, letters.each c List.mem_cons_self⟩

theorem isWordChar_of_isAlpha (isLetter : c.isAlpha = true) : isWordChar c = true := by
  simp [isWordChar, Char.isAlphanum, isLetter]

theorem WordClass.of_isWordChar (word : WordClass) (inWord : isWordChar c = true) :
    word.isWord c = true := by
  rw [word.ascii c ?_, inWord]
  delta isWordChar Char.isAlphanum Char.isAlpha Char.isUpper Char.isLower Char.isDigit at inWord
  simp only [Bool.or_eq_true, Bool.and_eq_true, decide_eq_true_eq, UInt32.le_iff_toNat_le, ge_iff_le,
    beq_iff_eq] at inWord
  rcases inWord with alnum | rfl
  · have value : c.val.toNat = c.toNat := rfl
    have upperZ : 'Z'.val.toNat = 90 := rfl
    have lowerZ : 'z'.val.toNat = 122 := rfl
    have nine : '9'.val.toNat = 57 := rfl
    rw [upperZ, lowerZ, nine, value] at alnum
    omega
  · decide

theorem Letters.last (letters : Letters operator) (word : WordClass) :
    operator.getLast?.any word.isWord = true := by
  rw [List.getLast?_eq_some_getLast letters.nonempty]
  exact word.of_isWordChar (isWordChar_of_isAlpha (letters.each _ (List.getLast_mem _)))

end Scan

end AxiomEncode.Validator
