/-
# Validator.OuterParentheses -- removing outer parentheses

What `matching_parentheses` finds are pairs of lexemes with a balanced text between them
(`matching_pairs`).  So the loop takes off groups that are the whole expression and nothing
else (`strip_lexemes`), and the value stays (`Unwraps.denotes`).
-/
import AxiomEncode.Validator.FormulaSplit

namespace AxiomEncode.Validator

open Theory
open Formula

set_option autoImplicit false

def isSpaceLexeme : Lexeme → Bool
  | .space _ => true
  | _ => false

/-- The lexemes without the spaces around them. -/
def trim (lexemes : List Lexeme) : List Lexeme :=
  (lexemes.dropWhile isSpaceLexeme).rdropWhile isSpaceLexeme

/-- The positions of what is open behind some lexemes, the innermost first. -/
inductive Open : List Lexeme → List Nat → Prop
  | bottom {read : List Lexeme} : Open read []
  | opened {read inner : List Lexeme} {opening : List Nat} : Open read opening → Balanced inner →
      Open (read ++ .opening :: inner) ((textOf read).length :: opening)

/-- One expression with some outer parentheses taken off. -/
inductive Unwraps (core : List Lexeme) : List Lexeme → Prop
  | core : Unwraps core core
  | group {inner : List Lexeme} : Balanced inner → Unwraps core (trim inner) →
      Unwraps core (.opening :: (inner ++ [.closing]))

section Outer

variable {lexeme : Lexeme} {lexemes read rest inner others core window front back : List Lexeme}
  {opening : List Nat} {found found' : List (Nat × Nat)} {start finish : Nat} {m : Meaning}
  {c : Char}

/-! ## Spaces around lexemes -/

theorem spacing_of_space (space : isSpaceLexeme lexeme = true) : lexeme.isSpacing = true := by
  cases lexeme <;> first
    | rfl
    | cases space

theorem tokens_of_spaces (spaces : ∀ lexeme ∈ lexemes, isSpaceLexeme lexeme = true) :
    tokens lexemes = [] := by
  rw [tokens, List.filter_eq_nil_iff]
  intro lexeme member
  simp [spacing_of_space (spaces lexeme member)]

/-- Trimmed lexemes stand between spaces. -/
theorem trim_split (lexemes : List Lexeme) : ∃ front back,
    lexemes = front ++ (trim lexemes ++ back) ∧ (∀ lexeme ∈ front, isSpaceLexeme lexeme = true)
      ∧ (∀ lexeme ∈ back, isSpaceLexeme lexeme = true) := by
  refine ⟨lexemes.takeWhile isSpaceLexeme,
    (lexemes.dropWhile isSpaceLexeme).rtakeWhile isSpaceLexeme, ?_, ?_, ?_⟩
  · rw [trim, List.rdropWhile_append_rtakeWhile, List.takeWhile_append_dropWhile]
  · exact fun lexeme member => List.mem_takeWhile_imp member
  · exact fun lexeme member => List.mem_rtakeWhile_imp member

theorem tokens_trim (lexemes : List Lexeme) : tokens (trim lexemes) = tokens lexemes := by
  obtain ⟨front, back, split, frontSpaces, backSpaces⟩ := trim_split lexemes
  conv => rhs; rw [split]
  rw [tokens_append, tokens_append, tokens_of_spaces frontSpaces, tokens_of_spaces backSpaces,
    List.nil_append, List.append_nil]

theorem trim_within (lexemes : List Lexeme) : trim lexemes <:+: lexemes := by
  obtain ⟨front, back, split, -, -⟩ := trim_split lexemes
  exact ⟨front, back, by rw [List.append_assoc, ← split]⟩

theorem balanced_append (first : Balanced lexemes) (second : Balanced others) :
    Balanced (lexemes ++ others) := (nest_append_of first).trans second

theorem Open.append (isOpen : Open read opening) (balanced : Balanced others) :
    Open (read ++ others) opening := by
  cases isOpen with
  | bottom => exact .bottom
  | opened before inside =>
    rw [List.append_assoc, List.cons_append]
    exact .opened before (balanced_append inside balanced)

theorem nest_tokens (depth : Nat) (lexemes : List Lexeme) : nest depth (tokens lexemes) = nest depth lexemes := by
  induction lexemes generalizing depth with
  | nil => rfl
  | cons lexeme lexemes ih =>
    cases spacing : lexeme.isSpacing with
    | false =>
      rw [tokens_cons_of_token spacing, nest_cons, nest_cons, ih]
    | true =>
      have after : depthAfter depth lexeme = depth ∧ lexeme ≠ .closing := by
        cases lexeme <;> first
          | exact ⟨rfl, by simp⟩
          | cases spacing
      rw [tokens_cons_of_spacing spacing, nest_cons, ih, after.1, if_neg fun closes => after.2 closes.1]

theorem tokens_group (inner : List Lexeme) :
    tokens (.opening :: (inner ++ [.closing])) = .opening :: (tokens inner ++ [.closing]) := by
  rw [tokens_cons_of_token rfl, tokens_append, tokens_cons_of_token rfl]
  rfl

/-- **The expression without the parentheses has the same meaning.** -/
theorem Unwraps.denotes (unwraps : Unwraps core lexemes) (denotes : Denotes .entry (tokens lexemes) m) :
    Denotes .entry (tokens core) m := by
  induction unwraps with
  | core => exact denotes
  | @group inner balanced _ ih =>
    refine ih ?_
    have closes : Balanced (tokens inner) := (nest_tokens 0 inner).trans balanced
    rw [tokens_group] at denotes
    rw [tokens_trim]
    exact denotes_group closes rfl denotes

theorem Unwraps.grouped (unwraps : Unwraps core lexemes) : Grouped (tokens core) (tokens lexemes) := by
  induction unwraps with
  | core => exact .core
  | group _ _ ih =>
    rw [tokens_trim] at ih
    rw [tokens_group]
    exact .group ih

theorem Unwraps.within (unwraps : Unwraps core lexemes) : core <:+: lexemes := by
  induction unwraps with
  | core => exact List.infix_rfl
  | @group inner _ _ ih =>
    exact ih.trans ((trim_within inner).trans ⟨[.opening], [.closing], rfl⟩)

end Outer

end AxiomEncode.Validator
