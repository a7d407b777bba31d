/-
# Formula.Operators -- a formula and its operands

A group is taken apart in one way (`denotes_group`).  Outside parentheses a formula of a
tighter kind has no looser operator (`bare_of_tight`), so that splitting a formula at
`and` gives its conjuncts (`conjuncts`), and the one comparison sign its two sides
(`denotes_comparison`).
-/
import AxiomEncode.Formula.Nesting

namespace AxiomEncode.Formula

set_option autoImplicit false

section Operators

variable {lexeme : Lexeme} {lexemes inner ts more left right : List Lexeme} {d e : Nat}
  {p : Lexeme → Bool} {kind : Kind} {m a b : Meaning} {ch : Chain} {op : Comparison}

/-- Only the tail of a chain may be empty. -/
theorem ne_nil_of_denotes (denotes : Denotes kind ts m) : ts = [] → ∃ ch a, kind = .tail ch a := by
  induction denotes with
  | stop => exact fun _ => ⟨_, _, rfl⟩
  | @chain ch _ _ _ _ _ _ ih _ =>
    intro empty
    obtain ⟨_, _, isTail⟩ := ih (List.append_eq_nil_iff.mp empty).1
    cases ch <;> cases isTail
  | expression _ ih =>
    intro empty
    obtain ⟨_, _, isTail⟩ := ih empty
    cases isTail
  | affirmed _ ih =>
    intro empty
    obtain ⟨_, _, isTail⟩ := ih empty
    cases isTail
  | alone _ ih =>
    intro empty
    obtain ⟨_, _, isTail⟩ := ih empty
    cases isTail
  | unsigned _ ih =>
    intro empty
    obtain ⟨_, _, isTail⟩ := ih empty
    cases isTail
  | _ => intro empty; simp at empty

theorem operand_ne_nil (denotes : Denotes ch.operand ts m) : ts ≠ [] := by
  intro empty
  obtain ⟨_, _, isTail⟩ := ne_nil_of_denotes denotes empty
  cases ch <;> cases isTail

theorem chain_ne_nil (denotes : Denotes (.chain ch) ts m) : ts ≠ [] := by
  intro empty
  obtain ⟨_, _, isTail⟩ := ne_nil_of_denotes denotes empty
  cases isTail

theorem tail_nil (denotes : Denotes (.tail ch a) [] m) : m = a := by
  cases denotes
  rfl

/-- The kinds that hold a group. -/
def Kind.isExpression : Kind → Bool
  | .tail _ _ | .arguments _ _ => false
  | _ => true

@[simp] theorem isExpression_operand (ch : Chain) : ch.operand.isExpression = true := by
  cases ch <;> rfl

/-- **A group has the meaning of what is in it.** -/
theorem denotes_group (balanced : Balanced inner) (expression : kind.isExpression = true)
    (denotes : Denotes kind (.opening :: (inner ++ [.closing])) m) : Denotes .entry inner m := by
  generalize isGroup : Lexeme.opening :: (inner ++ [.closing]) = ts at denotes
  induction denotes with
  | expression _ ih => exact ih rfl isGroup
  | affirmed _ ih => exact ih rfl isGroup
  | alone _ ih => exact ih rfl isGroup
  | unsigned _ ih => exact ih rfl isGroup
  | chain first rest ih _ =>
    have closes := balanced_of_denotes first
    rw [depth_operand] at closes
    obtain ⟨whole, rfl⟩ := group_split balanced isGroup (operand_ne_nil first) closes
    rw [tail_nil rest]
    exact ih (isExpression_operand _) whole.symm
  | comparison first _ _ _ =>
    obtain ⟨-, empty⟩ :=
      group_split balanced isGroup (chain_ne_nil first) (balanced_of_denotes first)
    cases empty
  | group inside _ =>
    obtain ⟨-, tails⟩ := List.cons.inj isGroup
    rwa [(List.append_inj' tails rfl).1]
  | stop => cases expression
  | more => cases expression
  | noArguments => cases expression
  | lastArgument => cases expression
  | argument => cases expression
  | _ => cases (List.cons.inj isGroup).1

/-! ## Looser operators stand in parentheses -/

def Chain.rank : Chain → Nat
  | disjunction => 1
  | conjunction => 2
  | sum => 5
  | product => 6

/-- How tight a kind binds. -/
def Kind.rank : Kind → Nat
  | .entry => 0
  | .chain ch => ch.rank
  | .tail ch _ => ch.rank
  | .negation => 3
  | .comparison => 4
  | .signed => 7
  | .primary => 8
  | .arguments _ _ => 9

theorem rank_operand (ch : Chain) : ch.operand.rank = ch.rank + 1 := by cases ch <;> rfl

/-- No kind of that rank, or tighter, has such a lexeme outside parentheses. -/
structure Looser (p : Lexeme → Bool) (rank : Nat) : Prop where
  positive : 0 < rank
  operation : ∀ (ch : Chain) op f, ch.operation op = some f → rank ≤ ch.rank → p op = false
  negation : rank ≤ 3 → p (keyword "not") = false
  compare : rank ≤ 4 → ∀ op, p (.compare op) = false
  mark : ∀ c, p (.mark c) = false
  identifier : ∀ x, isIdentifier x = true → p (.word x) = false
  boolean : ∀ x truth, booleanWord x = some truth → p (.word x) = false
  number : ∀ whole fraction, p (.number whole fraction) = false
  quoted : ∀ quote parts, p (.quoted quote parts) = false
  opening : p .opening = false
  closing : p .closing = false

theorem bare_cons (p : Lexeme → Bool) (depth : Nat) (lexeme : Lexeme) (rest : List Lexeme) :
    bare p depth (lexeme :: rest)
      = ((depth = 0 && p lexeme) || bare p (depthAfter depth lexeme) rest) := rfl

theorem bare_of_tight {rank : Nat} (looser : Looser p rank) (denotes : Denotes kind ts m)
    (tight : rank ≤ kind.rank) : bare p kind.depth ts = false := by
  have positive := looser.positive
  induction denotes with
  | conditional => exact absurd tight (by simp only [Kind.rank]; omega)
  | expression => exact absurd tight (by simp only [Kind.rank]; omega)
  | @chain ch ts more a m first rest ih ihRest =>
    have closes := balanced_of_denotes first
    rw [depth_operand] at closes ih
    change bare p 0 _ = false
    rw [bare_append closes, ih (by rw [rank_operand]; exact Nat.le_succ_of_le tight)]
    exact ihRest tight
  | stop => rfl
  | @more ch op f ts more a b m operation first rest ih ihRest =>
    have closes := balanced_of_denotes first
    rw [depth_operand] at closes ih
    have after : depthAfter 0 op = 0 := by
      cases ch <;> cases op <;> first
        | cases operation
        | rfl
    change bare p 0 _ = false
    rw [bare_cons, looser.operation ch op f operation tight, after, bare_append closes,
      ih (by rw [rank_operand]; exact Nat.le_succ_of_le tight)]
    exact ihRest tight
  | negation _ ih =>
    change bare p 0 _ = false
    rw [bare_cons, looser.negation tight]
    exact ih tight
  | affirmed _ ih => exact ih (Nat.le_succ_of_le tight)
  | comparison first _ ih ihRest =>
    have closes : Balanced _ := balanced_of_denotes first
    change bare p 0 _ = false
    rw [bare_append closes, bare_cons, looser.compare tight,
      show bare p 0 _ = false from ih (Nat.le_succ_of_le tight)]
    exact ihRest (Nat.le_succ_of_le tight)
  | alone _ ih => exact ih (Nat.le_succ_of_le tight)
  | negative _ ih =>
    change bare p 0 _ = false
    rw [bare_cons, looser.mark]
    exact ih tight
  | unsigned _ ih => exact ih (Nat.le_succ_of_le tight)
  | name identifier =>
    change bare p 0 _ = false
    rw [bare_cons, looser.identifier _ identifier]
    rfl
  | boolean isBoolean =>
    change bare p 0 _ = false
    rw [bare_cons, looser.boolean _ _ isBoolean]
    rfl
  | number =>
    change bare p 0 _ = false
    rw [bare_cons, looser.number]
    rfl
  | quoted =>
    change bare p 0 _ = false
    rw [bare_cons, looser.quoted]
    rfl
  | group inside _ =>
    have closes : Balanced _ := balanced_of_denotes inside
    change bare p 0 _ = false
    rw [bare_cons, looser.opening]
    change bare p 1 _ = false
    rw [bare_append (show nest 1 _ = some 1 from nest_add closes 1), bare_inside closes]
    rfl
  | call identifier _ ih =>
    change bare p 0 _ = false
    rw [bare_cons, looser.identifier _ identifier, bare_cons]
    change (decide (0 = 0) && p .opening || bare p 1 _) = false
    rw [looser.opening]
    exact ih (Nat.le_succ_of_le tight)
  | noArguments => rfl
  | lastArgument inside _ =>
    have closes : Balanced _ := balanced_of_denotes inside
    change bare p 1 _ = false
    rw [bare_append (show nest 1 _ = some 1 from nest_add closes 1), bare_inside closes]
    rfl
  | argument inside _ _ ih =>
    have closes : Balanced _ := balanced_of_denotes inside
    change bare p 1 _ = false
    rw [bare_append (show nest 1 _ = some 1 from nest_add closes 1), bare_inside closes, bare_cons]
    exact ih tight

/-! ## The operators that the scanners look for -/

theorem operation_word {x : Text} {f : Environment → Value → Value → Value}
    (operation : ch.operation (.word x) = some f) :
    (ch = .disjunction ∧ x = "or".toList) ∨ (ch = .conjunction ∧ x = "and".toList) := by
  cases ch <;> simp [Chain.operation] at operation ⊢ <;> exact operation.1

theorem looser_keyword (name : String) (rank : Nat) (positive : 0 < rank)
    (isKeyword' : name.toList ∈ keywords) (noBoolean : booleanWord name.toList = none)
    (noNegation : rank ≤ 3 → name.toList ≠ "not".toList)
    (noOr : rank ≤ 1 → name.toList ≠ "or".toList) (noAnd : rank ≤ 2 → name.toList ≠ "and".toList) :
    Looser (isKeyword name) rank := by
  refine ⟨positive, ?_, ?_, ?_, ?_, ?_, ?_, ?_, ?_, ?_, ?_⟩
  · intro ch op f operation tight
    rw [isKeyword, decide_eq_false_iff_not]
    rintro rfl
    rcases operation_word operation with ⟨rfl, same⟩ | ⟨rfl, same⟩
    · exact noOr tight same
    · exact noAnd tight same
  · intro tight
    rw [isKeyword, decide_eq_false_iff_not]
    intro same
    exact noNegation tight (Lexeme.word.inj same).symm
  · intros; rfl
  · intros; rfl
  · intro x identifier
    rw [isKeyword, decide_eq_false_iff_not]
    intro same
    rw [isIdentifier, Bool.not_eq_true', ← Bool.not_eq_true, List.contains_iff_mem] at identifier
    exact identifier ((Lexeme.word.inj same) ▸ isKeyword')
  · intro x truth isBoolean
    rw [isKeyword, decide_eq_false_iff_not]
    intro same
    rw [Lexeme.word.inj same, noBoolean] at isBoolean
    cases isBoolean
  all_goals intros; rfl

theorem looser_and : Looser (isKeyword "and") 3 :=
  looser_keyword "and" 3 (by decide) (by decide) (by decide) (by decide) (by omega) (by omega)

theorem isKeyword_self (name : String) : isKeyword name (keyword name) = true := by
  simp [isKeyword]

theorem and_false_left (env : Environment) (b : Value) :
    Value.and env (.boolean false) b = .boolean false := by
  cases b <;> rfl

theorem and_false_right (env : Environment) (a : Value) :
    Value.and env a (.boolean false) = .boolean false := by
  cases a with
  | boolean truth => cases truth <;> rfl
  | _ => rfl

/-- What follows the first operands of a conjunction. -/
theorem conjuncts_of_tail (denotes : Denotes (.tail .conjunction a) ts m) (part : List Lexeme) :
    (∀ env, a env = .boolean false → m env = .boolean false)
      ∧ ∃ operands, splitAt (isKeyword "and") 0 part ts = part :: operands
        ∧ ∀ operand ∈ operands, ∃ b, Denotes .negation operand b
          ∧ ∀ env, b env = .boolean false → m env = .boolean false := by
  generalize isTail : Kind.tail .conjunction a = kind at denotes
  induction denotes generalizing a part with
  | stop =>
    cases isTail
    exact ⟨fun _ same => same, [], rfl, by simp⟩
  | @more ch op f ts more before b m operation next later _ ih =>
    cases isTail
    obtain ⟨rfl, rfl⟩ : op = keyword "and" ∧ f = Value.and := by
      cases op with
      | word x =>
        have isAnd : x = "and".toList := by
          rcases operation_word operation with ⟨impossible, -⟩ | ⟨-, same⟩
          · cases impossible
          · exact same
        subst isAnd
        exact ⟨rfl, (Option.some.inj operation).symm⟩
      | _ => cases operation
    have next : Denotes .negation ts b := next
    have closes : Balanced ts := balanced_of_denotes next
    have none : bare (isKeyword "and") 0 ts = false := bare_of_tight looser_and next le_rfl
    obtain ⟨fromAll, operands, split, each⟩ := ih ts rfl
    refine ⟨fun env isFalse => fromAll env ?_, ts :: operands, ?_, ?_⟩
    · rw [isFalse, and_false_left]
    · rw [splitAt, if_pos ⟨rfl, isKeyword_self "and"⟩, splitAt_append closes none, List.nil_append,
        split]
    · intro operand member
      rcases List.mem_cons.mp member with rfl | member
      · refine ⟨b, next, fun env isFalse => fromAll env ?_⟩
        rw [isFalse, and_false_right]
      · exact each operand member
  | _ => cases isTail

/-- **Splitting a conjunction gives its conjuncts, and one that is false makes it false.** -/
theorem conjuncts (denotes : Denotes (.chain .conjunction) ts m) :
    ∀ operand ∈ splitAt (isKeyword "and") 0 [] ts, ∃ b, Denotes .negation operand b
      ∧ ∀ env, b env = .boolean false → m env = .boolean false := by
  cases denotes with
  | @chain _ first rest a _ operand tail =>
    have operand : Denotes .negation first a := operand
    have closes : Balanced first := balanced_of_denotes operand
    have none : bare (isKeyword "and") 0 first = false := bare_of_tight looser_and operand le_rfl
    obtain ⟨fromFirst, operands, split, each⟩ := conjuncts_of_tail tail first
    rw [splitAt_append closes none, List.nil_append, split]
    intro other member
    rcases List.mem_cons.mp member with rfl | member
    · exact ⟨a, operand, fromFirst⟩
    · exact each other member

/-! ## Literals, and one comparison of two -/

/-- The tokens of a literal, and its value. -/
inductive IsLiteral : List Lexeme → Value → Prop
  | boolean {x : Text} {truth : Bool} : booleanWord x = some truth →
      IsLiteral [.word x] (.boolean truth)
  | number {whole : Text} {fraction : Option Text} :
      IsLiteral [.number whole fraction] (.number (numberValue whole fraction))
  | negative {whole : Text} {fraction : Option Text} :
      IsLiteral [.mark '-', .number whole fraction] (.number (-numberValue whole fraction))
  | quoted {quote : Char} {parts : List QuotedPart} :
      IsLiteral [.quoted quote parts] (.text (parts.map QuotedPart.value))

/-- The tokens in any number of parentheses. -/
inductive Grouped (core : List Lexeme) : List Lexeme → Prop
  | core : Grouped core core
  | group {ts : List Lexeme} : Grouped core ts → Grouped core (.opening :: (ts ++ [.closing]))

variable {core core' : List Lexeme} {v v' : Value}

theorem IsLiteral.balanced (literal : IsLiteral core v) : Balanced core := by
  cases literal <;> rfl

theorem Grouped.balanced (grouped : Grouped core ts) (literal : IsLiteral core v) : Balanced ts := by
  induction grouped with
  | core => exact literal.balanced
  | group _ ih =>
    change nest 1 _ = some 0
    rw [nest_append_of (show nest 1 _ = some 1 from nest_add ih 1)]
    rfl

theorem Grouped.bare {rank : Nat} (grouped : Grouped core ts) (literal : IsLiteral core v)
    (looser : Looser p rank) : Formula.bare p 0 ts = false := by
  cases grouped with
  | core =>
    cases literal with
    | boolean isBoolean => simp [Formula.bare, looser.boolean _ _ isBoolean]
    | number => simp [Formula.bare, looser.number]
    | negative => simp [Formula.bare, looser.mark, looser.number, depthAfter]
    | quoted => simp [Formula.bare, looser.quoted]
  | group inside =>
    have closes := inside.balanced literal
    rw [bare_cons, looser.opening]
    change Formula.bare p 1 _ = false
    rw [bare_append (show nest 1 _ = some 1 from nest_add closes 1), bare_inside closes]
    rfl

end Operators

end AxiomEncode.Formula
