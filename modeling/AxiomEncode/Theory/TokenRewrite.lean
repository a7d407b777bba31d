/-
# Theory.TokenRewrite -- one pass of token replacements

A pass goes through a text from left to right: where `choose` names a rule, the rule's old
token is swapped for its new one and scanning goes on behind it; otherwise the character is
kept.  A token stands at a position if no reference character touches it on either side.

A pass is given by its pieces.  Its elements are characters, or characters that remember
whether a pass has inserted them (`Cell`), read through `ch`.
-/
import Mathlib.Tactic.Common
import Mathlib.Data.List.MinMax

namespace AxiomEncode.Theory

set_option autoImplicit false

/-- An old token and the text that replaces it. -/
structure TokenRule where
  old : List Char
  new : List Char
  deriving DecidableEq

inductive TextPiece (β : Type) where
  | keep (x : β)
  | swap (stretch : List β) (rule : TokenRule)

/-- A character, and whether a pass has inserted it. -/
abbrev Cell := Char × Bool

/-- `old` stands at the start of `rest`, and no reference character touches it. -/
def standsAt (ref : Char → Bool) (old : List Char) (before : Option Char) (rest : List Char) :
    Bool :=
  !before.any ref && old.isPrefixOf rest && !(rest.drop old.length).head?.any ref

/-- The character in front of what follows a text. -/
def lastOf (before : Option Char) (text : List Char) : Option Char := text.getLast?.or before

/-- The pieces of a pass; the first `skip` elements belong to a stretch that was swapped. -/
def scan {β : Type} (ch : β → Char) (choose : Option Char → List Char → Option TokenRule) :
    Nat → Option Char → List β → List (TextPiece β)
  | _, _, [] => []
  | skip + 1, _, x :: rest => scan ch choose skip (some (ch x)) rest
  | 0, before, x :: rest =>
    match choose before ((x :: rest).map ch) with
    | none => .keep x :: scan ch choose 0 (some (ch x)) rest
    | some rule =>
      .swap ((x :: rest).take rule.old.length) rule
        :: scan ch choose (rule.old.length - 1) (some (ch x)) rest

/-- One token at a time. -/
def chooseOne (ref : Char → Bool) (rule : TokenRule) (before : Option Char) (rest : List Char) :
    Option TokenRule :=
  if standsAt ref rule.old before rest then some rule else none

/-- The longest token that stands at a position. -/
def chooseLongest (ref : Char → Bool) (rules : List TokenRule) (before : Option Char)
    (rest : List Char) : Option TokenRule :=
  (rules.filter fun rule => standsAt ref rule.old before rest).argmax fun rule => rule.old.length

namespace TextPiece

variable {β : Type}

/-- What a piece puts into the text. -/
def output (insert : Char → β) : TextPiece β → List β
  | keep x => [x]
  | swap _ rule => rule.new.map insert

def isSwap : TextPiece β → Bool
  | keep _ => false
  | swap _ _ => true

def swaps (rule : TokenRule) : TextPiece β → Bool
  | keep _ => false
  | swap _ other => other = rule

end TextPiece

/-- The text behind a pass. -/
def outputs {β : Type} (insert : Char → β) (pieces : List (TextPiece β)) : List β :=
  pieces.flatMap (TextPiece.output insert)

section Scan

variable {β γ : Type} {ch : β → Char} {choose : Option Char → List Char → Option TokenRule}
  {ref : Char → Bool} {before b : Option Char} {c : Char} {text rest u v : List Char}
  {x : β} {xs ys stretch : List β} {rule other : TokenRule}

@[simp] theorem lastOf_nil (before : Option Char) : lastOf before [] = before := rfl

@[simp] theorem lastOf_cons (before : Option Char) (c : Char) (text : List Char) :
    lastOf before (c :: text) = lastOf (some c) text := by
  cases h : text.getLast? <;> simp [lastOf, List.getLast?_cons, h]

theorem lastOf_append (before : Option Char) (u v : List Char) :
    lastOf before (u ++ v) = lastOf (lastOf before u) v := by
  simp [lastOf, List.getLast?_append, Option.or_assoc]

/-! ## Where a token stands -/

theorem standsAt_iff {old : List Char} :
    standsAt ref old before rest = true ↔
      before.any ref = false ∧ ∃ after, rest = old ++ after ∧ after.head?.any ref = false := by
  rw [standsAt, Bool.and_eq_true, Bool.and_eq_true, Bool.not_eq_true', Bool.not_eq_true',
    List.isPrefixOf_iff_prefix]
  constructor
  · rintro ⟨⟨free, after, rfl⟩, ends⟩
    rw [List.drop_left] at ends
    exact ⟨free, after, rfl, ends⟩
  · rintro ⟨free, after, rfl, ends⟩
    rw [List.drop_left]
    exact ⟨⟨free, after, rfl⟩, ends⟩

theorem chooseOne_eq_some (chosen : chooseOne ref rule before rest = some other) :
    other = rule ∧ standsAt ref rule.old before rest = true := by
  rw [chooseOne] at chosen
  split_ifs at chosen with stands
  exact ⟨(Option.some.inj chosen).symm, stands⟩

variable {rules : List TokenRule}

theorem chooseLongest_eq_some (chosen : chooseLongest ref rules before rest = some rule) :
    rule ∈ rules ∧ standsAt ref rule.old before rest = true := by
  have member := List.argmax_mem (Option.mem_def.mpr chosen)
  exact List.mem_filter.mp member

theorem chooseLongest_eq_none (chosen : chooseLongest ref rules before rest = none)
    (member : rule ∈ rules) :
    standsAt ref rule.old before rest = false := by
  have empty := List.argmax_eq_none.mp chosen
  rw [List.filter_eq_nil_iff] at empty
  simpa using empty rule member

/-! ## One step, and a stretch without a token -/

theorem scan_keep (chosen : choose before ((x :: xs).map ch) = none) :
    scan ch choose 0 before (x :: xs) = .keep x :: scan ch choose 0 (some (ch x)) xs := by
  rw [scan, chosen]

/-- Skipping a stretch. -/
theorem scan_skip (stretch xs : List β) (before : Option Char) :
    scan ch choose stretch.length before (stretch ++ xs)
      = scan ch choose 0 (lastOf before (stretch.map ch)) xs := by
  induction stretch generalizing before with
  | nil => rfl
  | cons x stretch ih =>
    rw [List.length_cons, List.cons_append, scan, ih, List.map_cons, lastOf_cons]

theorem scan_swap (nonempty : stretch ≠ [])
    (chosen : choose before ((stretch ++ xs).map ch) = some rule)
    (same : stretch.length = rule.old.length) :
    scan ch choose 0 before (stretch ++ xs)
      = .swap stretch rule :: scan ch choose 0 (lastOf before (stretch.map ch)) xs := by
  obtain ⟨x, stretch, rfl⟩ := List.exists_cons_of_ne_nil nonempty
  rw [List.cons_append] at chosen ⊢
  have taken : (x :: (stretch ++ xs)).take rule.old.length = x :: stretch := by
    rw [← same, ← List.cons_append, List.take_left]
  have skipped : rule.old.length - 1 = stretch.length := by
    rw [← same, List.length_cons, Nat.add_sub_cancel]
  rw [scan, chosen]
  simp only
  rw [taken, skipped, scan_skip, List.map_cons, lastOf_cons]

/-- Over a stretch the pass keeps everything exactly if no token is chosen in it. -/
theorem scan_eq_keep_iff (tail : List (TextPiece β)) :
    scan ch choose 0 before (xs ++ ys) = xs.map .keep ++ tail ↔
      (∀ us vs, xs = us ++ vs → vs ≠ [] →
          choose (lastOf before (us.map ch)) ((vs ++ ys).map ch) = none)
        ∧ scan ch choose 0 (lastOf before (xs.map ch)) ys = tail := by
  induction xs generalizing before with
  | nil => simp
  | cons x xs ih =>
    constructor
    · intro kept
      cases chosen : choose before ((x :: (xs ++ ys)).map ch) with
      | some rule =>
        rw [List.cons_append, scan, chosen] at kept
        cases (List.cons.inj kept).1
      | none =>
        rw [List.cons_append, scan_keep chosen, List.map_cons, List.cons_append] at kept
        obtain ⟨free, same⟩ := ih.mp (List.cons.inj kept).2
        refine ⟨fun us vs split nonempty => ?_, by rwa [List.map_cons, lastOf_cons]⟩
        cases us with
        | nil =>
          rw [List.nil_append] at split
          rw [← split]
          exact chosen
        | cons u us =>
          obtain ⟨rfl, rest⟩ := List.cons.inj split
          rw [List.map_cons, lastOf_cons]
          exact free us vs rest nonempty
    · rintro ⟨free, same⟩
      have chosen : choose before ((x :: (xs ++ ys)).map ch) = none :=
        free [] (x :: xs) rfl (by simp)
      rw [List.cons_append, scan_keep chosen, List.map_cons, List.cons_append]
      rw [List.map_cons, lastOf_cons] at same
      rw [ih.mpr ⟨fun us vs split nonempty => ?_, same⟩]
      have next := free (x :: us) vs (by rw [split, List.cons_append]) nonempty
      rwa [List.map_cons, lastOf_cons] at next

/-- Either nothing is chosen in a stretch, or some element of it is swapped. -/
theorem scan_keep_or_swap (xs ys : List β) (before : Option Char) :
    (∀ us vs, xs = us ++ vs → vs ≠ [] →
        choose (lastOf before (us.map ch)) ((vs ++ ys).map ch) = none)
      ∨ ∃ x ∈ xs, ∃ stretch rule b rest, choose b rest = some rule
          ∧ .swap ((x :: stretch).take rule.old.length) rule
            ∈ scan ch choose 0 before (xs ++ ys) := by
  induction xs generalizing before with
  | nil =>
    refine .inl fun us vs split nonempty => absurd ?_ nonempty
    exact (List.append_eq_nil_iff.mp split.symm).2
  | cons x xs ih =>
    cases chosen : choose before ((x :: (xs ++ ys)).map ch) with
    | some rule =>
      refine .inr ⟨x, List.mem_cons_self, xs ++ ys, rule, _, _, chosen, ?_⟩
      rw [List.cons_append, scan, chosen]
      exact List.mem_cons_self
    | none =>
      rw [List.cons_append, scan_keep chosen]
      rcases ih (some (ch x)) with free | ⟨y, inside, stretch, rule, b, rest, chosen, member⟩
      · refine .inl fun us vs split nonempty => ?_
        cases us with
        | nil =>
          rw [List.nil_append] at split
          rw [← split]
          exact chosen
        | cons u us =>
          obtain ⟨rfl, rest⟩ := List.cons.inj split
          rw [List.map_cons, lastOf_cons]
          exact free us vs rest nonempty
      · exact .inr ⟨y, List.mem_cons_of_mem _ inside, stretch, rule, b, rest, chosen,
          List.mem_cons_of_mem _ member⟩

/-- A pass does not look behind the characters. -/
theorem scan_map (f : β → γ) {ch' : γ → Char} (same : ∀ x, ch' (f x) = ch x) (skip : Nat)
    (before : Option Char) (xs : List β) :
    scan ch' choose skip before (xs.map f)
      = (scan ch choose skip before xs).map fun piece => match piece with
          | .keep x => .keep (f x)
          | .swap stretch rule => .swap (stretch.map f) rule := by
  induction xs generalizing skip before with
  | nil => simp [scan]
  | cons x xs ih =>
    have chars : ((x :: xs).map f).map ch' = (x :: xs).map ch := by simp [same]
    cases skip with
    | succ skip => rw [List.map_cons, scan, scan, ih, same]
    | zero =>
      rw [List.map_cons] at chars ⊢
      rw [scan, scan, chars]
      cases choose before ((x :: xs).map ch) with
      | none => simp [ih, same]
      | some rule => simp [ih, same, List.map_take]

end Scan

end AxiomEncode.Theory
