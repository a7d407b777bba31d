/-
# Theory.TokenCounts -- counting the swaps of a pass

A pass without a swap leaves the text as it is (`noSwap_iff`).  The swaps of clean pieces
are those of the passes, one rule each (`sum_passCounts`).  And where each rule inserts less
of some kind of character than its token has, a pass that swaps changes the text.
-/
import AxiomEncode.Theory.TokenSequence
import Mathlib.Algebra.Ring.Nat
import Mathlib.Algebra.BigOperators.Group.List.Lemmas

namespace AxiomEncode.Theory

set_option autoImplicit false

/-- The pass of one rule over a text. -/
def passText (ref : Char → Bool) (rule : TokenRule) (text : List Char) : List (TextPiece Char) :=
  scan id (chooseOne ref rule) 0 none text

/-- No token of the rule stands anywhere in the text. -/
def Nowhere (ref : Char → Bool) (rule : TokenRule) (text : List Char) : Prop :=
  ∀ front back, text = front ++ back → back ≠ [] →
    standsAt ref rule.old (lastOf none front) back = false

section Counts

variable {ref : Char → Bool} {rules turns later : List TokenRule} {rule other : TokenRule}
  {before : Option Char} {pieces : List (TextPiece Char)} {text : List Char}

theorem passText_nowhere (nowhere : Nowhere ref rule text) : passText ref rule text = text.map .keep := by
  have kept := @scan_eq_keep_iff _ id (chooseOne ref rule) none text [] []
  rw [List.append_nil, List.append_nil] at kept
  refine kept.mpr ⟨fun front back split nonempty => ?_, rfl⟩
  rw [List.map_id, List.append_nil, List.map_id]
  exact chooseOne_eq_none_iff.mpr (nowhere front back split nonempty)

/-- A pass swaps nothing exactly if the token stands nowhere. -/
theorem noSwap_iff : (passText ref rule text).countP TextPiece.isSwap = 0 ↔ Nowhere ref rule text := by
  constructor
  · intro none front back split nonempty
    have either := @scan_keep_or_swap _ id (chooseOne ref rule) text [] Option.none
    rw [List.append_nil] at either
    rcases either with free | ⟨x, -, stretch, found, b, rest, -, member⟩
    · have chosen := free front back split nonempty
      rw [List.map_id, List.append_nil, List.map_id] at chosen
      exact chooseOne_eq_none_iff.mp chosen
    · exact absurd rfl (List.countP_eq_zero.mp none _ member)
  · intro nowhere
    rw [passText_nowhere nowhere, List.countP_map, List.countP_eq_zero]
    intro c _
    simp [TextPiece.isSwap]

/-! ## The passes over marked characters -/

/-- The pass over marked characters is the pass over the characters. -/
theorem passText_fst (ref : Char → Bool) (rule : TokenRule) (cells : List Cell) :
    outputs id (passText ref rule (cells.map Prod.fst))
        = (outputs (fun c => (c, true)) (passPieces ref rule none cells)).map Prod.fst
      ∧ (passText ref rule (cells.map Prod.fst)).countP TextPiece.isSwap
          = (passPieces ref rule none cells).countP TextPiece.isSwap := by
  have mapped := @scan_map _ _ Prod.fst (chooseOne ref rule) Prod.fst id (fun _ => rfl) 0 none cells
  rw [passText, passPieces, mapped]
  generalize scan Prod.fst (chooseOne ref rule) 0 none cells = pieces
  constructor
  · induction pieces with
    | nil => rfl
    | cons piece pieces ih =>
      rw [List.map_cons, outputs_cons, outputs_cons, List.map_append, ← ih]
      cases piece with
      | keep x => rfl
      | swap stretch rule => simp [TextPiece.output, Function.comp_def]
  · rw [List.countP_map]
    refine List.countP_congr fun piece _ => ?_
    cases piece <;> rfl

theorem countP_passed (rule : TokenRule) (pieces : List (TextPiece Char)) :
    (passed rule pieces).countP TextPiece.isSwap = pieces.countP (TextPiece.swaps rule) := by
  induction pieces with
  | nil => rfl
  | cons piece pieces ih =>
    rw [passed, List.flatMap_cons, ← passed, List.countP_append, ih, List.countP_cons, Nat.add_comm]
    congr 1
    cases piece with
    | keep c => rfl
    | swap stretch other =>
      by_cases same : other = rule
      · simp [TextPiece.passed, TextPiece.swaps, TextPiece.isSwap, same]
      · simp [TextPiece.passed, TextPiece.swaps, TextPiece.isSwap, same, Function.comp_def]

theorem countP_swaps_undo (missing : rule ∉ later) (pieces : List (TextPiece Char)) :
    (undo later pieces).countP (TextPiece.swaps rule) = pieces.countP (TextPiece.swaps rule) := by
  induction pieces with
  | nil => rfl
  | cons piece pieces ih =>
    rw [undo_cons, List.countP_append, ih, List.countP_cons, Nat.add_comm]
    congr 1
    cases piece with
    | keep c => rfl
    | swap stretch other =>
      by_cases isLater : other ∈ later
      · have different : other ≠ rule := fun same => missing (same ▸ isLater)
        simp [TextPiece.undo, TextPiece.swaps, isLater, different, Function.comp_def]
      · simp [TextPiece.undo, isLater, List.countP_singleton]

/-- Every swap belongs to one rule. -/
theorem sum_countP_swaps (nodup : turns.Nodup)
    (members : ∀ stretch rule, .swap stretch rule ∈ pieces → rule ∈ turns) :
    (turns.map fun rule => pieces.countP (TextPiece.swaps rule)).sum
      = pieces.countP TextPiece.isSwap := by
  have indicator (piece : TextPiece Char) (turns : List TokenRule) :
      (turns.map fun rule => if piece.swaps rule then 1 else 0).sum
        = turns.countP fun rule => piece.swaps rule := by
    induction turns with
    | nil => rfl
    | cons rule turns ih => rw [List.map_cons, List.sum_cons, ih, List.countP_cons, Nat.add_comm]
  induction pieces with
  | nil => simp
  | cons piece pieces ih =>
    simp only [List.countP_cons, List.sum_map_add, indicator]
    rw [ih fun stretch rule member => members stretch rule (List.mem_cons_of_mem _ member)]
    congr 1
    cases piece with
    | keep c => simp [TextPiece.swaps, TextPiece.isSwap]
    | swap stretch other =>
      have one := List.count_eq_one_of_mem nodup (members stretch other List.mem_cons_self)
      rw [List.count] at one
      simp only [TextPiece.swaps, TextPiece.isSwap, if_true]
      rw [← one]
      refine List.countP_congr fun rule _ => ?_
      rw [decide_eq_true_eq, beq_iff_eq, eq_comm]

/-! ## A pass that swaps changes the text -/

/-- What is left of a kind of character behind a pass. -/
theorem countP_passText {kind : Char → Bool} (start : rule.old ≠ [])
    (fewer : rule.new.countP kind < rule.old.countP kind) (text : List Char) :
    (outputs id (scan id (chooseOne ref rule) 0 before text)).countP kind
        + (scan id (chooseOne ref rule) 0 before text).countP TextPiece.isSwap
      ≤ text.countP kind := by
  obtain ⟨n, bound⟩ : ∃ n, text.length ≤ n := ⟨_, le_rfl⟩
  induction n generalizing before text with
  | zero =>
    obtain rfl := List.length_eq_zero_iff.mp (Nat.le_zero.mp bound)
    exact le_rfl
  | succ n ih =>
    cases text with
    | nil => exact le_rfl
    | cons c rest =>
      cases chosen : chooseOne ref rule before (c :: rest) with
      | none =>
        rw [scan_keep (by rwa [List.map_id]), outputs_cons, List.countP_append,
          List.countP_cons_of_neg (by simp [TextPiece.isSwap]),
          List.countP_cons, TextPiece.output, List.countP_singleton]
        have := @ih (some (id c)) rest (by simpa using bound)
        omega
      | some found =>
        obtain ⟨rfl, stands⟩ := chooseOne_eq_some chosen
        obtain ⟨-, after, split, -⟩ := standsAt_iff.mp stands
        rw [split] at bound chosen ⊢
        have positive := List.length_pos_iff.mpr start
        rw [List.length_append] at bound
        rw [scan_swap start (by rwa [List.map_id]) rfl, outputs_cons, List.countP_append,
          List.countP_cons_of_pos rfl, List.countP_append, TextPiece.output, List.map_id]
        have := @ih (lastOf before (found.old.map id)) after (by omega)
        omega

end Counts

end AxiomEncode.Theory
