/-
# Theory.Splice -- replacing pieces of a text

`Splice.apply` replaces one piece.  Pieces that stand one after the other can be replaced
from the last to the first, so that the places of the others stay where they are:
the result is `assemble`, the text between the pieces with what is put in their places.
A piece that is replaced by what stands there may as well be left out.
-/
import Mathlib.Data.List.Basic
import Mathlib.Data.List.Infix

namespace AxiomEncode.Theory

set_option autoImplicit false

/-- A piece of a text, from `start` up to `stop`, and what is put in its place. -/
structure Splice (α : Type*) where
  start : Nat
  stop : Nat
  inserted : List α

namespace Splice

variable {α : Type*}

/-- `text[:start] + inserted + text[stop:]` -/
def apply (splice : Splice α) (text : List α) : List α :=
  text.take splice.start ++ splice.inserted ++ text.drop splice.stop

/-- The piece is replaced by what stands there. -/
def Idle (splice : Splice α) (text : List α) : Prop :=
  splice.inserted = (text.drop splice.start).take (splice.stop - splice.start)

end Splice

variable {α : Type*} {text : List α} {offset : Nat} {splice : Splice α} {splices : List (Splice α)}

/-- The pieces stand one after the other, between an offset and the end. -/
inductive InOrder (length : Nat) : Nat → List (Splice α) → Prop
  | nil {offset : Nat} (inside : offset ≤ length) : InOrder length offset []
  | cons {offset : Nat} {splice : Splice α} {splices : List (Splice α)}
      (after : offset ≤ splice.start) (forward : splice.start ≤ splice.stop)
      (rest : InOrder length splice.stop splices) : InOrder length offset (splice :: splices)

/-- The text from an offset on, with the pieces replaced. -/
def assemble (text : List α) : Nat → List (Splice α) → List α
  | offset, [] => text.drop offset
  | offset, splice :: splices =>
    (text.drop offset).take (splice.start - offset) ++ splice.inserted ++
      assemble text splice.stop splices

variable {length earlier : Nat}

theorem InOrder.le_length (inOrder : InOrder length offset splices) :
    offset ≤ length := by
  induction inOrder with
  | nil inside => exact inside
  | cons after forward _ ih => omega

/-- **From the last piece to the first.** -/
theorem foldr_apply (inOrder : InOrder text.length offset splices) :
    splices.foldr Splice.apply text = text.take offset ++ assemble text offset splices := by
  induction inOrder with
  | nil inside => exact (List.take_append_drop _ text).symm
  | @cons offset splice splices after forward rest ih =>
    have inside := rest.le_length
    have length : (text.take splice.stop).length = splice.stop := by
      rw [List.length_take, Nat.min_eq_left inside]
    have before : text.take splice.start =
        text.take offset ++ (text.drop offset).take (splice.start - offset) := by
      rw [← List.take_add, Nat.add_sub_cancel' after]
    rw [List.foldr_cons, ih, Splice.apply, assemble,
      List.take_append_of_le_length (by omega), List.take_take, Nat.min_eq_left forward,
      List.drop_append_of_le_length (by omega), List.drop_of_length_le (by omega),
      List.nil_append, before]
    simp only [List.append_assoc]

/-- What is put in the place of a piece is in the text. -/
theorem inserted_infix (member : splice ∈ splices) (offset : Nat) :
    splice.inserted <:+: assemble text offset splices := by
  induction splices generalizing offset with
  | nil => cases member
  | cons first splices ih =>
    rw [assemble]
    rcases List.mem_cons.mp member with rfl | later
    · exact ⟨_, _, rfl⟩
    · exact (ih later _).trans (List.suffix_append _ _).isInfix

theorem InOrder.of_le (inOrder : InOrder length offset splices) (le : earlier ≤ offset) :
    InOrder length earlier splices := by
  cases inOrder with
  | nil inside => exact .nil (le.trans inside)
  | cons after forward rest => exact .cons (le.trans after) forward rest

section Items

variable {κ : Type*} {items : List κ} {splice : κ → Splice α}

theorem InOrder.filter (keep : κ → Bool) (inOrder : InOrder length offset (items.map splice)) :
    InOrder length offset ((items.filter keep).map splice) := by
  induction items generalizing offset with
  | nil => exact inOrder
  | cons item items ih =>
    cases inOrder with
    | cons after forward rest =>
      rw [List.filter_cons]
      split
      · exact .cons after forward (ih rest)
      · exact (ih rest).of_le (after.trans forward)

end Items

end AxiomEncode.Theory
