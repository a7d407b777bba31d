/-
# Theory.CommonPrefix -- the longest common prefix of two lists

`LongestCommon v a b` says that `v` is the longest prefix of `a` that `b` begins with.  What is
kept of a list in front of a marker is the longest common prefix unless the list goes on as the marker
does (`longestCommon_mark_iff`).
-/
import Mathlib.Data.List.Infix
import Mathlib.Tactic.Common

namespace AxiomEncode.Theory

set_option autoImplicit false

section Common

variable {α : Type} {a b v kept rest : List α} {mark : α}

/-- `v` is the longest prefix of `a` that `b` begins with. -/
structure LongestCommon (v a b : List α) : Prop where
  ofFirst : v <+: a
  ofSecond : v <+: b
  longest : ∀ w, w <+: a → w <+: b → w <+: v

theorem longestCommon_self : LongestCommon a a a :=
  ⟨List.prefix_rfl, List.prefix_rfl, fun _ first _ => first⟩

theorem LongestCommon.unique {w : List α} (one : LongestCommon v a b) (other : LongestCommon w a b) :
    v = w :=
  (other.longest v one.ofFirst one.ofSecond).eq_of_length_le
    (one.longest w other.ofFirst other.ofSecond).length_le

/-- What follows a prefix. -/
theorem prefix_concat_iff (isPrefix : kept <+: a) : kept ++ [mark] <+: a ↔ a[kept.length]? = some mark := by
  obtain ⟨rest, rfl⟩ := isPrefix
  rw [List.prefix_append_right_inj, List.getElem?_append_right le_rfl, Nat.sub_self]
  cases rest with
  | nil => simp
  | cons x rest => simp [eq_comm]

/-- **What is kept before a marker is the longest common prefix unless the list goes on with the
first element of the marker.** -/
theorem longestCommon_mark_iff (isPrefix : kept <+: a) :
    LongestCommon kept a (kept ++ mark :: rest) ↔ a[kept.length]? ≠ some mark := by
  have before : kept ++ [mark] <+: kept ++ mark :: rest :=
    (List.prefix_append_right_inj kept).mpr (List.cons_prefix_cons.mpr ⟨rfl, List.nil_prefix⟩)
  constructor
  · intro longest goesOn
    have longer := (longest.longest _ ((prefix_concat_iff isPrefix).mpr goesOn) before).length_le
    rw [List.length_append, List.length_singleton] at longer
    omega
  · intro ends
    refine ⟨isPrefix, List.prefix_append _ _, fun w first second => ?_⟩
    by_contra longer
    have long : kept.length < w.length := by
      by_contra short
      exact longer (List.prefix_of_prefix_length_le first isPrefix (not_lt.mp short))
    have covers : kept ++ [mark] <+: w := by
      refine List.prefix_of_prefix_length_le before second ?_
      rw [List.length_append, List.length_singleton]
      exact long
    exact ends ((prefix_concat_iff isPrefix).mp (covers.trans first))

end Common

end AxiomEncode.Theory
