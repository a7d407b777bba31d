/-
# Theory.PathCover -- the shallowest of a set of paths

Items sit at paths, and one path covers another when it is a prefix of it.  The
`shallowest` items are those no other item sits properly above.  They form an
antichain (`shallowest_antichain`) and cover everything
(`exists_shallowest_prefix`): an exact cover, whatever the items are.
-/
import Mathlib.Data.List.Basic
import Mathlib.Data.List.Infix
import Mathlib.Tactic.Common

namespace AxiomEncode.Theory

set_option autoImplicit false

section Prefix

variable {α : Type}
variable {p q : List α} {x : α}

theorem prefix_append_singleton (below : p ++ [x] <+: q) : p <+: q :=
  (List.prefix_append p [x]).trans below

/-- A proper extension of `p` goes through one child of `p`. -/
theorem exists_child_prefix (covers : p <+: q) (proper : p ≠ q) :
    ∃ x, p ++ [x] <+: q := by
  obtain ⟨rest, rfl⟩ := covers
  cases rest with
  | nil => simp at proper
  | cons x rest => exact ⟨x, rest, by simp⟩

/-- Two children of one path with a common extension are the same child. -/
theorem child_unique {y : α} (first : p ++ [x] <+: q) (second : p ++ [y] <+: q) :
    p ++ [x] = p ++ [y] := by
  have ordered := List.prefix_of_prefix_length_le first second (by simp)
  exact ordered.eq_of_length (by simp)

theorem not_child_prefix_self : ¬ p ++ [x] <+: p := by
  intro covers
  have longer := covers.length_le
  rw [List.length_append, List.length_singleton] at longer
  omega

end Prefix

section Shallowest

variable {α β : Type} [DecidableEq α] (path : β → List α)

/-- The items no other item sits properly above. -/
def shallowest (items : List β) : List β :=
  items.filter fun x => items.all fun y => !(path y <+: path x) || path y = path x

variable {items : List β}

theorem mem_shallowest {x : β} :
    x ∈ shallowest path items ↔
      x ∈ items ∧ ∀ y ∈ items, path y <+: path x → path y = path x := by
  simp only [shallowest, List.mem_filter, List.all_eq_true, Bool.or_eq_true,
    Bool.not_eq_true', decide_eq_false_iff_not, decide_eq_true_eq]
  constructor
  · rintro ⟨member, least⟩
    exact ⟨member, fun y hy covers => (least y hy).resolve_left (fun h => h covers)⟩
  · rintro ⟨member, least⟩
    exact ⟨member, fun y hy => or_iff_not_imp_left.mpr fun h => least y hy (not_not.mp h)⟩

theorem shallowest_antichain {x y : β} (hx : x ∈ shallowest path items)
    (hy : y ∈ shallowest path items) (covers : path x <+: path y) : path x = path y :=
  ((mem_shallowest path).mp hy).2 x ((mem_shallowest path).mp hx).1 covers

/-- Every item has a shallowest item at or above it. -/
theorem exists_shallowest_prefix {x : β} (hx : x ∈ items) :
    ∃ y ∈ shallowest path items, path y <+: path x := by
  induction hn : (path x).length using Nat.strong_induction_on generalizing x with
  | _ n ih =>
    by_cases least : ∀ y ∈ items, path y <+: path x → path y = path x
    · exact ⟨x, (mem_shallowest path).mpr ⟨hx, least⟩, List.prefix_rfl⟩
    · push Not at least
      obtain ⟨y, hy, covers, ne⟩ := least
      have shorter : (path y).length < n := by
        rcases Nat.lt_or_ge (path y).length n with h | h
        · exact h
        · exact absurd (covers.eq_of_length_le (hn ▸ h)) ne
      obtain ⟨z, hz, above⟩ := ih _ shorter hy rfl
      exact ⟨z, hz, above.trans covers⟩

end Shallowest

end AxiomEncode.Theory
