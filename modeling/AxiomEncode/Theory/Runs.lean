/-
# Theory.Runs -- sequences of states

What holds at the end of a run but not at its start came about at a last step, and
has held since.  What a step relates and every further step extends is related for all
later states.
-/
import Mathlib.Tactic.Common

namespace AxiomEncode.Theory

set_option autoImplicit false

/-- The last step at which a property came about. -/
theorem exists_last_step {σ : Type*} (state : Nat → σ) (P : σ → Prop) {finish : Nat}
    (start : ¬ P (state 0)) (stop : P (state finish)) :
    ∃ step < finish, ¬ P (state step) ∧ ∀ later, step < later → later ≤ finish → P (state later) := by
  induction finish with
  | zero => exact absurd stop start
  | succ finish ih =>
    by_cases before : P (state finish)
    · obtain ⟨step, early, outside, since⟩ := ih before
      refine ⟨step, by omega, outside, fun later after within => ?_⟩
      rcases Nat.lt_or_ge finish later with last | inside
      · obtain rfl : later = finish + 1 := by omega
        exact stop
      · exact since later after inside
    · refine ⟨finish, by omega, before, fun later after within => ?_⟩
      obtain rfl : later = finish + 1 := by omega
      exact stop

/-- Related by every step, and extended by every step after. -/
theorem rel_of_lt {σ : Type*} {state : Nat → σ} {finish : Nat} {R : σ → σ → Prop}
    (first : ∀ step < finish, R (state step) (state (step + 1)))
    (extend : ∀ start step, step < finish → R (state start) (state step) →
      R (state start) (state (step + 1)))
    {start later : Nat} (before : start < later) (within : later ≤ finish) :
    R (state start) (state later) := by
  induction later with
  | zero => exact absurd before (Nat.not_lt_zero start)
  | succ later ih =>
    rcases Nat.lt_or_ge start later with earlier | here
    · exact extend start later within (ih earlier (by omega))
    · obtain rfl : start = later := by omega
      exact first start within

end AxiomEncode.Theory
