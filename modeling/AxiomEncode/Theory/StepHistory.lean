/-
# Theory.StepHistory -- histories that change at borders only

A `Piece` is in force from its start through its stop, both included; a piece
without a stop stays in force.  Over an order in which every element but the last
has one right after it, a piece starts or ends being in force at two places only:
at its start and right after its stop.  So a history that is read off the pieces in
force (`Piece.Holds`) is settled by finitely many probes of a window: the lower end
of the window and every border inside it (`holds_iff_of_probe`).
-/
import Mathlib.Order.Basic
import Mathlib.Data.Finset.Max
import Mathlib.Tactic.Common

namespace AxiomEncode.Theory

set_option autoImplicit false

/-- What is in force from `start` through `stop`. -/
structure Piece (Time Value : Type*) where
  start : Time
  stop : Option Time
  value : Value

namespace Piece

variable {Time Value : Type*} [LinearOrder Time]

def Holds (piece : Piece Time Value) (time : Time) : Prop :=
  piece.start ≤ time ∧ ∀ stop ∈ piece.stop, time ≤ stop

instance (piece : Piece Time Value) (time : Time) : Decidable (piece.Holds time) := by
  unfold Holds
  infer_instance

/-- `time` is a place at which the piece comes into force or has just ended. -/
def Border (piece : Piece Time Value) (time : Time) : Prop :=
  time = piece.start ∨ ∃ stop ∈ piece.stop, ∀ other, stop < other ↔ time ≤ other

/-- Every piece that has a stop before something has a border right after its stop. -/
def Ends (piece : Piece Time Value) : Prop :=
  ∀ stop ∈ piece.stop, ∀ later, stop < later → ∃ after, ∀ other, stop < other ↔ after ≤ other

/-- No border of the piece lies above `probe` and not above `time`. -/
theorem holds_iff_of_border {piece : Piece Time Value} {probe time : Time} (ends : piece.Ends)
    (below : probe ≤ time)
    (quiet : ∀ border, piece.Border border → border ≤ time → border ≤ probe) :
    piece.Holds probe ↔ piece.Holds time := by
  constructor
  · rintro ⟨started, running⟩
    refine ⟨le_trans started below, fun stop has => ?_⟩
    by_contra passed
    have passed : stop < time := lt_of_not_ge passed
    obtain ⟨after, next⟩ := ends stop has time passed
    have early := quiet after (.inr ⟨stop, has, next⟩) ((next time).mp passed)
    exact absurd (running stop has) (not_le_of_gt ((next probe).mpr early))
  · rintro ⟨started, running⟩
    exact ⟨quiet piece.start (.inl rfl) started, fun stop has => le_trans below (running stop has)⟩

end Piece

/-- The last of finitely many probes that is not after `time`. -/
theorem exists_last_probe {Time : Type*} [LinearOrder Time] (probes : List Time) {first time : Time}
    (member : first ∈ probes) (before : first ≤ time) :
    ∃ probe ∈ probes, probe ≤ time ∧ ∀ other ∈ probes, other ≤ time → other ≤ probe := by
  classical
  have some_ : (probes.toFinset.filter (· ≤ time)).Nonempty :=
    ⟨first, by simp [member, before]⟩
  obtain ⟨probe, inside, largest⟩ := Finset.exists_max_image _ id some_
  simp only [Finset.mem_filter, List.mem_toFinset, id_eq] at inside largest
  exact ⟨probe, inside.1, inside.2, fun other has early => largest other ⟨has, early⟩⟩

/-- **Probing a window.**  Some probe of the window stands for a time in it: the same
pieces are in force at both, once the probes have the start of the window and every
border of the pieces inside it. -/
theorem holds_iff_of_probe {Time Value : Type*} [LinearOrder Time] {start stop time : Time}
    {probes : List Time} (pieces : List (Piece Time Value)) (ends : ∀ piece ∈ pieces, piece.Ends)
    (opens : start ∈ probes) (inside : ∀ probe ∈ probes, start ≤ probe ∧ probe ≤ stop)
    (borders : ∀ piece ∈ pieces, ∀ border, piece.Border border → start ≤ border → border ≤ stop →
      border ∈ probes) (from_ : start ≤ time) (through : time ≤ stop) :
    ∃ probe ∈ probes, ∀ piece ∈ pieces, (piece.Holds probe ↔ piece.Holds time) := by
  obtain ⟨probe, member, below, last⟩ := exists_last_probe probes opens from_
  refine ⟨probe, member, fun piece has => Piece.holds_iff_of_border (ends piece has) below ?_⟩
  intro border isBorder early
  by_cases late : start ≤ border
  · exact last border (borders piece has border isBorder late (le_trans early through)) early
  · exact le_trans (le_of_not_ge late) (inside probe member).1

end AxiomEncode.Theory
