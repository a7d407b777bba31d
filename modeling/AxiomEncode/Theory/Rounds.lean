/-
# Theory.Rounds -- rounds of a simultaneous update

A round gives every name of a finite set at once the value that its update makes of the
values before the round.  Where an update reads only the names its name depends on and
no name depends on itself, the values are settled after as many rounds as there are
names (`iterate_settled`), and there is one way only for them to be (`settled_unique`).
-/
import Mathlib.Data.Finset.Card
import Mathlib.Logic.Function.Iterate
import Mathlib.Logic.Relation

namespace AxiomEncode.Theory.Rounds

open Relation

set_option autoImplicit false

variable {ι β : Type*}

/-- No name depends on itself. -/
def Acyclic (dep : ι → ι → Prop) : Prop := ∀ name, ¬ TransGen dep name name

theorem acyclic_of_lt [Preorder ι] {dep : ι → ι → Prop}
    (edge : ∀ name other, dep name other → name < other) : Acyclic dep := by
  have path : ∀ name other, TransGen dep name other → name < other := by
    intro name other path
    induction path with
    | single last => exact edge _ _ last
    | tail _ last ih => exact lt_trans ih (edge _ _ last)
  exact fun name cycle => lt_irrefl name (path name name cycle)

/-- What a round is: names outside the set keep their value, and the value a name gets
depends on theirs and on those of the names in the set that it depends on. -/
structure IsRound (names : Finset ι) (dep : ι → ι → Prop) (round : (ι → β) → ι → β) : Prop where
  outside : ∀ values, ∀ name ∉ names, round values name = values name
  reads : ∀ values others, (∀ name ∉ names, values name = others name) →
    ∀ name ∈ names, (∀ other ∈ names, dep name other → values other = others other) →
      round values name = round others name

section Height

variable {names : Finset ι} {dep : ι → ι → Prop} {name other : ι}

open Classical in
/-- The names of the set that a name depends on, directly or not. -/
noncomputable def below (names : Finset ι) (dep : ι → ι → Prop) (name : ι) : Finset ι :=
  names.filter fun other => TransGen dep name other

theorem mem_below : other ∈ below names dep name ↔ other ∈ names ∧ TransGen dep name other := by
  classical exact Finset.mem_filter

noncomputable def height (names : Finset ι) (dep : ι → ι → Prop) (name : ι) : Nat :=
  (below names dep name).card

theorem height_lt_card (acyclic : Acyclic dep) (member : name ∈ names) :
    height names dep name < names.card := by
  refine Finset.card_lt_card (Finset.ssubset_iff_subset_ne.mpr
    ⟨fun other inside => (mem_below.mp inside).1, fun same => ?_⟩)
  exact acyclic name (mem_below.mp (same ▸ member)).2

theorem height_lt (acyclic : Acyclic dep) (member : other ∈ names) (depends : dep name other) :
    height names dep other < height names dep name := by
  refine Finset.card_lt_card (Finset.ssubset_iff_subset_ne.mpr ⟨fun further inside => ?_,
    fun same => ?_⟩)
  · obtain ⟨listed, path⟩ := mem_below.mp inside
    exact mem_below.mpr ⟨listed, .head depends path⟩
  · have inside : other ∈ below names dep name := mem_below.mpr ⟨member, .single depends⟩
    exact acyclic other (mem_below.mp (same ▸ inside)).2

end Height

section Settle

variable {names : Finset ι} {dep : ι → ι → Prop} {round : (ι → β) → ι → β} {values others : ι → β}
  {name : ι}

theorem IsRound.iterate_outside (isRound : IsRound names dep round) (absent : name ∉ names)
    (count : Nat) : round^[count] values name = values name := by
  induction count with
  | zero => rfl
  | succ count ih => rw [Function.iterate_succ_apply', isRound.outside _ _ absent, ih]

/-- A name has its last value when a round has passed for every name below it. -/
theorem IsRound.iterate_name (isRound : IsRound names dep round) (acyclic : Acyclic dep)
    (values : ι → β) (count : Nat) (member : name ∈ names) (low : height names dep name < count) :
    round^[count + 1] values name = round^[count] values name := by
  have next : ∀ count name, round^[count + 1] values name = round (round^[count] values) name :=
    fun count name => by rw [Function.iterate_succ_apply']
  -- on the rounds, the names below one round ahead
  induction count generalizing name with
  | zero => exact absurd low (Nat.not_lt_zero _)
  | succ count ih =>
    rw [next (count + 1) name, next count name]
    refine isRound.reads _ _ (fun other absent => ?_) name member fun other listed depends => ?_
    · rw [isRound.iterate_outside absent, isRound.iterate_outside absent]
    · have lower := height_lt acyclic listed depends
      exact ih listed (by omega)

/-- **Settled after as many rounds as there are names.** -/
theorem IsRound.iterate_settled (isRound : IsRound names dep round) (acyclic : Acyclic dep)
    (values : ι → β) :
    round (round^[names.card] values) = round^[names.card] values := by
  funext name
  rw [← Function.iterate_succ_apply' round]
  by_cases member : name ∈ names
  · exact isRound.iterate_name acyclic values _ member (height_lt_card acyclic member)
  · rw [isRound.iterate_outside member, isRound.iterate_outside member]

/-- **Settled in one way.** -/
theorem IsRound.settled_unique (isRound : IsRound names dep round) (acyclic : Acyclic dep)
    (settled : round values = values) (settled' : round others = others)
    (outside : ∀ name ∉ names, values name = others name) : values = others := by
  have each : ∀ bound, ∀ name ∈ names, height names dep name < bound →
      values name = others name := by
    intro bound
    induction bound with
    | zero => exact fun _ _ low => absurd low (Nat.not_lt_zero _)
    | succ bound ih =>
      intro name member low
      rw [← settled, ← settled']
      refine isRound.reads _ _ outside name member fun other listed depends => ih other listed ?_
      have lower := height_lt acyclic listed depends
      omega
  funext name
  by_cases member : name ∈ names
  · exact each _ name member (Nat.lt_succ_self _)
  · exact outside name member

end Settle

end AxiomEncode.Theory.Rounds
