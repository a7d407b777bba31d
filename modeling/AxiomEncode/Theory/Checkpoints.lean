/-
# Theory.Checkpoints -- one pass that answers many questions

A `Scanner` moves through a text of a given length; each step either fails or moves
the position forward.  `collect` runs it over an ascending list of marks: at a mark it
asks the current state for its verdict, and once the last mark is behind it stops.

No state knows about the marks, so a pass over many marks and a pass over one of them
go through the same states.  `collect_agrees` says so: **as long as no step jumps over
a mark, the verdict on a mark in any pass that returns is the verdict of its own pass,
and that pass returns too.**
-/
import Mathlib.Data.List.Basic
import Mathlib.Tactic.Common

namespace AxiomEncode.Theory

set_option autoImplicit false

/-- A deterministic pass over positions below `length`. -/
structure Scanner (σ ε : Type*) where
  length : Nat
  position : σ → Nat
  step : σ → Except ε σ
  /-- What a mark at the current position is told. -/
  verdict : σ → Bool

namespace Scanner

variable {σ ε : Type*} (scanner : Scanner σ ε)

/-- Every step that succeeds moves forward. -/
def Advances : Prop :=
  ∀ state next, scanner.step state = .ok next → scanner.position state < scanner.position next

/-- No step passes over a mark of `marks` without stopping there. -/
def StopsAt (marks : List Nat) : Prop :=
  ∀ state next, scanner.step state = .ok next → ∀ mark ∈ marks,
    scanner.position state < mark → scanner.position next ≤ mark

/-- The marks that got a positive verdict, behind those `found` before.  `last` is the
last mark of all. -/
def collect (last : Nat) : Nat → σ → List Nat → List Nat → Except ε (List Nat)
  | 0, _, _, found => .ok found
  | steps + 1, state, marks, found =>
    let position := scanner.position state
    if position < scanner.length then
      let rest := marks.dropWhile (· == position)
      let found :=
        if marks.head? = some position && scanner.verdict state then found ++ [position] else found
      if rest.isEmpty && last ≤ position then .ok found
      else
        match scanner.step state with
        | .error error => .error error
        | .ok next => collect last steps next rest found
    else .ok found

variable {scanner} {last mark steps : Nat} {state : σ} {marks found result : List Nat}

/-- What was found stays found, and nothing behind the position is found later. -/
theorem mem_collect_of_lt (advances : scanner.Advances) (behind : mark < scanner.position state)
    (returned : scanner.collect last steps state marks found = .ok result) :
    mark ∈ result ↔ mark ∈ found := by
  induction steps generalizing state marks found with
  | zero =>
    simp only [collect, Except.ok.injEq] at returned
    rw [returned]
  | succ steps ih =>
    rw [collect] at returned
    simp only at returned
    have kept : mark ∈ (if (marks.head? = some (scanner.position state) &&
        scanner.verdict state) = true then found ++ [scanner.position state] else found) ↔
        mark ∈ found := by
      split
      · simp only [List.mem_append, List.mem_singleton]
        constructor
        · rintro (old | new)
          · exact old
          · omega
        · exact Or.inl
      · exact Iff.rfl
    split at returned
    · split at returned
      · simp only [Except.ok.injEq] at returned
        rw [← returned]
        exact kept
      · split at returned
        · cases returned
        next next moved =>
          have forward := advances state next moved
          rw [ih (by omega) returned]
          exact kept
    · simp only [Except.ok.injEq] at returned
      rw [returned]

/-- A pass given a step for every position is not cut short: more steps change nothing. -/
theorem collect_add_steps (advances : scanner.Advances) (extra : Nat)
    (enough : scanner.length ≤ scanner.position state + steps) :
    scanner.collect last (steps + extra) state marks found =
      scanner.collect last steps state marks found := by
  induction steps generalizing state marks found with
  | zero =>
    cases extra with
    | zero => rfl
    | succ extra =>
      rw [Nat.zero_add, collect, collect]
      exact if_neg (by omega)
  | succ steps ih =>
    rw [Nat.add_right_comm, collect, collect]
    simp only
    split
    · split
      · rfl
      · split
        · rfl
        next next moved =>
          have forward := advances state next moved
          exact ih (by omega)
    · rfl

variable {position : Nat}

private theorem lt_of_mem_rest {other : Nat} (ascending : marks.Pairwise (· ≤ ·))
    (ahead : ∀ other ∈ marks, position ≤ other) (member : other ∈ marks.dropWhile (· == position)) :
    position < other := by
  induction marks with
  | nil => simp at member
  | cons first marks ih =>
    rw [List.pairwise_cons] at ascending
    have later : ∀ other ∈ marks, position ≤ other := fun other inside =>
      ahead other (List.mem_cons_of_mem _ inside)
    rw [List.dropWhile_cons] at member
    split at member
    · exact ih ascending.2 later member
    next differs =>
      have above : position < first := by
        have least := ahead first List.mem_cons_self
        have apart : first ≠ position := by simpa using differs
        omega
      rcases List.mem_cons.mp member with rfl | inside
      · exact above
      · exact Nat.lt_of_lt_of_le above (ascending.1 other inside)

private theorem mem_rest (given : mark ∈ marks) (apart : mark ≠ position) :
    mark ∈ marks.dropWhile (· == position) := by
  rw [← List.takeWhile_append_dropWhile (p := (· == position)) (l := marks),
    List.mem_append] at given
  rcases given with equal | rest
  · have same := List.all_eq_true.mp List.all_takeWhile mark equal
    exact absurd (by simpa using same) apart
  · exact rest

private theorem head_of_ahead (ascending : marks.Pairwise (· ≤ ·))
    (ahead : ∀ other ∈ marks, position ≤ other) (given : position ∈ marks) :
    marks.head? = some position := by
  cases marks with
  | nil => cases given
  | cons first marks =>
    have least := ahead first List.mem_cons_self
    rcases List.mem_cons.mp given with rfl | inside
    · rfl
    · have most := (List.pairwise_cons.mp ascending).1 position inside
      rw [List.head?_cons, Nat.le_antisymm most least]

private theorem dropWhile_subset : marks.dropWhile (· == position) ⊆ marks :=
  (List.dropWhile_sublist _).subset

/-- The pass over many marks beside the pass over one of them, from a state that has
passed neither.  Until the mark both take the same steps; at the mark the second stops. -/
theorem collect_agrees_from (advances : scanner.Advances) (stops : scanner.StopsAt marks)
    (ascending : marks.Pairwise (· ≤ ·)) (given : mark ∈ marks)
    (ahead : ∀ other ∈ marks, scanner.position state ≤ other) (fresh : mark ∉ found)
    (returned : scanner.collect last steps state marks found = .ok result) :
    ∃ single, scanner.collect mark steps state [mark] [] = .ok single ∧
      (mark ∈ result ↔ mark ∈ single) := by
  induction steps generalizing state marks found with
  | zero =>
    simp only [collect, Except.ok.injEq] at returned
    refine ⟨[], rfl, ?_⟩
    rw [← returned]
    simpa using fresh
  | succ steps ih =>
    rw [collect] at returned ⊢
    simp only at returned ⊢
    by_cases inside : scanner.position state < scanner.length
    · rw [if_pos inside] at returned ⊢
      by_cases here : mark = scanner.position state
      · subst here
        -- The single pass ends here, with the verdict of this state.
        have told : marks.head? = some (scanner.position state) := head_of_ahead ascending ahead given
        refine ⟨if scanner.verdict state then [scanner.position state] else [], ?_, ?_⟩
        · simp
        simp only [told, decide_true, Bool.true_and] at returned
        have kept : scanner.position state ∈ (if scanner.verdict state = true
            then found ++ [scanner.position state] else found) ↔
            scanner.position state ∈
              (if scanner.verdict state then [scanner.position state] else []) := by
          by_cases positive : scanner.verdict state = true
          · simp [positive]
          · simpa [positive] using fresh
        rw [← kept]
        split at returned
        · simp only [Except.ok.injEq] at returned
          rw [← returned]
        · split at returned
          · cases returned
          next next moved =>
            exact mem_collect_of_lt advances (advances state next moved) returned
      · -- Neither pass is done: both take the same step.
        have above : scanner.position state < mark :=
          Nat.lt_of_le_of_ne (ahead mark given) (Ne.symm here)
        have waiting := mem_rest given here
        have more : (marks.dropWhile (· == scanner.position state)).isEmpty = false := by
          rw [List.isEmpty_eq_false_iff]
          exact List.ne_nil_of_mem waiting
        rw [more, Bool.false_and, if_neg Bool.false_ne_true] at returned
        have one : [mark].dropWhile (· == scanner.position state) = [mark] := by
          simp [here]
        have not_told : ([mark].head? = some (scanner.position state) &&
            scanner.verdict state) = false := by simp [here]
        rw [one, not_told]
        simp only [List.isEmpty_cons, Bool.false_and, Bool.false_eq_true, if_false]
        split at returned
        · cases returned
        next next moved =>
          refine ih (fun start finish stepped other member =>
            stops start finish stepped other (dropWhile_subset member))
            (ascending.sublist (List.dropWhile_sublist _)) waiting ?_ ?_ returned
          · intro other member
            exact stops state next moved other (dropWhile_subset member)
              (lt_of_mem_rest ascending ahead member)
          · split
            · simpa [here] using fresh
            · exact fresh
    · rw [if_neg inside] at returned ⊢
      simp only [Except.ok.injEq] at returned
      refine ⟨[], rfl, ?_⟩
      rw [← returned]
      simpa using fresh

/-- **One pass over many marks tells each of them what a pass of its own tells it, and
that pass returns whenever the first one does.** -/
theorem collect_agrees (advances : scanner.Advances) (stops : scanner.StopsAt marks)
    (ascending : marks.Pairwise (· ≤ ·)) (given : mark ∈ marks)
    (start : scanner.position state = 0)
    (returned : scanner.collect last steps state marks [] = .ok result) :
    ∃ single, scanner.collect mark steps state [mark] [] = .ok single ∧
      (mark ∈ result ↔ mark ∈ single) :=
  collect_agrees_from advances stops ascending given (by simp [start]) List.not_mem_nil returned

end Scanner

end AxiomEncode.Theory
