/-
# Theory.RegexSpec -- what a pattern reads

`Regex.run` lists cursors in the order of the engine.  The rules below say which
cursors are in the list, piece by piece: a literal reads exactly itself, a
repeated class reads a run of its characters, a sequence passes through a cursor
in between.  `search_isSome` puts a pattern anywhere in a text: some cut of the
text has the pattern reading from it.
-/
import AxiomEncode.Theory.Regex

namespace AxiomEncode.Theory

set_option autoImplicit false

namespace Cursor

/-- The cursor behind `passed`, before `rest`. -/
def past (c : Cursor) (passed rest : List Char) : Cursor :=
  { c with before := passed.reverse ++ c.before, after := rest }

theorem past_past (c : Cursor) (first second middle rest : List Char) :
    (c.past first middle).past second rest = c.past (first ++ second) rest := by
  simp [past]

theorem past_nil (c : Cursor) : c.past [] c.after = c := rfl

theorem past_cons (c : Cursor) (x : Char) (xs middle rest : List Char) :
    (c.past [x] middle).past xs rest = c.past (x :: xs) rest := past_past c [x] xs middle rest

theorem past_of_after_nil {c : Cursor} (empty : c.after = []) : c.past [] [] = c := by
  have here := past_nil c
  rwa [empty] at here

theorem past_after (c : Cursor) (passed rest : List Char) : (c.past passed rest).after = rest := rfl

end Cursor

namespace Regex

variable {r s : Regex} {c d : Cursor} {p : Char → Bool}

theorem run_ne_nil : r.run c ≠ [] ↔ ∃ d, d ∈ r.run c :=
  ⟨List.exists_mem_of_ne_nil _, fun ⟨_, here⟩ => List.ne_nil_of_mem here⟩

theorem mem_run_seq : d ∈ (Regex.seq r s).run c ↔ ∃ e ∈ r.run c, d ∈ s.run e :=
  List.mem_flatMap

theorem mem_run_alt : d ∈ (Regex.alt r s).run c ↔ d ∈ r.run c ∨ d ∈ s.run c :=
  List.mem_append

theorem mem_run_set :
    d ∈ (Regex.set p).run c ↔ ∃ x rest, c.after = x :: rest ∧ p x = true ∧ d = c.past [x] rest := by
  unfold run Cursor.step
  cases after : c.after with
  | nil => simp
  | cons x rest =>
    by_cases good : p x
    · simp [good, Cursor.past]
    · simp [good]

theorem mem_run_char {x : Char} :
    d ∈ (char x).run c ↔ ∃ rest, c.after = x :: rest ∧ d = c.past [x] rest := by
  simp only [char, mem_run_set, beq_iff_eq]
  constructor
  · rintro ⟨y, rest, after, rfl, rfl⟩
    exact ⟨rest, after, rfl⟩
  · rintro ⟨rest, after, rfl⟩
    exact ⟨x, rest, after, rfl, rfl⟩

theorem mem_run_literal {xs : List Char} :
    d ∈ (literal xs).run c ↔ ∃ rest, c.after = xs ++ rest ∧ d = c.past xs rest := by
  induction xs generalizing c with
  | nil =>
    simp only [literal, run, List.mem_singleton, List.nil_append]
    exact ⟨fun here => ⟨c.after, rfl, here⟩,
      fun ⟨rest, after, here⟩ => by rw [here, ← after, Cursor.past_nil]⟩
  | cons x xs ih =>
    simp only [literal, mem_run_seq, mem_run_char]
    constructor
    · rintro ⟨e, ⟨middle, after, rfl⟩, inside⟩
      obtain ⟨rest, tail, rfl⟩ := ih.mp inside
      rw [Cursor.past_after] at tail
      subst tail
      exact ⟨rest, after, Cursor.past_cons ..⟩
    · rintro ⟨rest, after, rfl⟩
      exact ⟨_, ⟨xs ++ rest, after, rfl⟩, ih.mpr ⟨rest, rfl, (Cursor.past_cons ..).symm⟩⟩

/-- Rounds of one class, with fuel for as many characters as there are left. -/
theorem mem_rounds_set (fuel : Nat) (enough : c.after.length ≤ fuel) :
    d ∈ rounds (Regex.set p).run fuel c ↔
      ∃ xs rest, c.after = xs ++ rest ∧ xs.all p = true ∧ d = c.past xs rest := by
  induction fuel generalizing c with
  | zero =>
    have empty : c.after = [] := List.length_eq_zero_iff.mp (Nat.le_zero.mp enough)
    simp only [rounds, List.mem_singleton]
    constructor
    · intro here
      exact ⟨[], [], empty, rfl, by rw [here, Cursor.past_of_after_nil empty]⟩
    · rintro ⟨xs, rest, after, -, rfl⟩
      obtain ⟨rfl, rfl⟩ := List.append_eq_nil_iff.mp (after.symm.trans empty)
      exact Cursor.past_of_after_nil empty
  | succ fuel ih =>
    simp only [rounds, List.mem_append, List.mem_flatMap, List.mem_filter, mem_run_set,
      List.mem_singleton]
    constructor
    · rintro (⟨e, ⟨⟨x, middle, after, good, rfl⟩, -⟩, inside⟩ | here)
      · have shorter : (c.past [x] middle).after.length ≤ fuel := by
          rw [after, List.length_cons] at enough
          exact Nat.le_of_succ_le_succ enough
        obtain ⟨xs, rest, tail, all, rfl⟩ := (ih shorter).mp inside
        rw [Cursor.past_after] at tail
        subst tail
        exact ⟨x :: xs, rest, after, by simp [good, all], Cursor.past_cons ..⟩
      · exact ⟨[], c.after, rfl, rfl, here⟩
    · rintro ⟨xs, rest, after, all, rfl⟩
      cases xs with
      | nil =>
        right
        rw [List.nil_append] at after
        rw [← after, Cursor.past_nil]
      | cons x xs =>
        left
        simp only [List.all_cons, Bool.and_eq_true] at all
        have shorter : (c.past [x] (xs ++ rest)).after.length ≤ fuel := by
          rw [after, List.cons_append, List.length_cons] at enough
          exact Nat.le_of_succ_le_succ enough
        refine ⟨_, ⟨⟨x, xs ++ rest, after, all.1, rfl⟩, ?_⟩, ?_⟩
        · simp [after, Cursor.past]
        · exact (ih shorter).mpr ⟨xs, rest, rfl, all.2, (Cursor.past_cons ..).symm⟩

theorem mem_run_star_set :
    d ∈ (Regex.star (.set p)).run c ↔
      ∃ xs rest, c.after = xs ++ rest ∧ xs.all p = true ∧ d = c.past xs rest :=
  mem_rounds_set c.after.length (Nat.le_refl _)

/-- **One or more characters of a class** -/
theorem mem_run_plus_set :
    d ∈ (plus (.set p)).run c ↔
      ∃ xs rest, c.after = xs ++ rest ∧ xs ≠ [] ∧ xs.all p = true ∧ d = c.past xs rest := by
  simp only [plus, mem_run_seq, mem_run_set, mem_run_star_set]
  constructor
  · rintro ⟨e, ⟨x, middle, after, good, rfl⟩, xs, rest, tail, all, rfl⟩
    rw [Cursor.past_after] at tail
    subst tail
    exact ⟨x :: xs, rest, after, List.cons_ne_nil _ _, by simp [good, all], Cursor.past_cons ..⟩
  · rintro ⟨xs, rest, after, some_, all, rfl⟩
    cases xs with
    | nil => exact absurd rfl some_
    | cons x xs =>
      simp only [List.all_cons, Bool.and_eq_true] at all
      exact ⟨_, ⟨x, xs ++ rest, after, all.1, rfl⟩, xs, rest, rfl, all.2, (Cursor.past_cons ..).symm⟩

theorem mem_run_plus_char {x : Char} :
    d ∈ (plus (char x)).run c ↔
      ∃ xs rest, c.after = xs ++ rest ∧ xs ≠ [] ∧ xs.all (· == x) = true ∧ d = c.past xs rest :=
  mem_run_plus_set

theorem mem_run_atStart : d ∈ atStart.run c ↔ c.before = [] ∧ d = c := by
  unfold atStart run
  cases c.before <;> simp

theorem mem_run_atEnd : d ∈ atEnd.run c ↔ c.after = [] ∧ d = c := by
  unfold atEnd run
  cases c.after <;> simp

theorem mem_run_ahead : d ∈ (Regex.ahead r).run c ↔ r.run c ≠ [] ∧ d = c := by
  rw [run]
  cases r.run c <;> simp

/-! ## Searching -/

theorem matchAt_isSome : (r.matchAt c).isSome = true ↔ r.run { c with groups := [] } ≠ [] := by
  unfold matchAt
  cases r.run { c with groups := [] } <;> simp

theorem findFrom_isSome (fuel : Nat) (enough : c.after.length ≤ fuel) :
    (r.findFrom fuel c).isSome = true ↔
      ∃ passed rest, c.after = passed ++ rest ∧ ((r.matchAt (c.past passed rest)).isSome = true) := by
  induction fuel generalizing c with
  | zero =>
    have empty : c.after = [] := List.length_eq_zero_iff.mp (Nat.le_zero.mp enough)
    simp only [findFrom, Option.isSome_map]
    constructor
    · intro found
      exact ⟨[], [], empty, by rwa [Cursor.past_of_after_nil empty]⟩
    · rintro ⟨passed, rest, after, found⟩
      obtain ⟨rfl, rfl⟩ := List.append_eq_nil_iff.mp (after.symm.trans empty)
      rwa [Cursor.past_of_after_nil empty] at found
  | succ fuel ih =>
    unfold findFrom
    cases here : r.matchAt c with
    | some e =>
      simp only [Option.isSome_some, true_iff]
      exact ⟨[], c.after, rfl, by rw [Cursor.past_nil, here, Option.isSome_some]⟩
    | none =>
      cases after : c.after with
      | nil =>
        simp only [Cursor.step, after, Option.isSome_none, Bool.false_eq_true, false_iff]
        rintro ⟨passed, rest, split, found⟩
        obtain ⟨rfl, rfl⟩ := List.append_eq_nil_iff.mp split.symm
        rw [Cursor.past_of_after_nil after, here] at found
        exact nomatch found
      | cons x tail =>
        have shorter : (c.past [x] tail).after.length ≤ fuel := by
          rw [after, List.length_cons] at enough
          exact Nat.le_of_succ_le_succ enough
        have next : (r.findFrom fuel (c.past [x] tail)).isSome = true ↔ _ := ih shorter
        simp only [Cursor.step, after]
        refine next.trans ⟨?_, ?_⟩
        · rintro ⟨passed, rest, split, found⟩
          rw [Cursor.past_after] at split
          subst split
          rw [Cursor.past_cons] at found
          exact ⟨x :: passed, rest, rfl, found⟩
        · rintro ⟨passed, rest, split, found⟩
          cases passed with
          | nil =>
            rw [List.nil_append] at split
            rw [← split, ← after, Cursor.past_nil, here] at found
            exact nomatch found
          | cons y passed =>
            obtain ⟨rfl, rfl⟩ := List.cons.inj split
            exact ⟨passed, rest, rfl, by rw [Cursor.past_cons]; exact found⟩

/-- **A pattern is found in a text iff it reads from some cut of it** -/
theorem search_isSome {text : List Char} :
    (r.search text).isSome = true ↔
      ∃ passed rest, text = passed ++ rest ∧
        r.run { before := passed.reverse, after := rest } ≠ [] := by
  have found := findFrom_isSome (r := r) (c := .start text) text.length (Nat.le_refl _)
  simp only [matchAt_isSome] at found
  simpa only [search, Cursor.start, Cursor.past, List.append_nil] using found

end Regex

end AxiomEncode.Theory
