/-
# Theory.Occurrences -- a literal searched from left to right

`OccursAt` is an occurrence of a text at an offset, `Reached` an occurrence that a search
from left to right stops at: no reached one before it runs into it.  `mem_finditer_literal`
says that the matches of the engine for a literal are the reached occurrences, so an
occurrence that overlaps a reached one on its left is never looked at.
-/
import AxiomEncode.Theory.RegexSpec

namespace AxiomEncode.Theory

set_option autoImplicit false

/-- `needle` stands at an offset of `hay`. -/
def OccursAt (needle hay : List Char) (offset : Nat) : Prop := needle <+: hay.drop offset

instance (needle hay : List Char) (offset : Nat) : Decidable (OccursAt needle hay offset) :=
  inferInstanceAs (Decidable (needle <+: hay.drop offset))

/-- An occurrence that no reached one on its left runs into. -/
def Reached (needle hay : List Char) (offset : Nat) : Prop :=
  OccursAt needle hay offset ∧
    ∀ earlier, earlier < offset → Reached needle hay earlier → earlier + needle.length ≤ offset
termination_by offset

section Occurrences

variable {needle hay : List Char} {offset : Nat}

theorem reached_iff : Reached needle hay offset ↔ OccursAt needle hay offset ∧
    ∀ earlier, earlier < offset → Reached needle hay earlier → earlier + needle.length ≤ offset := by
  rw [Reached]

theorem Reached.occursAt (reached : Reached needle hay offset) : OccursAt needle hay offset :=
  (reached_iff.mp reached).1

/-- A reached occurrence before an offset runs into it. -/
def Covered (needle hay : List Char) (offset : Nat) : Prop :=
  ∃ earlier, earlier < offset ∧ Reached needle hay earlier ∧ offset < earlier + needle.length

theorem reached_iff_not_covered :
    Reached needle hay offset ↔ OccursAt needle hay offset ∧ ¬ Covered needle hay offset := by
  rw [reached_iff]
  refine and_congr_right fun _ => ⟨?_, ?_⟩
  · rintro past ⟨earlier, below, reached, overlap⟩
    exact Nat.not_le.mpr overlap (past earlier below reached)
  · intro free earlier below reached
    by_contra overlap
    exact free ⟨earlier, below, reached, Nat.not_le.mp overlap⟩

/-- Where two occurrences overlap, the end of the text is its beginning. -/
theorem not_covered (border : ∀ shift, 0 < shift → shift < needle.length →
      ¬ needle.drop shift <+: needle) (occurs : OccursAt needle hay offset) :
    ¬ Covered needle hay offset := by
  rintro ⟨earlier, below, reached, overlap⟩
  obtain ⟨after, whole⟩ := reached.occursAt
  obtain ⟨later, tail⟩ := occurs
  refine border (offset - earlier) (by omega) (by omega) ?_
  have shifted : needle.drop (offset - earlier) ++ after = needle ++ later := by
    have cut := congrArg (List.drop (offset - earlier)) whole
    rw [List.drop_append_of_le_length (by omega), List.drop_drop,
      show earlier + (offset - earlier) = offset by omega] at cut
    rw [cut, tail]
  exact List.prefix_of_prefix_length_le ⟨after, rfl⟩ ⟨later, shifted.symm⟩
    (by rw [List.length_drop]; omega)

theorem OccursAt.lt_length (occurs : OccursAt needle hay offset) (nonempty : needle ≠ []) :
    offset + needle.length ≤ hay.length := by
  have short := List.IsPrefix.length_le occurs
  have some_char := List.length_pos_iff.mpr nonempty
  rw [List.length_drop] at short
  omega

theorem occursAt_parts (before after : List Char) :
    OccursAt needle (before ++ needle ++ after) before.length := by
  rw [OccursAt, List.append_assoc, List.drop_left]
  exact List.prefix_append needle after

/-- What stands before and behind an occurrence. -/
theorem OccursAt.exists_parts (occurs : OccursAt needle hay offset) (nonempty : needle ≠ []) :
    ∃ before after, hay = before ++ needle ++ after ∧ before.length = offset := by
  have inside := occurs.lt_length nonempty
  obtain ⟨after, rest⟩ := occurs
  refine ⟨hay.take offset, after, ?_, List.length_take_of_le (by omega)⟩
  rw [List.append_assoc, rest, List.take_append_drop]

end Occurrences

namespace Regex

section Literal

variable {needle hay : List Char} {c : Cursor}

theorem run_literal : (literal needle).run c =
    if needle <+: c.after then [c.past needle (c.after.drop needle.length)] else [] := by
  induction needle generalizing c with
  | nil =>
    rw [if_pos List.nil_prefix]
    rfl
  | cons x xs ih =>
    rw [literal, run]
    cases after : c.after with
    | nil =>
      have none_here : (char x).run c = [] := by simp [char, run, Cursor.step, after]
      rw [none_here, if_neg]
      · rfl
      · intro starts
        exact absurd (List.prefix_nil.mp starts) (List.cons_ne_nil x xs)
    | cons y rest =>
      have one : (char x).run c = if y = x then [c.past [y] rest] else [] := by
        simp [char, run, Cursor.step, after, Cursor.past]
      rw [one]
      by_cases same : y = x
      · subst same
        rw [if_pos rfl, List.flatMap_singleton, ih, Cursor.past_after]
        by_cases starts : xs <+: rest
        · rw [if_pos starts, if_pos (List.prefix_cons_inj y |>.mpr starts), Cursor.past_cons]
          rfl
        · rw [if_neg starts, if_neg fun whole => starts ((List.prefix_cons_inj y).mp whole)]
      · rw [if_neg same, List.flatMap_nil, if_neg]
        intro starts
        exact same (List.cons_prefix_cons.mp starts).1.symm

theorem after_eq_drop (inside : c.text = hay) : c.after = hay.drop c.offset := by
  rw [← inside, Cursor.text, Cursor.offset]
  rw [List.drop_append_of_le_length (by simp)]
  simp

theorem occursAt_offset (inside : c.text = hay) :
    OccursAt needle hay c.offset ↔ needle <+: c.after := by
  unfold OccursAt
  rw [← after_eq_drop inside]

theorem matchAt_literal : (literal needle).matchAt c =
    if needle <+: c.after then
      some ({ c with groups := [] }.past needle (c.after.drop needle.length))
    else none := by
  rw [matchAt, run_literal]
  split <;> rfl

variable {passed rest : List Char}

theorem text_past (split : c.after = passed ++ rest) :
    (c.past passed rest).text = c.text := by
  rw [Cursor.past, Cursor.text, Cursor.text, split]
  simp

theorem offset_past : (c.past passed rest).offset = c.offset + passed.length := by
  simp [Cursor.past, Cursor.offset, Nat.add_comm]

theorem not_occursAt_of_after_nil (nonempty : needle ≠ []) (inside : c.text = hay)
    (empty : c.after = []) {later : Nat} (behind : c.offset ≤ later) :
    ¬ OccursAt needle hay later := by
  intro occurs
  have here := occurs.lt_length nonempty
  have whole : hay.length = c.offset := by
    rw [← inside, Cursor.text, empty, List.append_nil, List.length_reverse]
    rfl
  have some_char := List.length_pos_iff.mpr nonempty
  omega

/-- The match at a cursor that the literal stands at. -/
theorem span_of_prefix (inside : c.text = hay) (starts : needle <+: c.after) :
    ({ c with groups := [] }.past needle (c.after.drop needle.length)).text = hay ∧
      ({ c with groups := [] }.past needle (c.after.drop needle.length)).offset =
        c.offset + needle.length := by
  obtain ⟨rest, whole⟩ := starts
  refine ⟨?_, offset_past⟩
  rw [text_past, ← inside]
  · rfl
  · show c.after = _
    rw [← whole, List.drop_left]

/-- The first match of a literal from a cursor on is its next occurrence. -/
theorem findFrom_literal (nonempty : needle ≠ []) (fuel : Nat) (inside : c.text = hay)
    (enough : c.after.length ≤ fuel) :
    (∀ m, (literal needle).findFrom fuel c = some m →
      c.offset ≤ m.start ∧ OccursAt needle hay m.start ∧
        (∀ between, c.offset ≤ between → between < m.start → ¬ OccursAt needle hay between) ∧
        m.stop.text = hay ∧ m.finish = m.start + needle.length) ∧
    ((literal needle).findFrom fuel c = none →
      ∀ later, c.offset ≤ later → ¬ OccursAt needle hay later) := by
  induction fuel generalizing c with
  | zero =>
    have empty : c.after = [] := List.length_eq_zero_iff.mp (Nat.le_zero.mp enough)
    have none_here : (literal needle).matchAt c = none := by
      rw [matchAt_literal, empty, if_neg]
      exact fun starts => nonempty (List.prefix_nil.mp starts)
    rw [findFrom, none_here]
    exact ⟨fun m found => absurd found.symm (Option.some_ne_none m), fun _ later behind =>
      not_occursAt_of_after_nil nonempty inside empty behind⟩
  | succ fuel ih =>
    rw [findFrom, matchAt_literal]
    by_cases starts : needle <+: c.after
    · rw [if_pos starts]
      refine ⟨fun m found => ?_, fun missing => absurd missing (Option.some_ne_none _)⟩
      obtain rfl := Option.some.inj found
      obtain ⟨text, finish⟩ := span_of_prefix inside starts
      exact ⟨Nat.le_refl _, (occursAt_offset inside).mpr starts,
        fun between low high => absurd low (Nat.not_le.mpr high), text, finish⟩
    · rw [if_neg starts]
      cases after : c.after with
      | nil =>
        simp only [Cursor.step, after]
        exact ⟨fun m found => absurd found.symm (Option.some_ne_none m), fun _ later behind =>
          not_occursAt_of_after_nil nonempty inside after behind⟩
      | cons x rest =>
        simp only [Cursor.step, after]
        have moved : (c.past [x] rest).text = hay := (text_past after).trans inside
        have ahead : (c.past [x] rest).offset = c.offset + 1 := offset_past
        obtain ⟨found, missing⟩ := ih moved (by
          rw [after, List.length_cons] at enough
          exact Nat.le_of_succ_le_succ enough)
        have skip : ∀ between, c.offset ≤ between → ¬ c.offset + 1 ≤ between →
            ¬ OccursAt needle hay between := by
          intro between low high
          obtain rfl : between = c.offset := by omega
          rw [occursAt_offset inside]
          exact starts
        rw [ahead] at found missing
        refine ⟨fun m this => ?_, fun this later behind => ?_⟩
        · obtain ⟨behind, occurs, clear, text, finish⟩ := found m this
          refine ⟨by omega, occurs, fun between low high => ?_, text, finish⟩
          by_cases next : c.offset + 1 ≤ between
          · exact clear between next high
          · exact skip between low next
        · by_cases next : c.offset + 1 ≤ later
          · exact missing this later next
          · exact skip later behind next

/-- The matches from a cursor on are the reached occurrences from there, if no reached one
before runs past it. -/
theorem mem_findAllFrom_literal (nonempty : needle ≠ []) (fuel : Nat) (inside : c.text = hay)
    (enough : c.after.length < fuel)
    (free : ∀ earlier, earlier < c.offset → Reached needle hay earlier →
      earlier + needle.length ≤ c.offset) (start finish : Nat) :
    (∃ m ∈ (literal needle).findAllFrom fuel c, m.start = start ∧ m.finish = finish) ↔
      c.offset ≤ start ∧ Reached needle hay start ∧ finish = start + needle.length := by
  induction fuel generalizing c with
  | zero => exact absurd enough (Nat.not_lt_zero _)
  | succ fuel ih =>
    obtain ⟨found, missing⟩ := findFrom_literal nonempty c.after.length inside (Nat.le_refl _)
    rw [findAllFrom]
    cases first : (literal needle).findFrom c.after.length c with
    | none =>
      simp only [List.not_mem_nil, false_and, exists_false, false_iff]
      rintro ⟨behind, reached, -⟩
      exact missing first start behind reached.occursAt
    | some m =>
      obtain ⟨behind, occurs, clear, text, ends⟩ := found m first
      have some_char := List.length_pos_iff.mpr nonempty
      have stop : m.stop.offset = m.start + needle.length := ends
      have stands : Reached needle hay m.start := by
        refine reached_iff.mpr ⟨occurs, fun earlier below reached => ?_⟩
        by_cases old : earlier < c.offset
        · have past := free earlier old reached
          omega
        · exact absurd reached.occursAt (clear earlier (Nat.le_of_not_lt old) below)
      have rest := ih (c := m.stop) text (by
        have whole := congrArg List.length (text.trans inside.symm)
        rw [Cursor.text, Cursor.text, List.length_append, List.length_append,
          List.length_reverse, List.length_reverse] at whole
        unfold Cursor.offset at stop behind
        omega) (by
        intro earlier below reached
        rw [stop] at below ⊢
        by_cases after : m.start < earlier
        · have past := (reached_iff.mp reached).2 m.start after stands
          omega
        · omega)
      have advance : m.start ≠ m.finish := by omega
      simp only [if_neg advance, List.mem_cons, exists_eq_or_imp, rest, stop]
      constructor
      · rintro (⟨rfl, rfl⟩ | ⟨later, reached, rfl⟩)
        · exact ⟨behind, stands, ends⟩
        · exact ⟨by omega, reached, rfl⟩
      · rintro ⟨low, reached, rfl⟩
        rcases Nat.lt_trichotomy start m.start with before | rfl | after
        · exact absurd reached.occursAt (clear start low before)
        · exact Or.inl ⟨rfl, ends⟩
        · exact Or.inr ⟨(reached_iff.mp reached).2 m.start after stands, reached, rfl⟩

/-- **The matches of a literal are its reached occurrences.** -/
theorem mem_finditer_literal (nonempty : needle ≠ []) (start finish : Nat) :
    (∃ m ∈ (literal needle).finditer hay, m.start = start ∧ m.finish = finish) ↔
      Reached needle hay start ∧ finish = start + needle.length := by
  have all := @mem_findAllFrom_literal _ hay (.start hay) nonempty (hay.length + 1) rfl
    (Nat.lt_succ_self _) (fun earlier below => absurd below (Nat.not_lt_zero _)) start finish
  rw [finditer, all]
  exact and_iff_right (Nat.zero_le start)

end Literal

end Regex

end AxiomEncode.Theory
