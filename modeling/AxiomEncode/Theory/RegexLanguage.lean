/-
# Theory.RegexLanguage -- patterns that read a language

A pattern without groups and look-around reads the texts of a language: from any cursor it ends
behind each of them that comes next, and nowhere else (`Reads`).  The languages of literals, classes,
sequences and repeated classes follow piece by piece, and `fullMatch` decides the language
(`Reads.fullMatch_iff`).
-/
import AxiomEncode.Theory.RegexSpec
import Mathlib.Computability.Language

namespace AxiomEncode.Theory.Regex

set_option autoImplicit false

variable {r s : Regex} {rs : List Regex} {L M : Language Char} {p : Char → Bool} {text : List Char}
  {n : Nat}

/-- Where the pattern can end is behind a text of the language. -/
def Reads (r : Regex) (L : Language Char) : Prop :=
  ∀ c d, d ∈ r.run c ↔ ∃ xs rest, c.after = xs ++ rest ∧ xs ∈ L ∧ d = c.past xs rest

/-- The texts of `n` characters of a class. -/
def ofClass (p : Char → Bool) (n : Nat) : Language Char :=
  {xs | xs.length = n ∧ ∀ x ∈ xs, p x = true}

/-- The texts of at least `n` characters of a class. -/
def ofClassFrom (p : Char → Bool) (n : Nat) : Language Char :=
  {xs | n ≤ xs.length ∧ ∀ x ∈ xs, p x = true}

theorem mem_ofClass {xs : List Char} :
    xs ∈ ofClass p n ↔ xs.length = n ∧ ∀ x ∈ xs, p x = true := Iff.rfl

/-! ## Pieces -/

theorem reads_eps : Reads .eps 1 := by
  intro c d
  simp only [run, List.mem_singleton, Language.mem_one]
  constructor
  · rintro rfl
    exact ⟨[], d.after, rfl, rfl, (Cursor.past_nil d).symm⟩
  · rintro ⟨xs, rest, after, rfl, rfl⟩
    rw [List.nil_append] at after
    rw [← after, Cursor.past_nil]

theorem reads_literal (xs : List Char) : Reads (literal xs) {xs} := by
  intro c d
  rw [mem_run_literal]
  constructor
  · rintro ⟨rest, after, rfl⟩
    exact ⟨xs, rest, after, Set.mem_singleton xs, rfl⟩
  · rintro ⟨_, rest, after, rfl, rfl⟩
    exact ⟨rest, after, rfl⟩

theorem reads_set : Reads (.set p) (ofClass p 1) := by
  intro c d
  rw [mem_run_set]
  constructor
  · rintro ⟨x, rest, after, good, rfl⟩
    exact ⟨[x], rest, after, ⟨rfl, List.forall_mem_singleton.mpr good⟩, rfl⟩
  · rintro ⟨xs, rest, after, ⟨one, good⟩, rfl⟩
    obtain ⟨x, rfl⟩ := List.length_eq_one_iff.mp one
    exact ⟨x, rest, after, good x List.mem_cons_self, rfl⟩

theorem reads_star_set : Reads (.star (.set p)) (ofClassFrom p 0) := by
  intro c d
  rw [mem_run_star_set]
  constructor
  · rintro ⟨xs, rest, after, all, rfl⟩
    exact ⟨xs, rest, after, ⟨Nat.zero_le _, List.all_eq_true.mp all⟩, rfl⟩
  · rintro ⟨xs, rest, after, ⟨-, all⟩, rfl⟩
    exact ⟨xs, rest, after, List.all_eq_true.mpr all, rfl⟩

theorem Reads.seq (first : Reads r L) (second : Reads s M) : Reads (.seq r s) (L * M) := by
  intro c d
  rw [mem_run_seq]
  constructor
  · rintro ⟨e, isFirst, isSecond⟩
    obtain ⟨xs, middle, after, member, rfl⟩ := (first c e).mp isFirst
    obtain ⟨ys, rest, tail, member', rfl⟩ := (second _ d).mp isSecond
    rw [Cursor.past_after] at tail
    subst tail
    refine ⟨xs ++ ys, rest, ?_, Language.mem_mul.mpr ⟨xs, member, ys, member', rfl⟩, Cursor.past_past ..⟩
    rw [after, List.append_assoc]
  · rintro ⟨zs, rest, after, member, rfl⟩
    obtain ⟨xs, inFirst, ys, inSecond, rfl⟩ := Language.mem_mul.mp member
    rw [List.append_assoc] at after
    refine ⟨c.past xs (ys ++ rest), (first c _).mpr ⟨xs, ys ++ rest, after, inFirst, rfl⟩, ?_⟩
    exact (second _ _).mpr ⟨ys, rest, rfl, inSecond, (Cursor.past_past ..).symm⟩

/-! ## Repeated classes -/

theorem ofClass_succ : ofClass p 1 * ofClass p n = ofClass p (n + 1) := by
  ext zs
  rw [Language.mem_mul]
  constructor
  · rintro ⟨xs, ⟨one, first⟩, ys, ⟨length, rest⟩, rfl⟩
    refine ⟨?_, List.forall_mem_append.mpr ⟨first, rest⟩⟩
    rw [List.length_append, one, length, Nat.add_comm]
  · rintro ⟨length, all⟩
    obtain ⟨x, xs, rfl⟩ := List.exists_cons_of_length_eq_add_one length
    obtain ⟨first, rest⟩ := List.forall_mem_cons.mp all
    exact ⟨[x], ⟨rfl, List.forall_mem_singleton.mpr first⟩, xs, ⟨Nat.succ.inj length, rest⟩, rfl⟩

theorem reads_times_set : Reads (times (.set p) n) (ofClass p n) := by
  induction n with
  | zero =>
    have empty : ofClass p 0 = 1 := by
      ext xs
      rw [Language.mem_one, mem_ofClass, List.length_eq_zero_iff]
      refine ⟨And.left, ?_⟩
      rintro rfl
      exact ⟨rfl, fun x member => absurd member List.not_mem_nil⟩
    rw [empty]
    exact reads_eps
  | succ n ih =>
    rw [← ofClass_succ]
    exact reads_set.seq ih

theorem ofClass_mul_ofClassFrom : ofClass p n * ofClassFrom p 0 = ofClassFrom p n := by
  ext zs
  rw [Language.mem_mul]
  constructor
  · rintro ⟨xs, ⟨length, first⟩, ys, ⟨-, rest⟩, rfl⟩
    refine ⟨?_, List.forall_mem_append.mpr ⟨first, rest⟩⟩
    rw [List.length_append, length]
    exact Nat.le_add_right _ _
  · rintro ⟨length, all⟩
    have front : ∀ x ∈ zs.take n, p x = true := fun x member => all x (List.mem_of_mem_take member)
    have back : ∀ x ∈ zs.drop n, p x = true := fun x member => all x (List.mem_of_mem_drop member)
    refine ⟨zs.take n, ⟨List.length_take_of_le length, front⟩, zs.drop n, ⟨Nat.zero_le _, back⟩, ?_⟩
    exact List.take_append_drop n zs

theorem reads_atLeast_set : Reads (atLeast (.set p) n) (ofClassFrom p n) := by
  rw [← ofClass_mul_ofClassFrom]
  exact reads_times_set.seq reads_star_set

/-! ## The whole text -/

/-- **A pattern that reads a language matches the texts of the language whole.** -/
theorem Reads.fullMatch_iff (reads : Reads r L) : r.fullMatch text = true ↔ text ∈ L := by
  rw [fullMatch, List.any_eq_true]
  constructor
  · rintro ⟨d, ends, empty⟩
    obtain ⟨xs, rest, after, member, rfl⟩ := (reads _ d).mp ends
    obtain rfl : rest = [] := List.isEmpty_iff.mp empty
    obtain rfl : text = xs := after.trans (List.append_nil xs)
    exact member
  · intro member
    refine ⟨(Cursor.start text).past text [], (reads _ _).mpr ⟨text, [], ?_, member, rfl⟩, rfl⟩
    exact (List.append_nil text).symm

theorem mem_run_anyOf {c d : Cursor} : d ∈ (anyOf rs).run c ↔ ∃ r ∈ rs, d ∈ r.run c := by
  induction rs with
  | nil => simp [anyOf, mem_run_set]
  | cons r rs ih =>
    cases rs with
    | nil => simp [anyOf]
    | cons s rs =>
      have split : anyOf (r :: s :: rs) = .alt r (anyOf (s :: rs)) := rfl
      rw [split, mem_run_alt, ih]
      exact (List.exists_mem_cons_iff (fun r => d ∈ r.run c) r (s :: rs)).symm

theorem fullMatch_anyOf : (anyOf rs).fullMatch text = true ↔ ∃ r ∈ rs, r.fullMatch text = true := by
  simp only [fullMatch, List.any_eq_true, mem_run_anyOf]
  constructor
  · rintro ⟨d, ⟨r, listed, ends⟩, empty⟩
    exact ⟨r, listed, d, ends, empty⟩
  · rintro ⟨r, listed, d, ends, empty⟩
    exact ⟨d, ⟨r, listed, ends⟩, empty⟩

theorem fullMatch_anyOf_concat :
    (anyOf (rs ++ [r])).fullMatch text = true ↔
      (∃ r ∈ rs, r.fullMatch text = true) ∨ r.fullMatch text = true := by
  simp only [fullMatch_anyOf, List.mem_append, List.mem_singleton, or_and_right, exists_or, exists_eq_left]

end AxiomEncode.Theory.Regex
