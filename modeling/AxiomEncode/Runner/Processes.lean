/-
# Runner.Processes -- what the queue runner takes for a running evaluation

`findActiveEvalProcesses` reads the process table and keeps the lines whose
command matches one of two patterns.  Both are raw strings with a doubled
backslash, so where white space was meant they ask for a backslash and the letter
`s`, and where a path was meant for a backslash and a run of the letter `S`.

`IsEvalLine` is the line of a running evaluation, `IsReadable` what the two
patterns can read of it; `mem_findActiveEvalProcesses` puts them together.
-/
import AxiomEncode.Theory.PyText
import AxiomEncode.Theory.RegexSpec

namespace AxiomEncode.Runner

open Theory

set_option autoImplicit false

abbrev Text := List Char

/-! ## The function of the source -/

/-- `$`: the end, or the line break the text ends in. -/
def dollar : Regex := .alt .atEnd (.ahead (.seq (.char '\n') .atEnd))

/-- `\\s` of a raw pattern: a backslash and an `s`. -/
def slashS : Regex := .literal ['\\', 's']

def uvPhrase : Text := "uv run axiom-encode eval-suite".toList

def pathPhrase : Text := "/axiom-encode eval-suite".toList

/-- `(^|\\s)`, the program and its command word, `(\\s|$)` -/
def framed (phrase : Regex) : Regex :=
  .seq (.alt .atStart slashS) (.seq phrase (.alt slashS dollar))

/-- `(^|\\s)uv run axiom-encode eval-suite(\\s|$)` -/
def uvPattern : Regex := framed (.literal uvPhrase)

/-- `(^|\\s)\\S+/axiom-encode eval-suite(\\s|$)` -/
def pathPattern : Regex :=
  framed (.seq (.char '\\') (.seq (.plus (.char 'S')) (.literal pathPhrase)))

/-- The file name by which the runner leaves itself out. -/
def ownScript : Text := "run_queue_until_idle.py".toList

/-- `line.split(maxsplit=1)[1] if " " in line else ""` of a stripped line. -/
def commandOf (line : Text) : Text :=
  if ' ' ∈ line then (line.dropWhile fun c => !isSpace c).dropWhile isSpace else []

/-- The stripped lines of the process table. -/
def processLines (stdout : Text) : List Text :=
  ((splitlines stdout).map strip).filter (· ≠ [])

def isActive (line : Text) : Bool :=
  !decide (ownScript <:+: line) &&
    ((uvPattern.search (commandOf line)).isSome || (pathPattern.search (commandOf line)).isSome)

def findActiveEvalProcesses (stdout : Text) : List Text := (processLines stdout).filter isActive

/-! ## What is a running evaluation -/

/-- `uv run axiom-encode eval-suite` or `<path>/axiom-encode eval-suite`, and any
arguments behind a blank. -/
structure IsEvalCommand (command : Text) : Prop where
  opens : ∀ c ∈ command.head?, isSpace c = false
  phrase : ∃ arguments, (arguments = [] ∨ arguments.head? = some ' ') ∧
    (command = uvPhrase ++ arguments ∨
      ∃ path, path ≠ [] ∧ command = path ++ pathPhrase ++ arguments)

/-- `<pid> <command>` -/
def IsEvalLine (line : Text) : Prop :=
  ∃ pid command, pid ≠ [] ∧ pid.all Char.isDigit = true ∧ line = pid ++ ' ' :: command ∧
    IsEvalCommand command

/-! ## What the patterns read -/

/-- Before the phrase: nothing, or text that ends in a backslash and an `s`. -/
def Opens (passed : Text) : Prop := passed = [] ∨ ['\\', 's'] <:+ passed

/-- Behind the phrase: nothing, one line break, or a backslash and an `s`. -/
def Closes (rest : Text) : Prop := rest = [] ∨ rest = ['\n'] ∨ ['\\', 's'] <+: rest

/-- The phrase in the spelling of the patterns: without a path, or behind a
backslash and a run of the letter `S`. -/
def Spelled (phrase : Text) : Prop :=
  phrase = uvPhrase ∨
    ∃ run : Text, run ≠ [] ∧ run.all (· == 'S') = true ∧ phrase = '\\' :: (run ++ pathPhrase)

/-- A line the patterns can read: it does not name the runner's own script, and its
command has the phrase, so spelled, between an opening and a close. -/
structure IsReadable (line : Text) : Prop where
  foreign : ¬ ownScript <:+: line
  spelled : ∃ passed phrase rest, commandOf line = passed ++ phrase ++ rest ∧
    Opens passed ∧ Spelled phrase ∧ Closes rest

section Patterns

variable {c d : Cursor} {command line stdout : Text}

theorem mem_run_slashS : d ∈ slashS.run c ↔ ∃ rest, c.after = ['\\', 's'] ++ rest ∧
    d = c.past ['\\', 's'] rest := Regex.mem_run_literal

theorem mem_run_dollar : d ∈ dollar.run c ↔ (c.after = [] ∨ c.after = ['\n']) ∧ d = c := by
  unfold dollar
  rw [Regex.mem_run_alt, Regex.mem_run_atEnd, Regex.mem_run_ahead, Regex.run_ne_nil, or_and_right]
  refine or_congr_right (and_congr_left fun _ => ?_)
  simp only [Regex.mem_run_seq, Regex.mem_run_char, Regex.mem_run_atEnd]
  constructor
  · rintro ⟨e, f, ⟨rest, after, rfl⟩, empty, rfl⟩
    rw [Cursor.past_after] at empty
    rw [after, empty]
  · intro after
    exact ⟨_, _, ⟨[], after, rfl⟩, rfl, rfl⟩

theorem run_closing : (Regex.alt slashS dollar).run c ≠ [] ↔ Closes c.after := by
  simp only [Regex.run_ne_nil, Regex.mem_run_alt, mem_run_slashS, mem_run_dollar]
  unfold Closes
  constructor
  · rintro ⟨d, ⟨rest, after, -⟩ | ⟨empty | newline, -⟩⟩
    · exact Or.inr (Or.inr ⟨rest, after.symm⟩)
    · exact Or.inl empty
    · exact Or.inr (Or.inl newline)
  · rintro (empty | newline | ⟨rest, after⟩)
    · exact ⟨c, Or.inr ⟨Or.inl empty, rfl⟩⟩
    · exact ⟨c, Or.inr ⟨Or.inr newline, rfl⟩⟩
    · exact ⟨_, Or.inl ⟨rest, after.symm, rfl⟩⟩

/-- What a framed pattern is found in, from what its middle reads. -/
theorem search_framed {middle : Regex} {reads : Text → Prop}
    (spec : ∀ c d : Cursor, d ∈ middle.run c ↔
      ∃ phrase rest, c.after = phrase ++ rest ∧ reads phrase ∧ d = c.past phrase rest) :
    ((framed middle).search command).isSome = true ↔
      ∃ passed phrase rest, command = passed ++ phrase ++ rest ∧
        Opens passed ∧ reads phrase ∧ Closes rest := by
  rw [Regex.search_isSome]
  unfold framed
  simp only [Regex.run_ne_nil, Regex.mem_run_seq, Regex.mem_run_alt (r := .atStart),
    Regex.mem_run_atStart, mem_run_slashS, spec]
  constructor
  · rintro ⟨passed, after, rfl, d, e, opened, f, ⟨phrase, rest, middle, read, rfl⟩, closed⟩
    have closes : Closes rest := run_closing.mp (List.ne_nil_of_mem closed)
    rcases opened with ⟨start, rfl⟩ | ⟨behind, split, rfl⟩
    · obtain rfl : passed = [] := List.reverse_eq_nil_iff.mp start
      have split : after = phrase ++ rest := middle
      exact ⟨[], phrase, rest, by simp [split], Or.inl rfl, read, closes⟩
    · have split : after = ['\\', 's'] ++ behind := split
      have middle : behind = phrase ++ rest := middle
      refine ⟨passed ++ ['\\', 's'], phrase, rest, by simp [split, middle], Or.inr ?_, read, closes⟩
      exact List.suffix_append passed _
  · rintro ⟨passed, phrase, rest, rfl, opens, read, closes⟩
    obtain ⟨d, closed⟩ := Regex.run_ne_nil.mp (run_closing.mpr closes : 
      (Regex.alt slashS dollar).run { before := phrase.reverse ++ passed.reverse, after := rest } ≠ [])
    rcases opens with rfl | ⟨earlier, rfl⟩
    · exact ⟨[], phrase ++ rest, rfl, d, _, Or.inl ⟨rfl, rfl⟩, _, ⟨phrase, rest, rfl, read, rfl⟩, closed⟩
    · refine ⟨earlier, ['\\', 's'] ++ (phrase ++ rest), by simp, d, _,
        Or.inr ⟨phrase ++ rest, rfl, rfl⟩, _, ⟨phrase, rest, rfl, read, rfl⟩, ?_⟩
      simpa [Cursor.past] using closed

theorem search_uvPattern :
    (uvPattern.search command).isSome = true ↔
      ∃ passed phrase rest, command = passed ++ phrase ++ rest ∧
        Opens passed ∧ phrase = uvPhrase ∧ Closes rest := by
  refine search_framed fun c d => ?_
  rw [Regex.mem_run_literal]
  constructor
  · rintro ⟨rest, after, rfl⟩
    exact ⟨uvPhrase, rest, after, rfl, rfl⟩
  · rintro ⟨phrase, rest, after, rfl, rfl⟩
    exact ⟨rest, after, rfl⟩

theorem search_pathPattern :
    (pathPattern.search command).isSome = true ↔
      ∃ passed phrase rest, command = passed ++ phrase ++ rest ∧ Opens passed ∧
        (∃ run : Text, run ≠ [] ∧ run.all (· == 'S') = true ∧ phrase = '\\' :: (run ++ pathPhrase)) ∧
        Closes rest := by
  refine search_framed fun c d => ?_
  simp only [Regex.mem_run_seq, Regex.mem_run_char, Regex.mem_run_plus_char,
    Regex.mem_run_literal]
  constructor
  · rintro ⟨e, ⟨tail, after, rfl⟩, f, ⟨run, tail', after', some_, all, rfl⟩, rest, after'', rfl⟩
    simp only [Cursor.past_after] at after' after''
    subst after' after''
    refine ⟨'\\' :: (run ++ pathPhrase), rest, by simp [after], ⟨run, some_, all, rfl⟩, ?_⟩
    simp [Cursor.past]
  · rintro ⟨phrase, rest, after, ⟨run, some_, all, rfl⟩, rfl⟩
    refine ⟨_, ⟨run ++ (pathPhrase ++ rest), by simp [after], rfl⟩, _,
      ⟨run, pathPhrase ++ rest, rfl, some_, all, rfl⟩, rest, rfl, ?_⟩
    simp [Cursor.past]

/-- A line is kept iff the patterns can read it. -/
theorem isActive_iff : isActive line = true ↔ IsReadable line := by
  unfold isActive
  rw [Bool.and_eq_true, Bool.or_eq_true, search_uvPattern, search_pathPattern,
    Bool.not_eq_true', decide_eq_false_iff_not]
  constructor
  · rintro ⟨foreign, ⟨passed, phrase, rest, split, opens, uv, closes⟩ |
      ⟨passed, phrase, rest, split, opens, path, closes⟩⟩
    · exact ⟨foreign, passed, phrase, rest, split, opens, Or.inl uv, closes⟩
    · exact ⟨foreign, passed, phrase, rest, split, opens, Or.inr path, closes⟩
  · rintro ⟨foreign, passed, phrase, rest, split, opens, uv | path, closes⟩
    · exact ⟨foreign, Or.inl ⟨passed, phrase, rest, split, opens, uv, closes⟩⟩
    · exact ⟨foreign, Or.inr ⟨passed, phrase, rest, split, opens, path, closes⟩⟩

theorem mem_findActiveEvalProcesses :
    line ∈ findActiveEvalProcesses stdout ↔ line ∈ processLines stdout ∧ IsReadable line := by
  rw [findActiveEvalProcesses, List.mem_filter, isActive_iff]

end Patterns

end AxiomEncode.Runner
