/-
# RunLog.WriterSpec -- when a run log stays readable

A log stands as long as its file is the lines of the events that arrived, numbered
from zero without a gap, the last line perhaps without its line feed
(`Log.Standing`).  A standing log is intact, and a safe action leaves it standing.

An action that is not safe damages the log at once: a torn line does not load, a line
behind an unfinished one does not load, and a writer that has not counted an event of
the file gives its number away a second time.  So the safe runs are exactly those
after which the log is intact all the way (`staysIntact_iff`).
-/
import AxiomEncode.RunLog.Writer

namespace AxiomEncode.RunLog

open Theory
open Theory.Json (Printable)

set_option autoImplicit false

/-! ## ASCII -/

def IsAscii (text : Text) : Prop := ∀ c ∈ text, c.toNat < 128

variable {text line part : Text}

/-- ASCII is encoded byte by byte. -/
theorem utf8_ascii (ascii : IsAscii text) :
    utf8 text = text.map fun c => UInt8.ofNat c.toNat := by
  induction text with
  | nil => rfl
  | cons c text ih =>
    obtain ⟨small, later⟩ := List.forall_mem_cons.mp ascii
    have size : c.utf8Size = 1 := by
      rw [Char.utf8Size_eq_one_iff]
      have : c.val.toNat < 128 := small
      rw [UInt32.le_iff_toNat_le]
      exact Nat.le_of_lt_succ this
    have one : String.utf8EncodeChar c = [UInt8.ofNat c.toNat] := by
      rw [String.utf8EncodeChar_eq_singleton size]
      rfl
    rw [utf8, List.flatMap_cons, one, List.map_cons, ← ih later]
    rfl

theorem length_utf8 (ascii : IsAscii text) : (utf8 text).length = text.length := by
  rw [utf8_ascii ascii, List.length_map]

theorem take_utf8 (ascii : IsAscii text) (n : Nat) :
    (utf8 text).take n = utf8 (text.take n) := by
  rw [utf8_ascii ascii, utf8_ascii fun c member => ascii c (List.mem_of_mem_take member), List.map_take]

theorem utf8_append (front back : Text) : utf8 (front ++ back) = utf8 front ++ utf8 back :=
  List.flatMap_append

/-! ## Lines -/

/-- Neither LF nor CR. -/
def OneLine (text : Text) : Prop := ∀ c ∈ text, c ≠ '\n' ∧ c ≠ '\r'

theorem textLinesFrom_oneLine {line part rest : Text} (oneLine : OneLine part) :
    textLinesFrom line (part ++ rest) = textLinesFrom (line ++ part) rest := by
  induction part generalizing line with
  | nil => rw [List.nil_append, List.append_nil]
  | cons c part ih =>
    obtain ⟨⟨feed, carriage⟩, later⟩ := List.forall_mem_cons.mp oneLine
    rw [List.cons_append, textLinesFrom, if_neg (by simp [feed, carriage]), ih later,
      List.append_assoc]
    · rfl
    · rintro _ rfl
      exact absurd rfl carriage

theorem textLines_feed {rest : Text} (oneLine : OneLine line) :
    textLines (line ++ '\n' :: rest) = line :: textLines rest := by
  unfold textLines
  rw [textLinesFrom_oneLine oneLine, List.nil_append, textLinesFrom, if_pos (.inl rfl)]
  rintro _ feed
  cases feed

theorem textLines_last (oneLine : OneLine line) (some_ : line ≠ []) :
    textLines line = [line] := by
  have whole := @textLinesFrom_oneLine [] _ [] oneLine
  rw [List.append_nil, List.nil_append] at whole
  rw [textLines, whole, textLinesFrom, if_neg (by simpa using some_)]

theorem oneLine_of_printable (printable : ∀ c ∈ text, Printable c) : OneLine text := by
  intro c member
  have := printable c member
  refine ⟨?_, ?_⟩ <;> (rintro rfl; exact absurd this (by decide))

theorem ascii_of_printable (printable : ∀ c ∈ text, Printable c) : IsAscii text :=
  fun c member => Nat.lt_of_le_of_lt (printable c member).2 (by decide)

/-- Stripping takes only blanks behind the last visible character. -/
theorem strip_visible {front tail : Text} {c : Char} (visible : isSpace c = false)
    (first : ∀ d ∈ (front ++ [c]).head?, isSpace d = false) :
    ∃ kept, kept <+: tail ∧ strip (front ++ c :: tail) = front ++ c :: kept := by
  have start : (front ++ c :: tail).dropWhile isSpace = front ++ c :: tail := by
    cases front with
    | nil => exact List.dropWhile_cons_of_neg (by simp [visible])
    | cons d front => exact List.dropWhile_cons_of_neg (by simpa using first d rfl)
  unfold strip stripChars
  rw [start]
  refine ⟨tail.rdropWhile isSpace, List.rdropWhile_prefix _ _, ?_⟩
  have split : front ++ c :: tail = (front ++ [c]) ++ tail := by simp
  rw [split, List.rdropWhile, List.reverse_append, List.dropWhile_append]
  split_ifs with all
  · have blank : tail.rdropWhile isSpace = [] := by
      simpa [List.rdropWhile] using all
    rw [blank, List.reverse_append, List.reverse_singleton, List.singleton_append,
      List.dropWhile_cons_of_neg (by simp [visible])]
    simp
  · simp [List.rdropWhile]

/-! ## The line of an event -/

section Line

variable {event : RunLogEvent} (writable : event.Writable)
include writable

/-- The line is the text of an object of the grammar. -/
theorem exists_tree : ∃ tree : Grammar.Tree Char, tree.text = event.toJsonLine ∧
    Json.treeValue tree = some event.wire := by
  obtain ⟨tree, shown, denotes⟩ := Json.exists_tree_line event.wire (RunLogEvent.payload writable)
  refine ⟨tree, ?_, denotes⟩
  rw [shown, RunLogEvent.toJsonLine, Json.dumpsLine, sortKeys_toDict writable]

theorem printable_toJsonLine : ∀ c ∈ event.toJsonLine, Printable c := by
  rw [RunLogEvent.toJsonLine, Json.dumpsLine, sortKeys_toDict writable]
  exact Json.printable_line _ (RunLogEvent.payload writable)

theorem exists_braces : ∃ inside, event.toJsonLine = '{' :: (inside ++ ['}']) := by
  rw [RunLogEvent.toJsonLine, Json.dumpsLine, sortKeys_toDict writable]
  exact Json.exists_line_obj _

theorem strip_toJsonLine : strip event.toJsonLine = event.toJsonLine := by
  obtain ⟨inside, braces⟩ := exists_braces writable
  apply stripChars_eq_self
  · rw [braces]
    rintro c ⟨⟩
    decide
  · rw [braces, ← List.cons_append, List.getLast?_concat]
    rintro c ⟨⟩
    decide

theorem toJsonLine_ne_nil : event.toJsonLine ≠ [] := by
  obtain ⟨inside, braces⟩ := exists_braces writable
  rw [braces]
  exact List.cons_ne_nil _ _

theorem oneLine_toJsonLine : OneLine event.toJsonLine :=
  oneLine_of_printable (printable_toJsonLine writable)

theorem isBlankLine_toJsonLine : isBlankLine event.toJsonLine = false := by
  rw [isBlankLine, strip_toJsonLine writable]
  simpa using toJsonLine_ne_nil writable

/-- The start of a line is visible and does not load unless it is the whole line. -/
theorem torn_line {more : Text} (split : event.toJsonLine = part ++ more) (some_ : part ≠ [])
    (proper : more ≠ []) : isBlankLine part = false ∧ Json.loads (strip part) = none := by
  obtain ⟨inside, braces⟩ := exists_braces writable
  obtain ⟨c, tail, rfl⟩ := List.exists_cons_of_ne_nil some_
  have brace : c = '{' := by
    rw [braces] at split
    exact (List.cons.inj split).1.symm
  subst brace
  obtain ⟨kept, ⟨gone, whole⟩, stripped⟩ :=
    @strip_visible [] tail '{' (by decide) (by rintro d ⟨⟩; decide)
  rw [List.nil_append, List.nil_append] at stripped
  refine ⟨by rw [isBlankLine, stripped]; rfl, ?_⟩
  obtain ⟨tree, shown, denotes⟩ := exists_tree writable
  have torn := Json.loads_prefix Grammar.noBlanks tree _ ('{' :: kept) (gone ++ more) denotes
    (by rw [shown, braces]; rfl)
    (by rw [shown, split, ← whole, List.cons_append, List.cons_append, List.append_assoc])
    (by simp [proper]) (List.cons_ne_nil _ _)
  rw [stripped]
  exact torn

/-- Behind a line nothing visible may follow before its end. -/
theorem merged_line {c : Char} (more : Text) (visible : isSpace c = false) :
    isBlankLine (event.toJsonLine ++ c :: more) = false ∧
      Json.loads (strip (event.toJsonLine ++ c :: more)) = none := by
  obtain ⟨inside, braces⟩ := exists_braces writable
  obtain ⟨kept, -, stripped⟩ := @strip_visible event.toJsonLine more _ visible
    (by rw [braces]; rintro d ⟨⟩; decide)
  rw [isBlankLine, stripped]
  refine ⟨by rw [braces]; rfl, ?_⟩
  obtain ⟨tree, shown, denotes⟩ := exists_tree writable
  have notBlank : Grammar.isBlank c = false := by
    cases blank : Grammar.isBlank c with
    | false => rfl
    | true => cases (Json.isSpace_of_isBlank blank).symm.trans visible
  rw [← shown]
  exact Json.loads_more tree _ denotes (by rw [shown, braces]; rfl) notBlank

end Line

/-! ## The text of a log -/

/-- The lines of the events. -/
def logText (events : List RunLogEvent) : Text :=
  events.flatMap fun event => event.toJsonLine ++ ['\n']

theorem logText_append (events others : List RunLogEvent) :
    logText (events ++ others) = logText events ++ logText others := List.flatMap_append

theorem logText_singleton (event : RunLogEvent) : logText [event] = event.toJsonLine ++ ['\n'] := by
  simp [logText]

section Text

variable {pydantic : Pydantic} {events : List RunLogEvent}
  (writable : ∀ event ∈ events, event.Writable)
include writable

theorem textLines_logText (rest : Text) :
    textLines (logText events ++ rest) = events.map RunLogEvent.toJsonLine ++ textLines rest := by
  induction events with
  | nil => rfl
  | cons event events ih =>
    obtain ⟨first, later⟩ := List.forall_mem_cons.mp writable
    have split : logText (event :: events) ++ rest =
        event.toJsonLine ++ '\n' :: (logText events ++ rest) := by
      simp [logText]
    rw [split, textLines_feed (oneLine_toJsonLine first), ih later]
    rfl

theorem readEvents_lines (lines : List Text) :
    readEvents pydantic (events.map RunLogEvent.toJsonLine ++ lines) =
      (readEvents pydantic lines).map (events ++ ·) := by
  induction events with
  | nil => simp
  | cons event events ih =>
    obtain ⟨first, later⟩ := List.forall_mem_cons.mp writable
    rw [List.map_cons, List.cons_append, readEvents, isBlankLine_toJsonLine first,
      if_neg (by decide), strip_toJsonLine first, fromJsonLine_toJsonLine pydantic first, ih later]
    cases readEvents pydantic lines <;> rfl

theorem countP_lines (lines : List Text) :
    (events.map RunLogEvent.toJsonLine ++ lines).countP (fun line => !isBlankLine line) =
      events.length + lines.countP fun line => !isBlankLine line := by
  rw [List.countP_append, List.countP_map, List.countP_eq_length.mpr]
  intro event member
  simp [isBlankLine_toJsonLine (writable event member)]

theorem iterEvents_logText (rest : Text) :
    iterEvents pydantic (utf8 (logText events ++ rest)) =
      (readEvents pydantic (textLines rest)).map (events ++ ·) := by
  unfold iterEvents
  rw [decodeUtf8_utf8]
  simp only [Option.bind_eq_bind, Option.bind_some]
  rw [textLines_logText writable, readEvents_lines writable]

theorem existingEventCount_logText (rest : Text) :
    existingEventCount (utf8 (logText events ++ rest)) =
      some (events.length + (textLines rest).countP fun line => !isBlankLine line) := by
  unfold existingEventCount
  rw [decodeUtf8_utf8, Option.map_some, textLines_logText writable, countP_lines writable]

theorem ascii_logText : IsAscii (logText events) := by
  intro c member
  obtain ⟨event, inEvents, inLine⟩ := List.mem_flatMap.mp member
  rcases List.mem_append.mp inLine with inText | feed
  · exact ascii_of_printable (printable_toJsonLine (writable event inEvents)) c inText
  · cases List.mem_singleton.mp feed
    decide

end Text

theorem readEvents_refused {pydantic : Pydantic} {lines : List Text}
    (visible : isBlankLine line = false) (fails : Json.loads (strip line) = none) :
    readEvents pydantic (line :: lines) = none := by
  rw [readEvents, visible, if_neg (by decide), fromJsonLine, fails]
  rfl

/-! ## A log that stands -/

/-- The file is the lines of the events that arrived, the last one perhaps unfinished, and the
events are numbered from zero. -/
structure Log.Standing (log : Log) : Prop where
  file : log.file = utf8 (logText log.arrived) ∨
    ∃ front last, log.arrived = front ++ [last] ∧
      log.file = utf8 (logText front ++ last.toJsonLine)
  numbers : log.arrived.map RunLogEvent.seq = List.range log.arrived.length
  seq : log.writer.seq ≤ log.arrived.length
  writable : ∀ event ∈ log.arrived, event.Writable
  returned : ∀ attempt ∈ log.attempts, attempt.returned = true → attempt.arrived = true

section Standing

variable {pydantic : Pydantic} {log : Log}

/-- Any text of a standing log: the lines of its events and what is to follow. -/
theorem Log.Standing.split (standing : log.Standing) :
    ∃ front rest, log.file = utf8 (logText front ++ rest) ∧ (∀ event ∈ front, event.Writable) ∧
      ((rest = [] ∧ front = log.arrived) ∨
        ∃ last, rest = last.toJsonLine ∧ last.Writable ∧ log.arrived = front ++ [last]) := by
  rcases standing.file with whole | ⟨front, last, split, unfinished⟩
  · exact ⟨log.arrived, [], by rw [List.append_nil, whole], standing.writable, .inl ⟨rfl, rfl⟩⟩
  · have writable := standing.writable
    rw [split, List.forall_mem_append] at writable
    exact ⟨front, _, unfinished, writable.1,
      .inr ⟨last, rfl, writable.2 last List.mem_cons_self, split⟩⟩

theorem Log.Standing.reads (standing : log.Standing) :
    iterEvents pydantic log.file = some log.arrived := by
  obtain ⟨front, rest, file, writable, ⟨rfl, rfl⟩ | ⟨last, rfl, lastWritable, arrived⟩⟩ :=
    standing.split
  · rw [file, iterEvents_logText writable]
    simp [textLines, textLinesFrom, readEvents]
  · have one := @readEvents_lines pydantic [last]
      (List.forall_mem_singleton.mpr lastWritable) []
    rw [List.append_nil, List.map_singleton] at one
    rw [file, iterEvents_logText writable,
      textLines_last (oneLine_toJsonLine lastWritable) (toJsonLine_ne_nil lastWritable), one, arrived]
    rfl

theorem Log.Standing.counts (standing : log.Standing) :
    existingEventCount log.file = some log.arrived.length := by
  obtain ⟨front, rest, file, writable, ⟨rfl, rfl⟩ | ⟨last, rfl, lastWritable, arrived⟩⟩ :=
    standing.split
  · rw [file, existingEventCount_logText writable]
    simp [textLines, textLinesFrom]
  · have one := @countP_lines [last] (List.forall_mem_singleton.mpr lastWritable) []
    rw [List.append_nil, List.map_singleton] at one
    rw [file, existingEventCount_logText writable,
      textLines_last (oneLine_toJsonLine lastWritable) (toJsonLine_ne_nil lastWritable), one, arrived]
    simp

theorem Log.Standing.intact (standing : log.Standing) : log.Intact pydantic where
  read := standing.reads
  returned := standing.returned
  increasing := by
    rw [standing.numbers]
    exact List.pairwise_lt_range

theorem standing_start (runId : Text) (enabled : Bool) : (Log.start runId enabled).Standing where
  file := .inl rfl
  numbers := rfl
  seq := le_rfl
  writable := nofun
  returned := nofun

theorem Log.Standing.reopen (standing : log.Standing) :
    ∃ next, log.reopen = some next ∧ next.Standing := by
  refine ⟨_, by rw [Log.reopen, Writer.onFile, standing.counts]; rfl, ?_⟩
  exact ⟨standing.file, standing.numbers, le_rfl, standing.writable, standing.returned⟩

end Standing

/-! ## What one append does -/

section Append

variable {pydantic : Pydantic} {log next : Log} {args : EmitArgs} {event : RunLogEvent}
  {outcome : Outcome}

/-- A valid call has JSON data as attributes and the number of its writer. -/
theorem appended_spec (built : log.appended pydantic args = some event) :
    event.Writable ∧ event.seq = log.writer.seq := by
  unfold Log.appended at built
  split_ifs at built with enabled
  simp only [buildEvent, Option.bind_eq_bind, Option.bind_eq_some_iff] at built
  obtain ⟨status, -, findings, -, duration, -, rest⟩ := built
  split_ifs at rest with declared
  cases rest
  refine ⟨?_, rfl⟩
  show Json.Payload (.obj (attrsOf args.attrs))
  cases args.attrs with
  | none => exact ⟨List.Pairwise.nil, trivial⟩
  | some attrs => exact attrs.payload

/-- What reaches the file is the start of the line with its line feed. -/
theorem written_eq (writable : event.Writable) : ∃ part : Text,
    outcome.written event.lineBytes = utf8 part ∧
      (outcome.written event.lineBytes).length = part.length ∧ IsAscii part ∧
      part <+: event.toJsonLine ++ ['\n'] := by
  have ascii : IsAscii (event.toJsonLine ++ ['\n']) := by
    rw [← logText_singleton]
    exact ascii_logText (List.forall_mem_singleton.mpr writable)
  have taken : ∀ n, ∃ part : Text, event.lineBytes.take n = utf8 part ∧
      (event.lineBytes.take n).length = part.length ∧ IsAscii part ∧
      part <+: event.toJsonLine ++ ['\n'] := by
    intro n
    have small : IsAscii ((event.toJsonLine ++ ['\n']).take n) := fun c member =>
      ascii c (List.mem_of_mem_take member)
    refine ⟨(event.toJsonLine ++ ['\n']).take n, take_utf8 ascii n, ?_, small, List.take_prefix _ _⟩
    rw [RunLogEvent.lineBytes, take_utf8 ascii n, length_utf8 small]
  cases outcome with
  | completes => exact ⟨_, rfl, length_utf8 ascii, ascii, List.prefix_refl _⟩
  | fails n => exact taken n
  | dies n => exact taken n

/-- The start of a line with its line feed: nothing, a torn line, the whole text or all of it. -/
theorem part_cases (prefix_ : part <+: line ++ ['\n']) :
    part = [] ∨ (part ≠ [] ∧ ∃ more, more ≠ [] ∧ line = part ++ more) ∨ part = line ∨
      part = line ++ ['\n'] := by
  obtain ⟨more, whole⟩ := prefix_
  rcases List.append_eq_append_iff.mp whole with ⟨inside, rfl, _⟩ | ⟨inside, rfl, feed⟩
  · by_cases empty : part = []
    · exact .inl empty
    · by_cases torn : inside = []
      · subst torn
        exact .inr (.inr (.inl (List.append_nil _).symm))
      · exact .inr (.inl ⟨empty, inside, torn, rfl⟩)
  · cases inside with
    | nil => exact .inr (.inr (.inl (List.append_nil _)))
    | cons c inside =>
      rw [List.cons_append] at feed
      obtain ⟨rfl, rest⟩ := List.cons.inj feed
      obtain ⟨rfl, -⟩ := List.append_eq_nil_iff.mp rest.symm
      exact .inr (.inr (.inr rfl))

/-- The log after an append, whatever becomes of its writer. -/
def Log.after (log : Log) (event : RunLogEvent) (returned : Bool) (written : Bytes) (seq : Nat) : Log where
  file := log.file ++ written
  writer := { log.writer with seq }
  attempts := log.attempts ++ [⟨event, returned, written⟩]

theorem arrived_after (returned : Bool) (written : Bytes) (seq : Nat) :
    (log.after event returned written seq).arrived =
      log.arrived ++ if event.toJsonLine.length ≤ written.length then [event] else [] := by
  unfold Log.arrived Log.after
  rw [List.filter_append, List.map_append]
  by_cases whole : event.toJsonLine.length ≤ written.length <;> simp [Attempt.arrived, whole]

/-- A file that ends a line has no unfinished event. -/
theorem terminated_file (standing : log.Standing) (terminated : Terminated log.file) :
    log.file = utf8 (logText log.arrived) := by
  rcases standing.file with whole | ⟨front, last, split, unfinished⟩
  · exact whole
  · have writable := standing.writable
    rw [split, List.forall_mem_append] at writable
    obtain ⟨inside, braces⟩ := exists_braces (writable.2 last List.mem_cons_self)
    have text : logText front ++ last.toJsonLine = logText front ++ '{' :: inside ++ ['}'] := by
      rw [braces]
      simp
    rw [text, utf8_append] at unfinished
    have brace : log.file.getLast? = some 125 := by
      rw [unfinished]
      exact List.getLast?_concat
    rcases terminated with empty | feed
    · rw [empty] at brace
      cases brace
    · rw [feed] at brace
      cases brace

variable {returned : Bool} {seq : Nat}

/-- An append that is safe leaves the log standing. -/
theorem standing_after (standing : log.Standing) (writable : event.Writable)
    (numbered : event.seq = log.writer.seq) (length : (utf8 part).length = part.length)
    (prefix_ : part <+: event.toJsonLine ++ ['\n'])
    (safe : part = [] ∨ (Terminated log.file ∧ existingEventCount log.file = some log.writer.seq ∧
      event.toJsonLine.length ≤ part.length)) (kept : returned = true → part ≠ [])
    (behind : seq ≤ log.writer.seq ∨ (part ≠ [] ∧ seq ≤ log.writer.seq + 1)) :
    (log.after event returned (utf8 part) seq).Standing := by
  have some_ : 0 < event.toJsonLine.length := List.length_pos_iff.mpr (toJsonLine_ne_nil writable)
  by_cases empty : part = []
  · -- nothing reached the file
    subst empty
    have same : (log.after event returned (utf8 []) seq).arrived = log.arrived := by
      rw [arrived_after, length, List.length_nil, if_neg (Nat.not_le.mpr some_), List.append_nil]
    have file : (log.after event returned (utf8 []) seq).file = log.file := List.append_nil _
    refine ⟨?_, ?_, ?_, ?_, ?_⟩
    · rw [same, file]
      exact standing.file
    · rw [same]
      exact standing.numbers
    · rw [same]
      have := standing.seq
      show seq ≤ _
      rcases behind with low | ⟨wrong, -⟩
      · omega
      · exact absurd rfl wrong
    · rw [same]
      exact standing.writable
    · intro attempt member isReturned
      rcases List.mem_append.mp member with older | last
      · exact standing.returned attempt older isReturned
      · cases List.mem_singleton.mp last
        exact absurd rfl (kept isReturned)
  · obtain ⟨terminated, counted, whole⟩ := safe.resolve_left empty
    have arrived : (log.after event returned (utf8 part) seq).arrived = log.arrived ++ [event] := by
      rw [arrived_after, length, if_pos whole]
    have number : log.writer.seq = log.arrived.length :=
      (Option.some.inj (counted.symm.trans standing.counts))
    have file : log.file = utf8 (logText log.arrived) := terminated_file standing terminated
    refine ⟨?_, ?_, ?_, ?_, ?_⟩
    · rw [arrived]
      show log.file ++ utf8 part = _ ∨ ∃ front last, _ ∧ log.file ++ utf8 part = _
      rw [file, ← utf8_append]
      rcases part_cases prefix_ with nothing | ⟨-, more, proper, torn⟩ | text | all
      · exact absurd nothing empty
      · have := List.length_pos_iff.mpr proper
        rw [torn, List.length_append] at whole
        omega
      · exact .inr ⟨log.arrived, event, rfl, by rw [text]⟩
      · exact .inl (by rw [all, logText_append, logText_singleton])
    · rw [arrived, List.map_append, standing.numbers, List.length_append, List.length_singleton,
        List.range_succ, List.map_singleton, numbered, number]
    · rw [arrived, List.length_append, List.length_singleton]
      show seq ≤ _
      omega
    · rw [arrived]
      exact List.forall_mem_append.mpr
        ⟨standing.writable, List.forall_mem_singleton.mpr writable⟩
    · intro attempt member isReturned
      rcases List.mem_append.mp member with older | last
      · exact standing.returned attempt older isReturned
      · cases List.mem_singleton.mp last
        simpa [Attempt.arrived, length] using whole

theorem terminated_logText (events : List RunLogEvent) : Terminated (utf8 (logText events)) := by
  rcases List.eq_nil_or_concat events with rfl | ⟨front, last, rfl⟩
  · exact .inl rfl
  · right
    rw [List.concat_eq_append, logText_append, logText_singleton, ← List.append_assoc, utf8_append]
    exact List.getLast?_concat

/-- The first line of an unfinished line and what is written behind it. -/
theorem textLines_behind (oneLine : OneLine line) (own : OneLine event.toJsonLine)
    (nonempty : part ≠ []) (prefix_ : part <+: event.toJsonLine ++ ['\n']) :
    ∃ front lines, textLines (line ++ part) = (line ++ front) :: lines ∧
      front <+: event.toJsonLine ∧ (front = [] → part = ['\n']) := by
  have together : ∀ {front : Text}, front <+: event.toJsonLine → OneLine (line ++ front) := by
    intro front inside c member
    rcases List.mem_append.mp member with inLine | inFront
    · exact oneLine c inLine
    · exact own c (inside.subset inFront)
  have unended : part <+: event.toJsonLine → ∃ front lines,
      textLines (line ++ part) = (line ++ front) :: lines ∧ front <+: event.toJsonLine ∧
        (front = [] → part = ['\n']) := fun inside =>
    ⟨part, [], textLines_last (together inside) (by simp [nonempty]), inside,
      fun empty => absurd empty nonempty⟩
  rcases part_cases prefix_ with nothing | ⟨-, more, -, torn⟩ | text | all
  · exact absurd nothing nonempty
  · exact unended ⟨more, torn.symm⟩
  · exact unended (text ▸ List.prefix_refl _)
  · refine ⟨event.toJsonLine, textLines [], ?_, List.prefix_refl _, fun empty => by
      rw [all, empty]; rfl⟩
    rw [all, ← List.append_assoc]
    exact textLines_feed (together (List.prefix_refl _))

/-- An append that is not safe damages the log. -/
theorem not_intact_after (standing : log.Standing) (writable : event.Writable)
    (numbered : event.seq = log.writer.seq) (length : (utf8 part).length = part.length)
    (prefix_ : part <+: event.toJsonLine ++ ['\n'])
    (damages : ¬ (part = [] ∨ (Terminated log.file ∧
      existingEventCount log.file = some log.writer.seq ∧ event.toJsonLine.length ≤ part.length))) :
    ¬ (log.after event returned (utf8 part) seq).Intact pydantic := by
  intro intact
  obtain ⟨nonempty, later⟩ := not_or.mp damages
  have read : iterEvents pydantic (log.file ++ utf8 part) ≠ none := by
    rw [show iterEvents pydantic (log.file ++ utf8 part) = _ from intact.read]
    exact nofun
  rcases standing.file with whole | ⟨front, last, split, unfinished⟩
  · -- the number of the writer is one that the file holds
    have repeated : event.toJsonLine.length ≤ part.length → False := by
      intro arrives
      have terminated : Terminated log.file := whole ▸ terminated_logText _
      have uncounted : log.arrived.length ≠ log.writer.seq := fun same =>
        later ⟨terminated, by rw [standing.counts, same], arrives⟩
      have increasing := intact.increasing
      rw [arrived_after, length, if_pos arrives, List.map_append, List.map_singleton,
        standing.numbers, List.pairwise_append] at increasing
      have held : event.seq ∈ List.range log.arrived.length := by
        rw [List.mem_range, numbered]
        exact lt_of_le_of_ne standing.seq uncounted.symm
      exact lt_irrefl _ (increasing.2.2 _ held _ List.mem_cons_self)
    rcases part_cases prefix_ with nothing | ⟨-, more, proper, torn⟩ | text | all
    · exact nonempty nothing
    · -- a torn line
      apply read
      obtain ⟨visible, fails⟩ := torn_line writable torn nonempty proper
      have oneLine : OneLine part := fun c member =>
        oneLine_toJsonLine writable c (torn ▸ List.mem_append_left _ member)
      rw [whole, ← utf8_append, iterEvents_logText standing.writable,
        textLines_last oneLine nonempty, readEvents_refused visible fails]
      rfl
    · exact repeated (by rw [text])
    · exact repeated (by rw [all]; simp)
  · -- a line behind an unfinished one
    apply read
    have others := standing.writable
    rw [split, List.forall_mem_append] at others
    have lastWritable := others.2 last List.mem_cons_self
    obtain ⟨inside, braces⟩ := exists_braces writable
    obtain ⟨start, lines, first, ⟨rest, own⟩, feed⟩ := textLines_behind
      (oneLine_toJsonLine lastWritable) (oneLine_toJsonLine writable) nonempty prefix_
    obtain ⟨more, rfl⟩ : ∃ more, start = '{' :: more := by
      cases start with
      | nil =>
        obtain ⟨left, wrong⟩ := prefix_
        rw [feed rfl, braces] at wrong
        cases wrong
      | cons c more =>
        rw [braces] at own
        obtain ⟨rfl, -⟩ := List.cons.inj own
        exact ⟨more, rfl⟩
    obtain ⟨visible, fails⟩ := merged_line lastWritable more (c := '{') (by decide)
    rw [unfinished, ← utf8_append, List.append_assoc, iterEvents_logText others.1, first,
      readEvents_refused visible fails]
    rfl

/-- A new writer changes nothing that is read. -/
theorem intact_of_reopen (opened : log.reopen = some next) (intact : next.Intact pydantic) :
    log.Intact pydantic := by
  obtain ⟨writer, -, rfl⟩ := Option.map_eq_some_iff.mp opened
  exact ⟨intact.read, intact.returned, intact.increasing⟩

/-- What `Safe` says of the text that an append leaves. -/
theorem safe_part (length : (outcome.written event.lineBytes).length = part.length) :
    (outcome.written event.lineBytes = [] ∨ (Terminated log.file ∧
        existingEventCount log.file = some log.writer.seq ∧
        event.toJsonLine.length ≤ (outcome.written event.lineBytes).length)) ↔
      (part = [] ∨ (Terminated log.file ∧ existingEventCount log.file = some log.writer.seq ∧
        event.toJsonLine.length ≤ part.length)) := by
  rw [← length]
  apply or_congr_left
  rw [← List.length_eq_zero_iff, ← List.length_eq_zero_iff, length]

theorem standing_append (standing : log.Standing) (writable : event.Writable)
    (numbered : event.seq = log.writer.seq)
    (safe : outcome.written event.lineBytes = [] ∨ (Terminated log.file ∧
      existingEventCount log.file = some log.writer.seq ∧
      event.toJsonLine.length ≤ (outcome.written event.lineBytes).length)) :
    ∃ next, log.append event outcome = some next ∧ next.Standing := by
  obtain ⟨part, written, length, -, prefix_⟩ := @written_eq _ outcome writable
  rw [safe_part length] at safe
  rw [written] at length
  have stands : ∀ {returned seq}, (returned = true → part ≠ []) →
      (seq ≤ log.writer.seq ∨ (part ≠ [] ∧ seq ≤ log.writer.seq + 1)) →
      (log.after event returned (utf8 part) seq).Standing := fun kept behind =>
    standing_after standing writable numbered length prefix_ safe kept behind
  cases outcome with
  | completes =>
    have some_ : part ≠ [] := by
      rintro rfl
      have all : (utf8 (event.toJsonLine ++ ['\n'])).length = 0 := congrArg List.length written
      rw [utf8_append, List.length_append] at all
      have one : (utf8 ['\n']).length = 1 := rfl
      omega
    refine ⟨_, rfl, ?_⟩
    have next := @stands true (log.writer.seq + 1) (fun _ => some_)
      (.inr ⟨some_, le_rfl⟩)
    rw [← written] at next
    exact next
  | fails n =>
    refine ⟨_, rfl, ?_⟩
    have next := @stands false log.writer.seq nofun (.inl le_rfl)
    rw [← written] at next
    exact next
  | dies n =>
    have next := @stands false log.writer.seq nofun (.inl le_rfl)
    rw [← written] at next
    exact next.reopen

theorem not_intact_append (standing : log.Standing) (writable : event.Writable)
    (numbered : event.seq = log.writer.seq)
    (damages : ¬ (outcome.written event.lineBytes = [] ∨ (Terminated log.file ∧
      existingEventCount log.file = some log.writer.seq ∧
      event.toJsonLine.length ≤ (outcome.written event.lineBytes).length)))
    (stepped : log.append event outcome = some next) : ¬ next.Intact pydantic := by
  obtain ⟨part, written, length, -, prefix_⟩ := @written_eq _ outcome writable
  rw [safe_part length] at damages
  rw [written] at length
  have broken : ∀ returned seq, ¬ (log.after event returned (utf8 part) seq).Intact pydantic :=
    fun _ _ => not_intact_after standing writable numbered length prefix_ damages
  rw [← written] at broken
  cases outcome with
  | completes =>
    cases stepped
    exact broken true (log.writer.seq + 1)
  | fails n =>
    cases stepped
    exact broken false log.writer.seq
  | dies n => exact fun intact => broken false log.writer.seq (intact_of_reopen stepped intact)

end Append

/-! ## Runs -/

section Run

variable {pydantic : Pydantic} {log : Log} {action : Action}

theorem step_emit {args : EmitArgs} {outcome : Outcome} {event : RunLogEvent}
    (built : log.appended pydantic args = some event) :
    log.step pydantic (.emit args outcome) = log.append event outcome := by
  simp only [Log.step, built]

theorem step_refused {args : EmitArgs} {outcome : Outcome}
    (refused : log.appended pydantic args = none) :
    log.step pydantic (.emit args outcome) = some log ∨
      log.step pydantic (.emit args outcome) = log.reopen := by
  cases outcome <;> simp [Log.step, refused]

/-- A safe action leaves a standing log standing. -/
theorem standing_step (standing : log.Standing) (safe : log.Safe pydantic action) :
    ∃ next, log.step pydantic action = some next ∧ next.Standing := by
  cases action with
  | reopen => exact standing.reopen
  | emit args outcome =>
    cases built : log.appended pydantic args with
    | none =>
      rcases @step_refused _ _ _ outcome built with same | reopened
      · exact ⟨log, same, standing⟩
      · rw [reopened]
        exact standing.reopen
    | some event =>
      obtain ⟨writable, numbered⟩ := appended_spec built
      rw [step_emit built]
      exact standing_append standing writable numbered (safe event built)

/-- Any other action damages it. -/
theorem not_intact_step (standing : log.Standing) (damages : ¬ log.Safe pydantic action)
    {next : Log} (stepped : log.step pydantic action = some next) : ¬ next.Intact pydantic := by
  cases action with
  | reopen => exact absurd trivial damages
  | emit args outcome =>
    cases built : log.appended pydantic args with
    | none =>
      refine absurd (fun event found => ?_) damages
      rw [built] at found
      cases found
    | some event =>
      rw [step_emit built] at stepped
      obtain ⟨writable, numbered⟩ := appended_spec built
      refine not_intact_append standing writable numbered (fun safe => damages ?_) stepped
      intro other found
      rw [built] at found
      cases found
      exact safe

theorem staysIntact_standing (actions : List Action) (standing : log.Standing) :
    log.StaysIntact pydantic actions ↔ log.StaysSafe pydantic actions := by
  induction actions generalizing log with
  | nil => exact ⟨fun _ => trivial, fun _ => standing.intact⟩
  | cons action actions ih =>
    constructor
    · rintro ⟨-, next, stepped, later⟩
      have intact : next.Intact pydantic := by
        cases actions with
        | nil => exact later
        | cons => exact later.1
      have safe : log.Safe pydantic action := by
        by_contra damages
        exact not_intact_step standing damages stepped intact
      obtain ⟨same, stepped', stands⟩ := standing_step standing safe
      obtain rfl := Option.some.inj (stepped.symm.trans stepped')
      refine ⟨safe, fun other again => ?_⟩
      obtain rfl := Option.some.inj (stepped.symm.trans again)
      exact (ih stands).mp later
    · rintro ⟨safe, later⟩
      obtain ⟨next, stepped, stands⟩ := standing_step standing safe
      exact ⟨standing.intact, next, stepped, (ih stands).mpr (later next stepped)⟩

end Run

/-- **A run log is intact throughout a run exactly when every append leaves nothing, or a whole
event behind the end of a line by a writer that has counted the file.** -/
theorem staysIntact_iff (pydantic : Pydantic) (runId : Text) (enabled : Bool)
    (actions : List Action) :
    (Log.start runId enabled).StaysIntact pydantic actions ↔
      (Log.start runId enabled).StaysSafe pydantic actions :=
  staysIntact_standing actions (standing_start runId enabled)

/-- A validator that takes nothing but plain values. -/
def plainPydantic : Pydantic where
  str
    | .str text => some text
    | _ => none
  int
    | .int value => some value
    | _ => none
  newId := "0000000000000000".toList
  str_text _ := rfl
  int_int _ := rfl

/-- `emit("generate", "passed")` -/
def generatePassed : EmitArgs where
  eventId := "0123456789abcdef".toList
  ts := "2026-01-01T00:00:00+00:00".toList
  stage := "generate".toList
  status := "passed".toList
  reasonCode := none
  reason := none
  durationMs := none
  attrs := none
  findings := []

theorem loads_two_braces (tail : Text) : Json.loads ('{' :: '{' :: tail) = none := rfl

/-- A brace that a failed append left makes the next line unreadable. -/
theorem brace_before_line {pydantic : Pydantic} {event other : RunLogEvent}
    (writable : event.Writable) (otherWritable : other.Writable) :
    iterEvents pydantic ([] ++ event.lineBytes.take 1 ++ other.lineBytes) = none := by
  obtain ⟨inside, braces⟩ := exists_braces writable
  obtain ⟨inside', braces'⟩ := exists_braces otherWritable
  have brace : event.lineBytes.take 1 = utf8 ['{'] := by
    rw [RunLogEvent.lineBytes, braces]
    rfl
  have file : [] ++ event.lineBytes.take 1 ++ other.lineBytes =
      utf8 ('{' :: '{' :: (inside' ++ ['}']) ++ '\n' :: []) := by
    rw [brace, RunLogEvent.lineBytes, braces', List.nil_append, ← utf8_append]
    simp
  have oneLine : OneLine ('{' :: '{' :: (inside' ++ ['}'])) := by
    rw [← braces']
    exact List.forall_mem_cons.mpr ⟨by decide, oneLine_toJsonLine otherWritable⟩
  obtain ⟨kept, -, stripped⟩ := @strip_visible ['{'] (inside' ++ ['}']) '{'
    (by decide) (by rintro d ⟨⟩; decide)
  replace stripped : strip ('{' :: '{' :: (inside' ++ ['}'])) = '{' :: '{' :: kept := stripped
  unfold iterEvents
  rw [file, decodeUtf8_utf8]
  simp only [Option.bind_eq_bind, Option.bind_some]
  rw [textLines_feed oneLine]
  apply readEvents_refused
  · rw [isBlankLine, stripped]
    rfl
  · rw [stripped]
    exact loads_two_braces kept

/-- One byte of a line stays in the file, and the event that is returned next is lost behind it. -/
theorem torn_line_loses_next : ∃ torn final : Log,
    (Log.start "run".toList true).step plainPydantic (.emit generatePassed (.fails 1)) = some torn ∧
      torn.step plainPydantic (.emit generatePassed .completes) = some final ∧
      final.attempts.map Attempt.returned = [false, true] ∧
      iterEvents plainPydantic final.file = none := by
  refine ⟨_, _, rfl, rfl, rfl, ?_⟩
  exact brace_before_line ⟨List.Pairwise.nil, trivial⟩ ⟨List.Pairwise.nil, trivial⟩

end AxiomEncode.RunLog
