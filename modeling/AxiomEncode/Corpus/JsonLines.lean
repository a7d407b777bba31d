/-
# Corpus.JsonLines -- objects written one to a line and read back

A provision file is JSON Lines: the text of one object, a line feed, and so on.  The
reader of `Corpus.Release` splits the text with `str.splitlines`, which ends a line at
more characters than the line feed.  Three of them, U+0085, U+2028 and U+2029, may
stand unescaped in a JSON string, and a carriage return may stand between its tokens.

The rows that come back are the objects with their numbers exactly when no such
character stands where it would end a line early (`rowsOf_iff`).  A string that holds
one is cut in two, and no proper prefix of an object loads (`Json.loads_prefix`).
-/
import AxiomEncode.Corpus.ReleaseFiles
import AxiomEncode.Corpus.CanonicalPath
import AxiomEncode.Theory.JsonDenotes

namespace AxiomEncode.Corpus

open Theory
open Theory.Grammar (Document Blanks noBlanks)
open Theory.Json (treeValue asDict membersAsDict setMember)

set_option autoImplicit false

/-! ## The decoder -/

/-- `json.loads`.  A value beyond the limits of the interpreter (the digits of an integer, the depth
of a value) is an error too, of another class than a malformed text. -/
def jsonLoads (admits : Json → Bool) (text : Text) : Option Json :=
  ((Json.loads text).filter admits).map asDict

section Rows

variable (host : Host) (admits : Json → Bool) (release : LocalCorpusRelease) (path : Text)

/-- The host whose decoders are those of the language. -/
def decodingHost : Host := { host with loads := jsonLoads admits, decodeUtf8 := Theory.decodeUtf8 }

/-- The part of `_read_corpus_artifact` behind the checks of the inventory. -/
def rowsOf (raw : List UInt8) : Except ResolveError (List (Nat × Record)) :=
  match (decodingHost host admits).decodeUtf8 raw with
  | none => .error (.resolution ("Corpus artifact is not valid UTF-8: " ++
      absolutePath release path))
  | some text => parseRows (decodingHost host admits) release path (splitlines text) 1 0

/-- What an admitted file is read to are the rows of its bytes. -/
theorem readCorpusArtifact_rowsOf {raw : List UInt8} {expected : VerifiedReleaseArtifact}
    (file : readBoundedRegularFile (decodingHost host admits) release path = .ok raw)
    (listed : release.artifacts.find? (fun artifact => artifact.path = path) = some expected)
    (provisions : expected.artifactClass = .provisions)
    (bytes : expected.sha256 = host.sha256 raw ∧ expected.byteCount = raw.length) :
    readCorpusArtifact (decodingHost host admits) release path =
      (rowsOf host admits release path raw).map fun rows =>
        { path, sha256 := host.sha256 raw, byteSize := raw.length, rows } := by
  have digest : (decodingHost host admits).sha256 raw = host.sha256 raw := rfl
  unfold readCorpusArtifact rowsOf
  simp only [file, bind, Except.bind, listed, provisions, digest, bytes.1, bytes.2, require,
    decide_true, Bool.and_self, if_true]
  cases (decodingHost host admits).decodeUtf8 raw with
  | none => rfl
  | some text =>
    cases parseRows (decodingHost host admits) release path (splitlines text) 1 0 <;> rfl

end Rows

/-! ## The writer -/

/-- One object as one line of JSON text. -/
structure ObjectLine where
  document : Document Char
  members : List (Text × Json)
  denotes : treeValue document.value = some (.obj members)
  oneLine : '\n' ∉ document.text

namespace ObjectLine

/-- The dictionary that the text is of. -/
def record (line : ObjectLine) : Record :=
  (membersAsDict line.members).foldl (fun dict member => setMember dict member.1 member.2) []

theorem asDict_members (line : ObjectLine) : asDict (.obj line.members) = .obj line.record := rfl

/-- The text up to the end of the object. -/
def front (line : ObjectLine) : Text := line.document.before.text ++ line.document.value.text

/-- The blanks behind the object. -/
def tail (line : ObjectLine) : Text := line.document.after.text

theorem text_eq (line : ObjectLine) : line.document.text = line.front ++ line.tail :=
  (List.append_assoc _ _ _).symm

theorem value_head (line : ObjectLine) : ∃ rest, line.document.value.text = '{' :: rest := by
  have denotes := line.denotes
  cases shape : line.document.value with
  | object members => exact ⟨_, rfl⟩
  | emptyObject space => exact ⟨_, rfl⟩
  | word w =>
    rw [shape] at denotes
    cases w <;> cases denotes
  | number n =>
    rw [shape] at denotes
    simp only [treeValue, Json.numberValue, Option.some.injEq] at denotes
    split_ifs at denotes
  | string parts =>
    rw [shape] at denotes
    obtain ⟨text, -, wrong⟩ := Option.map_eq_some_iff.mp denotes
    cases wrong
  | emptyArray space =>
    rw [shape] at denotes
    cases denotes
  | array items =>
    rw [shape] at denotes
    obtain ⟨values, -, wrong⟩ := Option.map_eq_some_iff.mp denotes
    cases wrong

end ObjectLine

/-- The text of a file: each line with a line feed. -/
def fileText (lines : List ObjectLine) : Text :=
  lines.flatMap fun line => line.document.text ++ ['\n']

/-- The objects with the numbers of their lines. -/
def numbered (lineNumber : Nat) (lines : List ObjectLine) : List (Nat × Record) :=
  (lines.zipIdx lineNumber).map fun entry => (entry.2, entry.1.record)

/-- A line that is read whole: nothing ends it before its object does, and the object is within
the limits of the interpreter. -/
structure ReadsWhole (admits : Json → Bool) (line : ObjectLine) : Prop where
  front : Unbroken line.front
  admitted : admits (.obj line.members) = true

/-! ## Reading -/

section Reading

variable {host : Host} {admits : Json → Bool} {release : LocalCorpusRelease} {path : Text}
  {line : ObjectLine} {lineNumber rowCount : Nat}

theorem blanks_isSpace (space : Blanks Char) : ∀ c ∈ space.text, isSpace c = true := fun c member =>
  Json.isSpace_of_isBlank (List.all_eq_true.mp space.blank c member)

variable {text part rest : Text} {rows : List (Nat × Record)} {others : List ObjectLine}
  {later : List Text}

/-- Lines of blanks have no rows. -/
theorem parseRows_blank (blank : ∀ c ∈ text, isSpace c = true) :
    parseRows host release path (splitlines text) lineNumber rowCount = .ok [] := by
  have lines : ∀ lines : List Text, (∀ line ∈ lines, line ⊆ text) → ∀ lineNumber,
      parseRows host release path lines lineNumber rowCount = .ok [] := by
    intro lines inside
    induction lines with
    | nil => exact fun _ => rfl
    | cons line lines ih =>
      intro lineNumber
      have empty := strip_of_all fun c member => blank c (inside line List.mem_cons_self member)
      rw [parseRows, empty, if_pos List.isEmpty_nil]
      exact ih (fun other member => inside other (List.mem_cons_of_mem _ member)) _
  exact lines _ (fun line member => mem_of_mem_splitlines member) lineNumber

/-- Behind a blank line no row has the number of that line. -/
theorem parseRows_late {c : Char} (blank : ∀ d ∈ part, isSpace d = true)
    (unbroken : Unbroken part) (ends : isLineBreak c = true)
    (parsed : parseRows host release path (splitlines (part ++ c :: rest)) lineNumber rowCount =
      .ok rows) : ∀ row ∈ rows, lineNumber + 1 ≤ row.1 := by
  obtain ⟨later, split⟩ := @exists_splitlines_break _ rest _ unbroken ends
  rw [split, parseRows, strip_of_all blank, if_pos List.isEmpty_nil] at parsed
  exact (parseRows_lineNumbers parsed).2

theorem parseRows_ne_numbered {c : Char} (blank : ∀ d ∈ part, isSpace d = true)
    (unbroken : Unbroken part) (ends : isLineBreak c = true) :
    parseRows host release path (splitlines (part ++ c :: rest)) lineNumber rowCount ≠
      .ok (numbered lineNumber (line :: others)) := by
  intro parsed
  have late := parseRows_late blank unbroken ends parsed (lineNumber, line.record)
    List.mem_cons_self
  exact absurd late (by omega)

theorem parseRows_blanks_ne {blanks : Text} (blank : ∀ d ∈ blanks, isSpace d = true) :
    parseRows host release path (splitlines (blanks ++ '\n' :: rest)) lineNumber rowCount ≠
      .ok (numbered lineNumber (line :: others)) := by
  by_cases unbroken : Unbroken blanks
  · exact parseRows_ne_numbered blank unbroken (by decide)
  · obtain ⟨part, c, more, rfl, before, ends⟩ := exists_first_break unbroken
    rw [List.append_assoc, List.cons_append]
    exact parseRows_ne_numbered (fun d member => blank d (List.mem_append_left _ member)) before ends

/-- A first line that does not load is an error. -/
theorem parseRows_unreadable (visible : strip text ≠ []) (fails : host.loads text = none) :
    parseRows host release path (text :: later) lineNumber rowCount ≠ .ok rows := by
  rw [parseRows, if_neg (by simpa using visible), fails]
  intro read
  cases read

theorem mem_front (line : ObjectLine) : '{' ∈ line.front := by
  obtain ⟨rest, head⟩ := line.value_head
  unfold ObjectLine.front
  rw [head]
  simp

/-- The object with blanks behind it loads. -/
theorem loads_front (space : Blanks Char) :
    Json.loads (line.front ++ space.text) = some (.obj line.members) := by
  rw [ObjectLine.front, List.append_assoc]
  exact Json.loads_text _ space _ _ line.denotes

theorem parseRows_front (whole : ReadsWhole admits line) (space : Blanks Char)
    (room : rowCount + 1 ≤ maxLocalCorpusRows) :
    parseRows (decodingHost host admits) release path ((line.front ++ space.text) :: later)
        lineNumber rowCount =
      (parseRows (decodingHost host admits) release path later (lineNumber + 1) (rowCount + 1)).map
        fun rows => (lineNumber, line.record) :: rows := by
  have visible : strip (line.front ++ space.text) ≠ [] :=
    strip_ne_nil (List.mem_append_left _ (mem_front line)) (by decide)
  have loaded : (decodingHost host admits).loads (line.front ++ space.text) =
      some (.obj line.record) := by
    show jsonLoads admits _ = _
    rw [jsonLoads, loads_front, Option.filter_some_pos whole.admitted]
    exact congrArg some line.asDict_members
  rw [parseRows, if_neg (by simpa using visible), loaded]
  dsimp only
  rw [if_neg (by omega)]
  cases parseRows (decodingHost host admits) release path later (lineNumber + 1) (rowCount + 1) <;>
    rfl

/-- Where the text of a line is first broken: before its object, or inside it. -/
theorem first_break (line : ObjectLine) (broken : ¬ Unbroken line.front) :
    ∃ part c more, line.front = part ++ c :: more ∧ Unbroken part ∧ isLineBreak c = true ∧
      ((∀ d ∈ part, isSpace d = true) ∨ Json.loads part = none ∧ strip part ≠ []) := by
  obtain ⟨part, c, more, split, unbroken, ends⟩ := exists_first_break broken
  refine ⟨part, c, more, split, unbroken, ends, ?_⟩
  rcases List.append_eq_append_iff.mp split with ⟨inside, rfl, rest⟩ | ⟨blanks, before, rest⟩
  · -- the break stands behind the first brace
    obtain ⟨tail, head⟩ := line.value_head
    cases inside with
    | nil =>
      rw [List.nil_append, head] at rest
      cases rest
      cases ends
    | cons d inside =>
      refine .inr ⟨Json.loads_prefix _ _ _ _ (c :: more) line.denotes (by rw [head]; rfl) rest
        (List.cons_ne_nil _ _) (List.cons_ne_nil _ _), ?_⟩
      rw [head, List.cons_append] at rest
      cases rest
      exact strip_ne_nil (c := '{') (by simp) (by decide)
  · left
    intro d member
    apply blanks_isSpace line.document.before
    rw [before]
    exact List.mem_append_left _ member

theorem tail_feed (line : ObjectLine) : '\n' ∉ line.tail := fun member =>
  line.oneLine (line.text_eq ▸ List.mem_append_right _ member)

/-- A break in the blanks behind an object is a carriage return. -/
theorem carriage_of_tail {c : Char} (member : c ∈ line.tail) (ends : isLineBreak c = true) :
    c = '\r' := by
  have blank : Grammar.isBlank c = true := List.all_eq_true.mp line.document.after.blank c member
  simp only [Grammar.isBlank, Bool.or_eq_true, beq_iff_eq] at blank
  rcases blank with ((space | tab) | feed) | carriage
  · obtain rfl : c = ' ' := Grammar.eq_letter (by decide) space
    cases ends
  · obtain rfl : c = '\t' := Grammar.eq_letter (by decide) tab
    cases ends
  · obtain rfl : c = '\n' := Grammar.eq_letter (by decide) feed
    exact absurd member (tail_feed line)
  · exact Grammar.eq_letter (by decide) carriage

/-- Part of the blanks behind an object. -/
def tailPart (line : ObjectLine) (part : Text) (inside : part ⊆ line.tail) : Blanks Char where
  text := part
  blank := List.all_eq_true.mpr fun c member =>
    List.all_eq_true.mp line.document.after.blank c (inside member)

/-- The line of an object whose front is not broken: it ends with the line feed, or at a carriage
return that more blanks follow. -/
theorem splitlines_line (line : ObjectLine) (front : Unbroken line.front) (rest : Text) :
    ∃ space : Blanks Char,
      (Unbroken line.tail.dropLast ∧ splitlines (line.front ++ (line.tail ++ '\n' :: rest)) =
        (line.front ++ space.text) :: splitlines rest) ∨
      (¬ Unbroken line.tail.dropLast ∧ ∃ blanks ⊆ line.tail,
        splitlines (line.front ++ (line.tail ++ '\n' :: rest)) =
          (line.front ++ space.text) :: splitlines (blanks ++ '\n' :: rest)) := by
  have together : ∀ {part : Text}, Unbroken part → Unbroken (line.front ++ part) := by
    intro part unbroken c member
    rcases List.mem_append.mp member with inFront | inPart
    · exact front c inFront
    · exact unbroken c inPart
  by_cases unbroken : Unbroken line.tail
  · refine ⟨line.document.after, .inl ⟨fun c member => unbroken c ((List.dropLast_sublist _).subset member),
      ?_⟩⟩
    rw [← List.append_assoc]
    exact splitlines_break (together unbroken) (by decide) (.inl (by decide))
  · obtain ⟨part, c, more, split, before, ends⟩ := exists_first_break unbroken
    obtain rfl := @carriage_of_tail line _ (by rw [split]; simp) ends
    have inside : part ⊆ line.tail := by
      rw [split]
      exact List.subset_append_left _ _
    refine ⟨tailPart line part inside, ?_⟩
    cases more with
    | nil =>
      left
      refine ⟨by rw [split, List.dropLast_concat]; exact before, ?_⟩
      rw [split, List.append_assoc, ← List.append_assoc]
      exact splitlines_crlf (together before)
    | cons d more =>
      right
      refine ⟨fun whole => ?_, d :: more, ?_, ?_⟩
      · rw [split, List.dropLast_append_of_ne_nil (List.cons_ne_nil _ _),
          List.dropLast_cons_of_ne_nil (List.cons_ne_nil _ _)] at whole
        have := whole '\r' (by simp)
        cases this
      · rw [split]
        exact List.subset_append_of_subset_right _ (List.subset_cons_self _ _)
      · rw [split, List.append_assoc, ← List.append_assoc]
        apply splitlines_break (together before) ends
        right
        intro feed
        apply tail_feed line
        rw [split]
        cases feed
        simp

/-- The line of an object that is not read whole is no row of its own number. -/
theorem parseRows_broken (broken : ¬ ReadsWhole admits line) :
    parseRows (decodingHost host admits) release path
        (splitlines (line.front ++ (line.tail ++ '\n' :: rest))) lineNumber rowCount ≠
      .ok (numbered lineNumber (line :: others)) := by
  by_cases unbroken : Unbroken line.front
  · have refused : ¬ admits (.obj line.members) = true := fun admitted =>
      broken ⟨unbroken, admitted⟩
    have fails : ∀ (space : Blanks Char) (later : List Text),
        parseRows (decodingHost host admits) release path ((line.front ++ space.text) :: later)
          lineNumber rowCount ≠ .ok (numbered lineNumber (line :: others)) := by
      intro space later
      apply parseRows_unreadable
      · exact strip_ne_nil (List.mem_append_left _ (mem_front line)) (by decide)
      · show jsonLoads admits _ = none
        rw [jsonLoads, loads_front, Option.filter_some_neg (by simpa using refused)]
        rfl
    obtain ⟨space, ⟨-, lines⟩ | ⟨-, blanks, -, lines⟩⟩ := splitlines_line line unbroken rest
    · rw [lines]
      exact fails space _
    · rw [lines]
      exact fails space _
  · obtain ⟨part, c, more, split, unbroken, ends, kind⟩ := first_break line unbroken
    rw [split, List.append_assoc, List.cons_append]
    rcases kind with blank | ⟨fails, visible⟩
    · exact parseRows_ne_numbered blank unbroken ends
    · obtain ⟨later, lines⟩ := @exists_splitlines_break _ (more ++ (line.tail ++ '\n' :: rest)) _ unbroken ends
      rw [lines]
      apply parseRows_unreadable visible
      show jsonLoads admits part = none
      rw [jsonLoads, fails]
      rfl

/-- The rows of the lines from `lineNumber` on. -/
theorem parseRows_iff (lines : List ObjectLine) (lineNumber rowCount : Nat)
    (room : rowCount + lines.length ≤ maxLocalCorpusRows) :
    parseRows (decodingHost host admits) release path (splitlines (fileText lines)) lineNumber
        rowCount = .ok (numbered lineNumber lines) ↔
      (∀ line ∈ lines, ReadsWhole admits line) ∧
        ∀ line ∈ lines.dropLast, Unbroken line.tail.dropLast := by
  induction lines generalizing lineNumber rowCount with
  | nil => exact ⟨fun _ => ⟨fun _ member => (nomatch member), fun _ member => (nomatch member)⟩,
      fun _ => rfl⟩
  | cons line others ih =>
    rw [List.length_cons] at room
    have text : fileText (line :: others) =
        line.front ++ (line.tail ++ '\n' :: fileText others) := by
      simp [fileText, line.text_eq]
    rw [text]
    by_cases whole : ReadsWhole admits line
    · have row : ∀ (space : Blanks Char) (later : List Text),
          parseRows (decodingHost host admits) release path ((line.front ++ space.text) :: later)
              lineNumber rowCount = .ok (numbered lineNumber (line :: others)) ↔
            parseRows (decodingHost host admits) release path later (lineNumber + 1)
              (rowCount + 1) = .ok (numbered (lineNumber + 1) others) := by
        intro space later
        rw [parseRows_front whole space (by omega)]
        cases parseRows (decodingHost host admits) release path later (lineNumber + 1)
            (rowCount + 1) with
        | error failure => exact ⟨nofun, nofun⟩
        | ok rows => simp [Except.map, numbered, List.zipIdx_cons]
      obtain ⟨space, ⟨unbroken, split⟩ | ⟨broken, blanks, inside, split⟩⟩ :=
        splitlines_line line whole.front (fileText others)
      · rw [split, row, ih (lineNumber + 1) (rowCount + 1) (by omega), List.forall_mem_cons,
          and_iff_right whole]
        cases others with
        | nil => rfl
        | cons other others =>
          rw [List.dropLast_cons_of_ne_nil (List.cons_ne_nil other others)]
          exact and_congr_right' ⟨fun good => List.forall_mem_cons.mpr ⟨unbroken, good⟩,
            fun good => (List.forall_mem_cons.mp good).2⟩
      · rw [split, row]
        have blank : ∀ d ∈ blanks, isSpace d = true := fun d member =>
          blanks_isSpace line.document.after d (inside member)
        cases others with
        | nil =>
          -- behind the last object blanks add no row
          have tailBlank : ∀ d ∈ blanks ++ ['\n'], isSpace d = true := by
            intro d member
            rcases List.mem_append.mp member with inBlanks | feed
            · exact blank d inBlanks
            · cases List.mem_singleton.mp feed
              decide
          rw [show fileText [] = [] from rfl, parseRows_blank tailBlank]
          exact ⟨fun _ => ⟨by simpa using whole, fun _ member => (nomatch member)⟩, fun _ => rfl⟩
        | cons other others =>
          refine ⟨fun parsed => absurd parsed (parseRows_blanks_ne blank), fun good => ?_⟩
          exact absurd (good.2 line (by simp)) broken
    · constructor
      · exact fun parsed => absurd parsed (parseRows_broken whole)
      · exact fun good => absurd (good.1 line List.mem_cons_self) whole

/-- **The rows of a file are its objects exactly when no line break stands before the end of an
object, or behind one unless it is the end of the line or the object is the last.** -/
theorem rowsOf_iff (host : Host) (admits : Json → Bool) (release : LocalCorpusRelease)
    (path : Text) (lines : List ObjectLine) (room : lines.length ≤ maxLocalCorpusRows) :
    rowsOf host admits release path (utf8 (fileText lines)) = .ok (numbered 1 lines) ↔
      (∀ line ∈ lines, ReadsWhole admits line) ∧
        ∀ line ∈ lines.dropLast, Unbroken line.tail.dropLast := by
  have decoded : (decodingHost host admits).decodeUtf8 (utf8 (fileText lines)) =
      some (fileText lines) := decodeUtf8_utf8 _
  unfold rowsOf
  rw [decoded]
  exact parseRows_iff lines 1 0 (by omega)

end Reading

/-- `{"a":"…"}` with one character for the string. -/
def oneCharacter (c : Char) (free : Grammar.isFree c = true) (feed : '\n' ≠ c) : ObjectLine where
  document := ⟨noBlanks, .object (.last ⟨noBlanks, [.plain 'a' rfl], noBlanks⟩ noBlanks
    (.string [.plain c free]) noBlanks), noBlanks⟩
  members := [(['a'], .str [c])]
  denotes := rfl
  oneLine := by
    intro member
    have shown : '\n' ∈ ['{', '"', 'a', '"', ':', '"', c, '"', '}'] := member
    simp [feed] at shown

def emptyRelease : LocalCorpusRelease where
  root := []
  name := []
  contentSha256 := ""
  selectorSha256 := ""
  scopes := []
  artifacts := []
  scopeComponents := nofun
  scopesDistinct := .nil
  pathsDistinct := .nil
  claimed := nofun
  provided := nofun

theorem rowsOf_plain : rowsOf filelessHost (fun _ => true) emptyRelease []
    (utf8 (fileText [oneCharacter 'b' rfl (by decide)])) =
      .ok (numbered 1 [oneCharacter 'b' rfl (by decide)]) :=
  (rowsOf_iff filelessHost (fun _ => true) emptyRelease [] _ (by decide)).mpr
    ⟨by simpa using ⟨by decide, rfl⟩, nofun⟩

/-- U+0085 in a string ends the line inside the string. -/
theorem rowsOf_nextLine : rowsOf filelessHost (fun _ => true) emptyRelease []
    (utf8 (fileText [oneCharacter (Char.ofNat 0x85) (by decide) (by decide)])) =
      .error (.resolution "Invalid JSON in corpus artifact /:1") := by
  have decoded : ∀ text, (decodingHost filelessHost fun _ => true).decodeUtf8 (utf8 text) =
      some text := decodeUtf8_utf8
  unfold rowsOf
  rw [decoded]
  rfl

end AxiomEncode.Corpus
