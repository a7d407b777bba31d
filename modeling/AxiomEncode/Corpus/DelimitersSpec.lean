/-
# Corpus.DelimitersSpec -- a batch of markers is replayed as one by one

The replay never looks at the markers, and the only characters it skips are the
backticks of a run.  So the pass over a batch of markers that point at brackets agrees,
marker by marker, with a pass made for that marker alone
(`mem_delimiterEnclosedMarkerStarts_iff`).
-/
import AxiomEncode.Corpus.Delimiters
import AxiomEncode.Theory.Checks

namespace AxiomEncode.Corpus

open Theory

set_option autoImplicit false

variable {census : Census}

namespace Replay

variable {unicode : Unicode} {text : Text} {replay next : Replay}

/-- A step reads a character and goes on behind it or behind its run of backticks. -/
theorem step_index (stepped : step unicode text replay = .ok next) :
    ∃ character, text[replay.index]? = some character ∧
      next.index = nextIndex text replay character := by
  rw [step] at stepped
  split at stepped
  · cases stepped
  next character here =>
    refine ⟨character, here, ?_⟩
    split at stepped
    next backslash =>
      simp only [Except.ok.injEq] at stepped
      rw [← stepped, nextIndex, if_neg]
      rw [backslash]
      exact fun both => absurd both.1 (by decide)
    · obtain ⟨after, -, moved⟩ := bind_eq_ok_iff.mp stepped
      rw [← Except.ok.inj moved]

theorem lt_nextIndex (text : Text) (replay : Replay) (character : Char) :
    replay.index < nextIndex text replay character := by
  rw [nextIndex]
  split
  · rw [backtickRunEnd]
    omega
  · omega

/-- Between an index and the next one there are backticks only. -/
theorem backtick_of_lt_nextIndex {character : Char} {offset : Nat}
    (behind : replay.index < offset) (before : offset < nextIndex text replay character) :
    text[offset]? = some backtick := by
  rw [nextIndex] at before
  split at before
  · rw [backtickRunEnd] at before
    let run := (text.drop (replay.index + 1)).takeWhile (· = backtick)
    have inside : offset - (replay.index + 1) < run.length := by
      show _ < ((text.drop (replay.index + 1)).takeWhile (· = backtick)).length
      omega
    have tick : run[offset - (replay.index + 1)] = backtick := by
      have all := List.all_eq_true.mp (List.all_takeWhile (p := (· = backtick))
        (l := text.drop (replay.index + 1))) _ (List.getElem_mem inside)
      simpa using all
    have read : (text.drop (replay.index + 1))[offset - (replay.index + 1)]? = some backtick := by
      have prefixed := List.takeWhile_prefix (p := (· = backtick)) (l := text.drop (replay.index + 1))
      rw [← tick]
      exact (List.prefix_iff_getElem?.mp prefixed) _ inside
    rw [List.getElem?_drop] at read
    rwa [Nat.add_sub_cancel' behind] at read
  · omega

theorem advances (unicode : Unicode) (text : Text) : (scanner unicode text).Advances := by
  intro replay next stepped
  obtain ⟨character, -, index⟩ := step_index stepped
  show replay.index < next.index
  rw [index]
  exact lt_nextIndex text replay character

variable {marks : List Nat}

/-- No step passes over a character that is no backtick. -/
theorem stopsAt (visible : ∀ mark ∈ marks, text[mark]? ≠ some backtick) :
    (scanner unicode text).StopsAt marks := by
  intro replay next stepped mark member behind
  obtain ⟨character, -, index⟩ := step_index stepped
  show next.index ≤ mark
  rw [index]
  by_contra passed
  exact visible mark member (backtick_of_lt_nextIndex behind (Nat.lt_of_not_le passed))

/-- The replay has a round for every character: more rounds change nothing. -/
theorem collect_more {last extra : Nat} :
    (scanner unicode text).collect last (text.length + extra) (.ofCensus census) marks [] =
      (scanner unicode text).collect last text.length (.ofCensus census) marks [] :=
  Scanner.collect_add_steps (advances unicode text) extra (Nat.le_add_left _ _)

end Replay

section Markers

variable {count : Nat} {previous : Option Int} {markerStarts starts : List Int}

/-- The markers that are kept stand in the given order. -/
theorem orderedMarkerStarts_sublist
    (ordered : orderedMarkerStarts count previous markerStarts = .ok starts) :
    starts.Sublist markerStarts := by
  induction markerStarts generalizing count previous starts with
  | nil =>
    simp only [orderedMarkerStarts, Except.ok.injEq] at ordered
    rw [← ordered]
  | cons start rest ih =>
    rw [orderedMarkerStarts] at ordered
    split at ordered
    · cases ordered
    split at ordered
    · cases ordered
    obtain ⟨others, kept, same⟩ := bind_eq_ok_iff.mp ordered
    obtain rfl := Except.ok.inj same
    split
    · exact (ih kept).cons start
    · exact (ih kept).cons_cons start

/-- Only repetitions of the marker before are dropped. -/
theorem mem_orderedMarkerStarts {marker : Int} (given : marker ∈ markerStarts)
    (ordered : orderedMarkerStarts count previous markerStarts = .ok starts) :
    marker ∈ starts ∨ previous = some marker := by
  induction markerStarts generalizing count previous starts with
  | nil => cases given
  | cons start rest ih =>
    rw [orderedMarkerStarts] at ordered
    split at ordered
    · cases ordered
    split at ordered
    · cases ordered
    obtain ⟨others, kept, same⟩ := bind_eq_ok_iff.mp ordered
    obtain rfl := Except.ok.inj same
    have found : marker ∈ start :: others := by
      rcases List.mem_cons.mp given with rfl | later
      · exact List.mem_cons_self
      · rcases ih later kept with inside | same
        · exact List.mem_cons_of_mem start inside
        · rw [← Option.some.inj same]
          exact List.mem_cons_self
    split
    next same =>
      rcases List.mem_cons.mp found with rfl | inside
      · exact Or.inr same
      · exact Or.inl inside
    · exact Or.inl found

end Markers

section Batch

variable {unicode : Unicode} {text : Text} {offsets enclosed : List Nat}

/-- A batch that returns has read the census and run the replay over its markers. -/
theorem exists_pass (nonempty : offsets ≠ [])
    (returned : delimiterEnclosedMarkerStarts unicode text (offsets.map Int.ofNat) = .ok enclosed) :
    ∃ (marks : List Nat) (last : Nat) (census : Census),
      marks.Sublist offsets ∧ (∀ mark ∈ offsets, mark ∈ marks) ∧
      Census.take unicode text = .ok census ∧
      (Replay.scanner unicode text).collect last text.length (.ofCensus census) marks [] =
        .ok enclosed := by
  obtain ⟨starts, ordered, rest⟩ := bind_eq_ok_iff.mp returned
  have sub := orderedMarkerStarts_sublist ordered
  have all : ∀ mark ∈ offsets, (mark : Int) ∈ starts := by
    intro mark given
    rcases mem_orderedMarkerStarts (List.mem_map_of_mem given) ordered with kept | before
    · exact kept
    · cases before
  split at rest
  next first last head tail =>
    split at rest
    · cases rest
    obtain ⟨census, counted, passed⟩ := bind_eq_ok_iff.mp rest
    refine ⟨starts.map Int.toNat, last.toNat, census, ?_, ?_, counted, passed⟩
    · have mapped := sub.map Int.toNat
      simpa [List.map_map, Function.comp_def] using mapped
    · intro mark given
      exact List.mem_map.mpr ⟨mark, all mark given, Int.toNat_natCast mark⟩
  next none_found =>
    obtain ⟨mark, given⟩ := List.exists_mem_of_ne_nil offsets nonempty
    have some_start := all mark given
    have kept : starts ≠ [] := List.ne_nil_of_mem some_start
    exact absurd (List.getLast?_eq_some_getLast kept)
      (none_found _ _ (List.head?_eq_some_head kept))

/-- What the pass of a marker alone comes to. -/
theorem markerIsWithinQuoteOrBracket_of_pass {mark : Nat} {single : List Nat}
    (inside : mark < text.length) (counted : Census.take unicode text = .ok census)
    (passed : (Replay.scanner unicode text).collect mark text.length (.ofCensus census) [mark] [] =
      .ok single) :
    markerIsWithinQuoteOrBracket unicode text mark = .ok (single.contains mark) := by
  have starts : orderedMarkerStarts 0 none [(mark : Int)] = .ok [(mark : Int)] := rfl
  have reached : delimiterEnclosedMarkerStarts unicode text [(mark : Int)] = .ok single := by
    refine bind_eq_ok_iff.mpr ⟨_, starts, ?_⟩
    show (if (mark : Int) < 0 ∨ (text.length : Int) ≤ mark then _ else _) = _
    rw [if_neg (by omega)]
    exact bind_eq_ok_iff.mpr ⟨census, counted, passed⟩
  refine bind_eq_ok_iff.mpr ⟨single, reached, ?_⟩
  congr 1
  rw [Bool.eq_iff_iff, List.any_eq_true, List.contains_iff_mem]
  constructor
  · rintro ⟨start, member, same⟩
    obtain rfl : start = mark := by simpa [Int.natCast_inj] using same
    exact member
  · intro member
    exact ⟨mark, member, by simp⟩

/-- **Every marker of a batch gets the verdict of its own replay, and that replay returns.** -/
theorem mem_delimiterEnclosedMarkerStarts_iff (ordered : offsets.Pairwise (· ≤ ·))
    (brackets : ∀ mark ∈ offsets, text[mark]? = some '(' ∨ text[mark]? = some '[')
    (returned : delimiterEnclosedMarkerStarts unicode text (offsets.map Int.ofNat) = .ok enclosed) :
    ∀ mark ∈ offsets, ∃ verdict, markerIsWithinQuoteOrBracket unicode text mark = .ok verdict ∧
      (mark ∈ enclosed ↔ verdict = true) := by
  intro mark given
  obtain ⟨marks, last, census, sub, all, counted, passed⟩ :=
    exists_pass (List.ne_nil_of_mem given) returned
  have visible : ∀ mark ∈ marks, text[mark]? ≠ some backtick := by
    intro mark member tick
    rcases brackets mark (sub.subset member) with paren | bracket
    · rw [tick] at paren
      exact absurd paren (by decide)
    · rw [tick] at bracket
      exact absurd bracket (by decide)
  have inside : mark < text.length := by
    rcases brackets mark given with paren | bracket
    · exact (List.getElem?_eq_some_iff.mp paren).1
    · exact (List.getElem?_eq_some_iff.mp bracket).1
  obtain ⟨single, alone, agrees⟩ := Scanner.collect_agrees (Replay.advances unicode text)
    (Replay.stopsAt visible) (ordered.sublist sub) (all mark given) rfl passed
  refine ⟨_, markerIsWithinQuoteOrBracket_of_pass inside counted alone, ?_⟩
  rw [agrees, List.contains_iff_mem]

/-- The ASCII part of the database. -/
def asciiUnicode : Unicode where
  isAlnum := isAsciiAlnum
  isUpper := isAsciiUpper
  isDigit := isAsciiDigit
  isDecimal := isAsciiDigit

/-- A marker inside a quotation and one behind it. -/
theorem mem_delimiterEnclosedMarkerStarts_quoted :
    (∃ verdict, markerIsWithinQuoteOrBracket asciiUnicode "“(a)” (b)".toList 1 = .ok verdict ∧
        (1 ∈ [1] ↔ verdict = true)) ∧
      ∃ verdict, markerIsWithinQuoteOrBracket asciiUnicode "“(a)” (b)".toList 6 = .ok verdict ∧
        (6 ∈ [1] ↔ verdict = true) := by
  have agrees := @mem_delimiterEnclosedMarkerStarts_iff asciiUnicode "“(a)” (b)".toList [1, 6] [1]
    (by decide) (by decide) (by rfl)
  exact ⟨agrees 1 (by decide), agrees 6 (by decide)⟩

end Batch

end AxiomEncode.Corpus
