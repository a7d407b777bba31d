/-
# Corpus.DelimitersInvariant -- the indexes of the delimiter stack

The replay never scans its stack: run lengths and two counters stand in for it.  `Indexed` says that they
are what a scan would give, and every branch of the loop keeps it (`Keeps`), so no branch pops an empty
stack or misses a counter.  What the prepass counted and the replay has not yet read is what lies
ahead (`expectedFrom`).
-/
import AxiomEncode.Corpus.DelimitersSpec

namespace AxiomEncode.Corpus

open Theory

set_option autoImplicit false

/-- The replay takes a character for a directional mark. -/
def isMark (unicode : Unicode) (text : Text) (character : Char) (index backslashes : Nat) : Bool :=
  isDirectional character && !(backslashes % 2 = 1) &&
    !(character = '’' &&
      isInsideWord unicode (lexicalPrevious text index backslashes) text[index + 1]?)

/-! ## The indexes of a stack -/

/-- How many frames on top have the pair of the top frame. -/
def topRun : List Frame → Nat
  | [] => 0
  | frame :: stack => (stack.takeWhile fun below => below.pair = frame.pair).length + 1

/-- The run on top of every part of a stack, from the whole stack down. -/
def runsOf : List Frame → List Nat
  | [] => []
  | frame :: stack => topRun (frame :: stack) :: runsOf stack

theorem topRun_le (stack : List Frame) : topRun stack ≤ stack.length := by
  cases stack with
  | nil => exact le_rfl
  | cons frame stack =>
    have within := (List.takeWhile_prefix (l := stack) fun below => below.pair = frame.pair).length_le
    rw [topRun, List.length_cons]
    omega

variable {below : Frame} {stack : List Frame} {census : Census}

theorem topRun_same {frame : Frame} (same : below.pair = frame.pair) :
    topRun (frame :: below :: stack) = topRun (below :: stack) + 1 := by
  simp only [topRun, List.takeWhile_cons, same, decide_true, if_true, List.length_cons]

theorem topRun_other {frame : Frame} (other : below.pair ≠ frame.pair) :
    topRun (frame :: below :: stack) = 1 := by
  simp [topRun, other]

theorem length_runsOf (stack : List Frame) : (runsOf stack).length = stack.length := by
  induction stack with
  | nil => rfl
  | cons frame stack ih => rw [runsOf, List.length_cons, List.length_cons, ih]

namespace Replay

/-- The run lengths and the counters are those of the stack. -/
structure Indexed (replay : Replay) : Prop where
  runs : replay.runLengths = runsOf replay.stack
  pairs : ∀ pair, replay.pairCounts pair = (replay.stack.map Frame.pair).count pair
  closings : ∀ token, replay.closingCounts token = (replay.stack.map Frame.closing).count token

/-- Nothing but the stack, its indexes and the verdict on the delimiters changes, and the indexes stay right;
the only error is that of the nesting depth. -/
def Keeps (before : Replay) : Except ReplayError Replay → Prop
  | .ok after => after.Indexed ∧ after.directionalRemaining = before.directionalRemaining ∧
      after.backslashRun = before.backslashRun
  | .error error => error ≠ .indexError ∧ error ≠ .keyError

section Moves

variable {replay before after : Replay} {frame : Frame} {token : Text}

theorem Indexed.keeps (indexed : replay.Indexed) : Keeps replay (.ok replay) := ⟨indexed, rfl, rfl⟩

theorem Indexed.malformed (indexed : replay.Indexed) :
    Keeps replay (.ok { replay with malformedDelimiters := true }) :=
  ⟨⟨indexed.runs, indexed.pairs, indexed.closings⟩, rfl, rfl⟩

theorem Keeps.of_same {result : Except ReplayError Replay} (keeps : Keeps before result)
    (remaining : before.directionalRemaining = replay.directionalRemaining)
    (backslashes : before.backslashRun = replay.backslashRun) : Keeps replay result := by
  cases result with
  | error error => exact keeps
  | ok after => exact ⟨keeps.1, keeps.2.1.trans remaining, keeps.2.2.trans backslashes⟩

theorem Keeps.bind {step : Except ReplayError Replay} {rest : Replay → Except ReplayError Replay}
    (keeps : Keeps before step) (onwards : ∀ after, after.Indexed → Keeps after (rest after)) :
    Keeps before (step >>= rest) := by
  cases step with
  | error error => exact keeps
  | ok after => exact (onwards after keeps.1).of_same keeps.2.1 keeps.2.2

variable (indexed : replay.Indexed)

include indexed

theorem Indexed.pushed (frame : Frame) :
    Keeps replay (.ok { replay with
      stack := frame :: replay.stack
      runLengths := topRun (frame :: replay.stack) :: replay.runLengths
      pairCounts := Function.update replay.pairCounts frame.pair (replay.pairCounts frame.pair + 1)
      closingCounts :=
        Function.update replay.closingCounts frame.closing (replay.closingCounts frame.closing + 1) }) := by
  refine ⟨⟨?_, fun pair => ?_, fun token => ?_⟩, rfl, rfl⟩
  · show topRun (frame :: replay.stack) :: replay.runLengths = runsOf (frame :: replay.stack)
    rw [indexed.runs, runsOf]
  · show Function.update replay.pairCounts frame.pair _ pair =
      ((frame :: replay.stack).map Frame.pair).count pair
    rw [Function.update_apply, List.map_cons, List.count_cons, indexed.pairs, indexed.pairs]
    by_cases same : pair = frame.pair
    · simp [same]
    · simp [same, Ne.symm same]
  · show Function.update replay.closingCounts frame.closing _ token =
      ((frame :: replay.stack).map Frame.closing).count token
    rw [Function.update_apply, List.map_cons, List.count_cons, indexed.closings, indexed.closings]
    by_cases same : token = frame.closing
    · simp [same]
    · simp [same, Ne.symm same]

/-- A frame on top of an indexed stack. -/
theorem Indexed.push (frame : Frame) : Keeps replay (replay.push frame) := by
  have pushed := indexed.pushed frame
  have runs := indexed.runs
  unfold Replay.push
  split_ifs with deep same
  · exact ⟨nofun, nofun⟩
  · cases stack : replay.stack with
    | nil => simp [tops, stack] at same
    | cons below rest =>
      have isSame : below.pair = frame.pair := by simpa [tops, stack] using same
      rw [stack, topRun_same isSame] at pushed
      rw [stack, runsOf] at runs
      rw [runs] at pushed ⊢
      exact pushed
  · cases stack : replay.stack with
    | nil =>
      rw [stack] at pushed
      exact pushed
    | cons below rest =>
      have other : below.pair ≠ frame.pair := by simpa [tops, stack] using same
      rw [stack, topRun_other other] at pushed
      exact pushed

/-- The top frame comes off a stack that is not empty. -/
theorem Indexed.popFrame (top : replay.stack = frame :: stack) :
    ∃ after, replay.popFrame = .ok (frame, after) ∧ after.stack = stack ∧ Keeps replay (.ok after) := by
  have runs := indexed.runs
  rw [top, runsOf] at runs
  have pairs (pair) : replay.pairCounts pair =
      (stack.map Frame.pair).count pair + if frame.pair = pair then 1 else 0 := by
    rw [indexed.pairs, top, List.map_cons, List.count_cons]
    simp
  have closings (token) : replay.closingCounts token =
      (stack.map Frame.closing).count token + if frame.closing = token then 1 else 0 := by
    rw [indexed.closings, top, List.map_cons, List.count_cons]
    simp
  have counted : ¬ (replay.pairCounts frame.pair = 0 ∨ replay.closingCounts frame.closing = 0) := by
    rw [pairs, closings, if_pos rfl, if_pos rfl]
    omega
  refine ⟨{ replay with
      stack, runLengths := runsOf stack
      pairCounts := Function.update replay.pairCounts frame.pair (replay.pairCounts frame.pair - 1)
      closingCounts :=
        Function.update replay.closingCounts frame.closing (replay.closingCounts frame.closing - 1) },
    ?_, rfl, ⟨⟨rfl, fun pair => ?_, fun token => ?_⟩, rfl, rfl⟩⟩
  · unfold Replay.popFrame
    simp only [top, runs, if_neg counted]
  · show Function.update replay.pairCounts frame.pair _ pair = _
    rw [Function.update_apply, pairs, pairs, if_pos rfl]
    by_cases same : pair = frame.pair
    · simp [same]
    · simp [same, Ne.symm same]
  · show Function.update replay.closingCounts frame.closing _ token = _
    rw [Function.update_apply, closings, closings, if_pos rfl]
    by_cases same : token = frame.closing
    · simp [same]
    · simp [same, Ne.symm same]

/-- As many frames come off as the stack has. -/
theorem Indexed.popFrames {count : Nat} (enough : count ≤ replay.stack.length) :
    Keeps replay (popFrames count replay) := by
  induction count generalizing replay with
  | zero => exact indexed.keeps
  | succ count ih =>
    obtain ⟨frame, stack, top⟩ := List.exists_cons_of_length_pos (l := replay.stack) (by omega)
    obtain ⟨after, popped, rest, keeps⟩ := indexed.popFrame top
    rw [Replay.popFrames, popped]
    refine (ih keeps.1 ?_).of_same keeps.2.1 keeps.2.2
    rw [top, List.length_cons] at enough
    rw [rest]
    omega

/-- A token that closes the top frame takes it off. -/
theorem Indexed.popClosing (closes : replay.closesWith token = true) :
    ∃ frame after, replay.popFrame = .ok (frame, after) ∧ Keeps replay (.ok after) := by
  cases stack : replay.stack with
  | nil => simp [closesWith, stack] at closes
  | cons frame rest =>
    obtain ⟨after, popped, -, keeps⟩ := indexed.popFrame stack
    exact ⟨frame, after, popped, keeps⟩

/-- What is popped at once is on the stack. -/
theorem Indexed.unmatchedSameFrames (character opening : Char) :
    ∃ count, replay.unmatchedSameFrames character opening = .ok count ∧ count ≤ replay.stack.length := by
  unfold Replay.unmatchedSameFrames
  cases stack : replay.stack with
  | nil =>
    rw [if_neg (by simp [tops, stack])]
    refine ⟨_, rfl, ?_⟩
    rw [List.length_nil]
    omega
  | cons frame rest =>
    have run : replay.runLengths.head? = some (topRun (frame :: rest)) := by
      rw [indexed.runs, stack]
      rfl
    have within := topRun_le (frame :: rest)
    split_ifs with same
    · rw [run]
      refine ⟨_, rfl, ?_⟩
      omega
    · refine ⟨_, rfl, ?_⟩
      omega

end Moves

/-! ## The branches of the loop -/

section Branches

variable {unicode : Unicode} {text : Text} {replay : Replay} {index : Nat} {character opening : Char}
  {previous following : Option Char}

variable (indexed : replay.Indexed)

include indexed

theorem Indexed.onBackticks : Keeps replay (replay.onBackticks text index) := by
  unfold Replay.onBackticks
  dsimp only
  split_ifs with closes
  · obtain ⟨frame, after, popped, keeps⟩ := indexed.popClosing closes
    rw [popped]
    exact keeps
  · exact indexed.push _

theorem Indexed.onBracketClosing : Keeps replay (replay.onBracketClosing character) := by
  unfold Replay.onBracketClosing
  split_ifs with closes crossed
  · obtain ⟨frame, after, popped, keeps⟩ := indexed.popClosing closes
    rw [popped]
    exact keeps
  · exact indexed.malformed
  · exact indexed.keeps

theorem Indexed.onDirectionalClosing :
    Keeps replay
      (replay.onDirectionalClosing unicode text index character opening previous following) := by
  unfold Replay.onDirectionalClosing
  split_ifs with closes ambiguous crossed
  · exact indexed.keeps
  · obtain ⟨frame, after, popped, keeps⟩ := indexed.popClosing closes
    rw [popped]
    show Keeps replay (if frame.opening = [opening] then _ else _)
    split_ifs with isSame
    · obtain ⟨count, unmatched, enough⟩ := keeps.1.unmatchedSameFrames character opening
      rw [unmatched]
      cases frame.continuation with
      | none => exact keeps
      | some kind =>
        show Keeps replay (if directionalCloseIsTerminal unicode text index kind then _ else _)
        split_ifs with terminal
        · exact (keeps.1.popFrames enough).of_same keeps.2.1 keeps.2.2
        · exact keeps
    · exact keeps
  · exact indexed.malformed
  · exact indexed.keeps

theorem Indexed.onSymmetric :
    Keeps replay (replay.onSymmetric unicode text index character previous following) := by
  unfold Replay.onSymmetric
  split_ifs with apostrophe
  · exact indexed.keeps
  extract_lets opens closes counted frame futureSurplus ambiguous
  have indexed' : counted.Indexed ∧ counted.directionalRemaining = replay.directionalRemaining ∧
      counted.backslashRun = replay.backslashRun := by
    have same := indexed
    unfold counted
    split_ifs
    · exact ⟨⟨same.runs, same.pairs, same.closings⟩, rfl, rfl⟩
    · exact ⟨⟨same.runs, same.pairs, same.closings⟩, rfl, rfl⟩
    · exact ⟨same, rfl, rfl⟩
  suffices Keeps counted _ from this.of_same indexed'.2.1 indexed'.2.2
  replace indexed := indexed'.1
  split_ifs with tops opensOnly internal crossed
  · exact indexed.push _
  · exact indexed.keeps
  · obtain ⟨frame, after, popped, keeps⟩ := indexed.popClosing tops
    rw [popped]
    exact keeps
  · exact indexed.malformed
  · exact indexed.push _
  · exact indexed.keeps

/-- One character costs at most one of the directional marks that were expected. -/
theorem Indexed.onCharacter :
    Keeps
      { replay with
        backslashRun := 0
        directionalRemaining :=
          if isMark unicode text character replay.index replay.backslashRun then
            addTo replay.directionalRemaining character (-1)
          else replay.directionalRemaining }
      (replay.onCharacter unicode text character) := by
  unfold Replay.onCharacter
  extract_lets index escaped previous following apostrophe read counted
  have indexed' : counted.Indexed := by
    unfold counted read
    split_ifs
    · exact ⟨indexed.runs, indexed.pairs, indexed.closings⟩
    · exact ⟨indexed.runs, indexed.pairs, indexed.closings⟩
  suffices Keeps counted _ by
    refine this.of_same ?_ ?_
    · show counted.directionalRemaining = if _ then _ else _
      unfold counted read
      rw [isMark]
      split_ifs <;> rfl
    · unfold counted read
      split_ifs <;> rfl
  split
  · exact indexed'.keeps
  split
  · exact indexed'.onBackticks
  cases quotePair character with
  | some closing => exact indexed'.push _
  | none =>
    cases directionalCloser character with
    | some opening =>
      dsimp only
      split
      · exact indexed'.keeps
      · exact indexed'.onDirectionalClosing
    | none =>
      dsimp only
      split
      · exact indexed'.onSymmetric
      cases bracketPair character with
      | some closing => exact indexed'.push _
      | none =>
        dsimp only
        split
        · exact indexed'.onBracketClosing
        · exact indexed'.keeps

end Branches

end Replay

/-! ## What lies ahead -/

section Ahead

variable (unicode : Unicode) (text : Text)

/-- The backslashes right before an index. -/
def backslashesBefore (index : Nat) : Nat := ((text.take index).reverse.takeWhile (· = '\\')).length

/-- The character at an index counts as a directional mark. -/
def isExpected (c : Char) (index : Nat) : Bool :=
  text[index]? = some c && isMark unicode text c index (backslashesBefore text index)

/-- The marks before an index that count. -/
def expectedBefore (c : Char) (index : Nat) : Nat := (List.range index).countP (isExpected unicode text c)

/-- The marks from an index on that count. -/
def expectedFrom (c : Char) (index : Nat) : Nat :=
  ((List.range text.length).drop index).countP (isExpected unicode text c)

variable {unicode text} {index : Nat} {c character : Char}

theorem backslashesBefore_succ (here : text[index]? = some character) :
    backslashesBefore text (index + 1) =
      if character = '\\' then backslashesBefore text index + 1 else 0 := by
  have inside : index < text.length := (List.getElem?_eq_some_iff.mp here).1
  have taken : text.take (index + 1) = text.take index ++ [character] := by
    rw [List.take_add_one, here]
    rfl
  rw [backslashesBefore, taken, List.reverse_append, List.reverse_singleton, List.singleton_append,
    List.takeWhile_cons]
  by_cases backslash : character = '\\'
  · simp [backslash, backslashesBefore]
  · simp [backslash]

theorem expectedBefore_succ :
    expectedBefore unicode text c (index + 1) =
      expectedBefore unicode text c index + if isExpected unicode text c index then 1 else 0 := by
  rw [expectedBefore, List.range_succ, List.countP_append, List.countP_singleton]
  rfl

theorem expectedBefore_add_from (unicode : Unicode) (text : Text) (c : Char) (within : index ≤ text.length) :
    expectedBefore unicode text c index + expectedFrom unicode text c index =
      expectedBefore unicode text c text.length := by
  have split : (List.range text.length).take index = List.range index := by
    rw [List.take_range, Nat.min_eq_left within]
  rw [expectedBefore, expectedFrom, ← split, ← List.countP_append, List.take_append_drop]
  rfl

/-- No mark counts among backticks. -/
theorem expectedBefore_of_backticks {stop : Nat} (later : index ≤ stop)
    (ticks : ∀ offset, index ≤ offset → offset < stop → text[offset]? = some backtick) :
    expectedBefore unicode text c stop = expectedBefore unicode text c index := by
  induction stop, later using Nat.le_induction with
  | base => rfl
  | succ stop later ih =>
    have tick := ticks stop later (Nat.lt_succ_self stop)
    have uncounted : isExpected unicode text c stop = false := by
      rw [isExpected, tick]
      by_cases same : backtick = c
      · subst same
        rfl
      · simp [same]
    rw [expectedBefore_succ, uncounted, ih fun offset from' before => ticks offset from' (by omega)]
    rfl

/-! ## The prepass -/

/-- What the prepass holds at an index. -/
structure Census.Counts (unicode : Unicode) (text : Text) (census : Census) (index : Nat) : Prop where
  backslashes : census.backslashRun = backslashesBefore text index
  directional : ∀ c, census.directionalRemaining c = expectedBefore unicode text c index

theorem addTo_apply (counter : Char → Int) (amount : Int) :
    addTo counter character amount c = counter c + if character = c then amount else 0 := by
  rw [addTo, Function.update_apply]
  by_cases same : c = character
  · simp [same]
  · simp [same, Ne.symm same]

theorem isExpected_here (here : text[index]? = some character) :
    isExpected unicode text c index =
      (character = c && isMark unicode text character index (backslashesBefore text index)) := by
  rw [isExpected, here]
  by_cases same : character = c
  · subst same
    simp
  · simp [same]

/-- What the prepass makes of one character. -/
theorem Census.count_spec {after : Census}
    (counted : census.count unicode text index character = .ok after) :
    after.backslashRun = (if character = '\\' then census.backslashRun + 1 else 0) ∧
      after.directionalRemaining =
        if isMark unicode text character index census.backslashRun then
          addTo census.directionalRemaining character 1
        else census.directionalRemaining := by
  unfold Census.count at counted
  by_cases backslash : character = '\\'
  · subst backslash
    rw [if_pos rfl] at counted
    cases counted
    exact ⟨rfl, rfl⟩
  · rw [if_neg backslash] at counted ⊢
    extract_lets escaped previous following counted' at counted
    have mark : isMark unicode text character index census.backslashRun =
        ((isDirectional character && !decide escaped) &&
          !(decide (character = '’') && isInsideWord unicode previous following)) := rfl
    have fields : counted'.backslashRun = 0 ∧
        counted'.directionalRemaining = census.directionalRemaining := ⟨rfl, rfl⟩
    clear_value counted'
    split at counted
    · cases counted
    split at counted
    next inWord =>
      cases counted
      rw [mark, inWord, Bool.not_true, Bool.and_false]
      exact fields
    next notInWord =>
      rw [Bool.not_eq_true] at notInWord
      rw [mark, notInWord, Bool.not_false, Bool.and_true]
      split at counted
      next marks =>
        cases counted
        rw [if_pos marks, fields.2]
        exact ⟨fields.1, rfl⟩
      next notMark =>
        have same : after.backslashRun = counted'.backslashRun ∧
            after.directionalRemaining = counted'.directionalRemaining := by
          split_ifs at counted <;> cases counted <;> exact ⟨rfl, rfl⟩
        rw [if_neg notMark, same.1, same.2]
        exact fields

theorem Census.Counts.count {after : Census} (counts : census.Counts unicode text index)
    (here : text[index]? = some character)
    (counted : census.count unicode text index character = .ok after) :
    after.Counts unicode text (index + 1) := by
  obtain ⟨backslashes, directional⟩ := Census.count_spec counted
  refine ⟨?_, fun c => ?_⟩
  · rw [backslashes, backslashesBefore_succ here, counts.backslashes]
  · rw [directional, expectedBefore_succ, isExpected_here here, counts.backslashes]
    by_cases mark : isMark unicode text character index (backslashesBefore text index) = true
    · rw [if_pos mark, addTo_apply, counts.directional, mark, Bool.and_true]
      by_cases same : character = c <;> simp [same]
    · rw [if_neg mark, counts.directional, (Bool.not_eq_true _).mp mark, Bool.and_false]
      simp

/-- A census continued over the characters of a text behind those counted. -/
theorem Census.Counts.continued {rest before : Text} {start : Census}
    (whole : text = before ++ rest) (counts : start.Counts unicode text before.length)
    (folded : (rest.zipIdx before.length).foldlM
      (fun census pair => census.count unicode text pair.2 pair.1) start = .ok census) :
    census.Counts unicode text text.length := by
  induction rest generalizing before start with
  | nil =>
    cases folded
    rw [whole, List.append_nil]
    rwa [whole, List.append_nil] at counts
  | cons character rest ih =>
    rw [List.zipIdx_cons, List.foldlM_cons, bind_eq_ok_iff] at folded
    obtain ⟨after, counted, folded⟩ := folded
    have here : text[before.length]? = some character := by
      rw [whole, List.getElem?_append_right le_rfl, Nat.sub_self]
      rfl
    refine @ih (before ++ [character]) after (by simpa using whole) ?_ ?_
    · rw [List.length_append]
      exact counts.count here counted
    · rw [List.length_append]
      exact folded

theorem Census.Counts.take (taken : Census.take unicode text = .ok census) :
    census.Counts unicode text text.length :=
  Census.Counts.continued (List.nil_append text).symm ⟨rfl, fun _ => rfl⟩ taken

end Ahead

/-! ## Every state of the replay -/

namespace Replay

section Reached

variable (unicode : Unicode) (text : Text)

/-- The states between the rounds of the loop. -/
inductive Reached : Replay → Prop
  | start {census : Census} (taken : Census.take unicode text = .ok census) : Reached (.ofCensus census)
  | step {replay next : Replay} (reached : Reached replay) (within : replay.index < text.length)
      (stepped : replay.step unicode text = .ok next) : Reached next

variable {unicode text} {replay next : Replay}

/-- What the replay still expects is what lies ahead of it. -/
structure Reads (unicode : Unicode) (text : Text) (replay : Replay) : Prop where
  within : replay.index ≤ text.length
  backslashes : replay.backslashRun = backslashesBefore text replay.index
  directional : ∀ c, replay.directionalRemaining c = expectedFrom unicode text c replay.index

theorem Reads.start (taken : Census.take unicode text = .ok census) :
    (ofCensus census).Reads unicode text := by
  have counts := Census.Counts.take taken
  refine ⟨Nat.zero_le _, rfl, fun c => ?_⟩
  have split := expectedBefore_add_from unicode text c (Nat.zero_le text.length)
  show census.directionalRemaining c = (expectedFrom unicode text c 0 : Int)
  rw [counts.directional, ← split]
  simp [expectedBefore]

/-- What is ahead of an index is what is ahead of the next one, and a mark at it. -/
theorem expectedFrom_eq (unicode : Unicode) (c : Char) {index : Nat} (within : index < text.length) :
    expectedFrom unicode text c index =
      (if isExpected unicode text c index then 1 else 0) + expectedFrom unicode text c (index + 1) := by
  have before := expectedBefore_add_from unicode text c (Nat.le_of_lt within)
  have behind := expectedBefore_add_from unicode text c (show index + 1 ≤ text.length from within)
  rw [expectedBefore_succ] at behind
  omega

theorem nextIndex_le (character : Char) (within : replay.index < text.length) :
    nextIndex text replay character ≤ text.length := by
  rw [nextIndex]
  split
  · have run := (List.takeWhile_prefix (l := text.drop (replay.index + 1)) (· = backtick)).length_le
    rw [List.length_drop] at run
    rw [backtickRunEnd]
    omega
  · exact within

/-- Before the next index there is no backslash. -/
theorem backslashesBefore_nextIndex {character : Char} (here : text[replay.index]? = some character)
    (notBackslash : character ≠ '\\') :
    backslashesBefore text (nextIndex text replay character) = 0 := by
  have later := lt_nextIndex text replay character
  obtain ⟨last, isLast⟩ : ∃ last, nextIndex text replay character = last + 1 :=
    ⟨nextIndex text replay character - 1, by omega⟩
  rw [isLast]
  rcases Nat.eq_or_lt_of_le (show replay.index ≤ last by omega) with rfl | behind
  · rw [backslashesBefore_succ here, if_neg notBackslash]
  · have tick := @backtick_of_lt_nextIndex text replay character last behind (by omega)
    rw [backslashesBefore_succ tick, if_neg (by decide)]

theorem expectedFrom_nextIndex {c character : Char} (within : replay.index < text.length) :
    expectedFrom unicode text c (nextIndex text replay character) =
      expectedFrom unicode text c (replay.index + 1) := by
  have later := lt_nextIndex text replay character
  have stop := nextIndex_le character within
  have same := @expectedBefore_of_backticks unicode text (replay.index + 1) c _ later
    fun offset from' before => backtick_of_lt_nextIndex from' before
  have before := expectedBefore_add_from unicode text c stop
  have behind := expectedBefore_add_from unicode text c
    (show replay.index + 1 ≤ text.length from within)
  omega

/-- **A round keeps the indexes, and reads on.** -/
theorem Indexed.step_ok (indexed : replay.Indexed) (reads : replay.Reads unicode text)
    (within : replay.index < text.length) (stepped : replay.step unicode text = .ok next) :
    next.Indexed ∧ next.Reads unicode text := by
  obtain ⟨character, here⟩ : ∃ character, text[replay.index]? = some character :=
    ⟨_, List.getElem?_eq_getElem within⟩
  rw [Replay.step, here] at stepped
  dsimp only at stepped
  split at stepped
  next backslash =>
    cases stepped
    refine ⟨⟨indexed.runs, indexed.pairs, indexed.closings⟩, within, ?_, fun c => ?_⟩
    · rw [backslashesBefore_succ here, if_pos backslash, ← reads.backslashes]
    · have unmarked : isExpected unicode text c replay.index = false := by
        rw [isExpected_here here, backslash]
        exact Bool.and_false _
      have ahead := expectedFrom_eq unicode c within
      rw [unmarked, if_neg Bool.false_ne_true, Nat.zero_add] at ahead
      rw [reads.directional, ahead]
  next notBackslash =>
    have keeps := @Indexed.onCharacter unicode text replay character indexed
    obtain ⟨after, result, moved⟩ := bind_eq_ok_iff.mp stepped
    rw [result] at keeps
    obtain ⟨indexed', directional, backslashes⟩ := keeps
    dsimp only at directional backslashes
    cases moved
    refine ⟨⟨indexed'.runs, indexed'.pairs, indexed'.closings⟩, nextIndex_le _ within, ?_, fun c => ?_⟩
    · rw [backslashes, backslashesBefore_nextIndex here notBackslash]
    · rw [directional, expectedFrom_nextIndex within]
      have ahead := expectedFrom_eq unicode c within
      rw [isExpected_here here, ← reads.backslashes] at ahead
      by_cases mark : isMark unicode text character replay.index replay.backslashRun = true
      · rw [if_pos mark, addTo_apply, reads.directional, ahead, mark, Bool.and_true]
        by_cases same : character = c
        · rw [if_pos same, decide_eq_true same, if_pos rfl]
          omega
        · rw [if_neg same, decide_eq_false same, if_neg Bool.false_ne_true]
          omega
      · rw [if_neg mark, reads.directional, ahead, (Bool.not_eq_true _).mp mark, Bool.and_false]
        simp

/-- **No round pops an empty stack or misses a counter.** -/
theorem Indexed.step_error (indexed : replay.Indexed) (within : replay.index < text.length)
    {error : ReplayError} (stepped : replay.step unicode text = .error error) :
    error ≠ .indexError ∧ error ≠ .keyError := by
  obtain ⟨character, here⟩ : ∃ character, text[replay.index]? = some character :=
    ⟨_, List.getElem?_eq_getElem within⟩
  rw [Replay.step, here] at stepped
  dsimp only at stepped
  split at stepped
  · cases stepped
  have keeps := @Indexed.onCharacter unicode text replay character indexed
  rcases bind_eq_error_iff.mp stepped with failed | ⟨after, -, moved⟩
  · rw [failed] at keeps
    exact keeps
  · cases moved

/-- Every state of the replay is indexed and has read what lies behind it. -/
theorem Reached.holds (reached : Reached unicode text replay) :
    replay.Indexed ∧ replay.Reads unicode text := by
  induction reached with
  | start taken => exact ⟨⟨rfl, fun pair => rfl, fun token => rfl⟩, Reads.start taken⟩
  | step reached within stepped ih => exact ih.1.step_ok ih.2 within stepped

/-- **At every round the run lengths, the counters and the marks still expected are those of the stack and
the text, and the round pops no empty stack.** -/
theorem reached_invariant (reached : Reached unicode text replay) :
    replay.runLengths.length = replay.stack.length ∧
      (∀ frame ∈ replay.stack.head?, replay.runLengths.head? = some (topRun replay.stack)) ∧
      (∀ pair, replay.pairCounts pair = (replay.stack.map Frame.pair).count pair) ∧
      (∀ token, replay.closingCounts token = (replay.stack.map Frame.closing).count token) ∧
      (∀ c, 0 ≤ replay.directionalRemaining c) ∧
      (∀ c, isExpected unicode text c replay.index = true → 0 < replay.directionalRemaining c) ∧
      (replay.index < text.length → ∀ error, replay.step unicode text = .error error →
        error ≠ .indexError ∧ error ≠ .keyError) := by
  obtain ⟨indexed, reads⟩ := reached.holds
  refine ⟨?_, fun frame isTop => ?_, indexed.pairs, indexed.closings, fun c => ?_, fun c expected => ?_,
    fun within error => indexed.step_error within⟩
  · rw [indexed.runs, length_runsOf]
  · obtain ⟨stack, isStack⟩ := List.head?_eq_some_iff.mp isTop
    rw [indexed.runs, isStack]
    rfl
  · rw [reads.directional]
    exact Int.natCast_nonneg _
  · have within : replay.index < text.length := by
      rw [isExpected, Bool.and_eq_true, decide_eq_true_eq] at expected
      exact (List.getElem?_eq_some_iff.mp expected.1).1
    rw [reads.directional, expectedFrom_eq _ _ within, if_pos expected]
    omega

/-- The replay after a number of rounds. -/
def afterRounds (unicode : Unicode) (text : Text) : Nat → Except ReplayError Replay
  | 0 => do
    let census ← Census.take unicode text
    .ok (.ofCensus census)
  | rounds + 1 => do
    let replay ← afterRounds unicode text rounds
    replay.step unicode text

theorem reached_afterRounds {rounds : Nat} (ran : afterRounds unicode text rounds = .ok replay) :
    Reached unicode text replay := by
  induction rounds generalizing replay with
  | zero =>
    obtain ⟨census, taken, start⟩ := bind_eq_ok_iff.mp ran
    cases start
    exact .start taken
  | succ rounds ih =>
    obtain ⟨before, earlier, stepped⟩ := bind_eq_ok_iff.mp ran
    refine .step (ih earlier) ?_ stepped
    by_contra past
    rw [Replay.step, List.getElem?_eq_none (by omega)] at stepped
    cases stepped

/-- A quotation that is opened again on each line, in a bracket. -/
def reopened : Text := "(“a\n“b\n“c”".toList

/-- Before the last mark the bracket and three openings are on the stack; the mark pops
all three. -/
theorem reached_invariant_reopened :
    ∃ before after : Replay, before.stack.length = 4 ∧ before.runLengths = [3, 2, 1, 1] ∧
      before.step asciiUnicode reopened = .ok after ∧ after.runLengths = [1] ∧
      after.runLengths.length = after.stack.length ∧
      after.pairCounts (['“'], ['”']) = (after.stack.map Frame.pair).count (['“'], ['”']) := by
  have rounds : (afterRounds asciiUnicode reopened 9).toOption.map
      (fun before => (before.stack.length, before.runLengths,
        (before.step asciiUnicode reopened).toOption.map Replay.runLengths)) =
      some (4, [3, 2, 1, 1], some [1]) := by
    decide +kernel
  obtain ⟨before, ran, shape⟩ := Option.map_eq_some_iff.mp rounds
  obtain ⟨after, stepped, left⟩ := Option.map_eq_some_iff.mp (congrArg (·.2.2) shape)
  have here := eq_ok_of_toOption stepped
  have later : Reached asciiUnicode reopened after := @reached_afterRounds _ _ _ 10 (by
    rw [afterRounds, eq_ok_of_toOption ran]
    exact here)
  obtain ⟨lengths, -, pairs, -⟩ := reached_invariant later
  exact ⟨before, after, congrArg (·.1) shape, congrArg (·.2.1) shape, here, left, lengths, pairs _⟩

end Reached

end Replay

end AxiomEncode.Corpus
