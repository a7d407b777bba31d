/-
# ProofEvidence.ReferenceWord -- markers that follow a reference word

`sourcePositionFollowsReferenceWord` walks back over markers, `(x)` or `x.`, to the word before them: a
position whose word is "section" or the like belongs to a reference.  With a cache it stops at a marker
that was answered before, and fills in every marker it passed.  `CharacterData` holds what Python takes from
its character database.
-/
import AxiomEncode.Theory.LinkedMemo
import AxiomEncode.Theory.PyText

namespace AxiomEncode.ProofEvidence

open Theory

set_option autoImplicit false

structure CharacterData where
  isAlpha : Char → Bool
  isLower : Char → Bool
  /-- `\d` of a pattern. -/
  isDecimal : Char → Bool
  /-- `str.lower` of a text. -/
  lower : List Char → List Char

def referenceWords : List (List Char) :=
  ["paragraph", "paragraphs", "subparagraph", "subparagraphs", "subsection", "subsections", "section",
    "sections", "clause", "clauses", "item", "items"].map String.toList

section Position

variable (data : CharacterData) (text : List Char)

/-- `index + 1`, where `index` is the last position before `start` that is no space, or `-1`. -/
def stopBefore (start : Nat) : Nat := ((text.take start).rdropWhile isSpace).length

/-- `text.rfind("(", 0, index)` -/
def lastOpening (index : Nat) : Option Nat :=
  (List.range index).reverse.find? fun i => text[i]? = some '('

/-- `re.fullmatch(r"(?:[a-z]|\d+)", marker)` -/
def isParenthesizedMarker (marker : List Char) : Bool :=
  (marker.length = 1 && marker.all fun c => 'a' ≤ c && c ≤ 'z') || (marker ≠ [] && marker.all data.isDecimal)

/-- The start of a marker `(x)` that ends at `index`. -/
def parenthesizedStart (index : Nat) : Option Nat :=
  if text[index]? = some ')' then
    (lastOpening text index).filter fun start =>
      isParenthesizedMarker data ((text.take index).drop (start + 1))
  else none

/-- The start of a marker `x.` that ends at `index`. -/
def dottedStart (index : Nat) : Option Nat :=
  if 1 ≤ index ∧ text[index]? = some '.' ∧
      text[index - 1]?.any (fun c => data.isLower c && data.isAlpha c) ∧
      (index < 2 ∨ ¬ text[index - 2]?.any data.isAlpha) then
    some (index - 1)
  else none

/-- The start of the marker before a position. -/
def markerBefore (start : Nat) : Option Nat :=
  match stopBefore text start with
  | 0 => none
  | index + 1 => (parenthesizedStart data text index).orElse fun _ => dottedStart data text index

/-- The word before a position is one of the reference words. -/
def followsWord (start : Nat) : Bool :=
  let stop := stopBefore text start
  let word := ((text.take stop).reverse.takeWhile data.isAlpha).reverse
  referenceWords.contains (data.lower word)

variable {data text} {start index marker : Nat}

theorem stopBefore_le (start : Nat) : stopBefore text start ≤ start := by
  have shorter := (List.rdropWhile_prefix isSpace (text.take start)).length_le
  rw [List.length_take] at shorter
  rw [stopBefore]
  omega

theorem lastOpening_lt (found : lastOpening text index = some marker) : marker < index := by
  have isMember := List.mem_of_find?_eq_some found
  rwa [List.mem_reverse, List.mem_range] at isMember

/-- **Markers lie before the positions they are found from.** -/
theorem markerBefore_lt (found : markerBefore data text start = some marker) : marker < start := by
  have within : stopBefore text start ≤ start := stopBefore_le start
  unfold markerBefore at found
  split at found
  · cases found
  next index stop =>
    rw [stop] at within
    cases parenthesized : parenthesizedStart data text index with
    | some first =>
      rw [parenthesized] at found
      obtain rfl : first = marker := Option.some.inj found
      unfold parenthesizedStart at parenthesized
      split_ifs at parenthesized
      have before := lastOpening_lt (Option.filter_eq_some_iff.mp parenthesized).1
      omega
    | none =>
      rw [parenthesized, Option.orElse_none] at found
      unfold dottedStart at found
      split_ifs at found with dotted
      have isFirst := Option.some.inj found
      omega

variable (data text)

/-- The markers before a position. -/
def markerChain : Chain Nat Bool where
  link := markerBefore data text
  last := followsWord data text
  rank := id
  descends := markerBefore_lt

/-- The positions that were answered. -/
abbrev ReferenceCache := Nat → Option Bool

/-- The answer and the cache after it; none where Python raises an `IndexError`, behind the text. -/
def sourcePositionFollowsReferenceWord (start : Nat) (cache : ReferenceCache) :
    Option (Bool × ReferenceCache) :=
  if start ≤ text.length ∨ (cache start).isSome then some ((markerChain data text).query cache start)
  else none

/-- The same call without a cache. -/
def followsUncached (start : Nat) : Option Bool :=
  if start ≤ text.length then some ((markerChain data text).walk (fun _ => none) start [start]).1
  else none

/-- Calls one after the other with one cache. -/
def sourcePositionsFollow : List Nat → ReferenceCache → List (Option Bool) × ReferenceCache
  | [], cache => ([], cache)
  | start :: starts, cache =>
    match sourcePositionFollowsReferenceWord data text start cache with
    | some (answer, cache) =>
      let (answers, cache) := sourcePositionsFollow starts cache
      (some answer :: answers, cache)
    | none =>
      let (answers, cache) := sourcePositionsFollow starts cache
      (none :: answers, cache)

variable {data text}

/-! ## Agreement -/

/-- The cache holds answers of positions in the text. -/
structure Answered (data : CharacterData) (text : List Char) (cache : ReferenceCache) : Prop where
  sound : (markerChain data text).Sound cache
  within : ∀ start, (cache start).isSome → start ≤ text.length

theorem followsUncached_eq (within : start ≤ text.length) :
    followsUncached data text start = some ((markerChain data text).resolve start) := by
  rw [followsUncached, if_pos within, (Chain.walk_spec Chain.sound_empty start [start]).1]

variable {cache : ReferenceCache}

theorem Answered.call (answered : Answered data text cache) (within : start ≤ text.length) :
    ∃ after, sourcePositionFollowsReferenceWord data text start cache =
        some ((markerChain data text).resolve start, after) ∧ Answered data text after := by
  obtain ⟨same, sound, filled⟩ := Chain.query_spec answered.sound start
  refine ⟨_, by rw [sourcePositionFollowsReferenceWord, if_pos (.inl within), ← same], sound, ?_⟩
  intro other kept
  rcases filled other kept with before | rfl | (isLower : other ≤ start)
  · exact answered.within other before
  · exact within
  · omega

theorem Answered.calls (answered : Answered data text cache) (starts : List Nat) :
    (sourcePositionsFollow data text starts cache).1 = starts.map (followsUncached data text) ∧
      Answered data text (sourcePositionsFollow data text starts cache).2 := by
  induction starts generalizing cache with
  | nil => exact ⟨rfl, answered⟩
  | cons start starts ih =>
    by_cases within : start ≤ text.length
    · obtain ⟨after, called, answered'⟩ := answered.call within
      obtain ⟨rest, last⟩ := ih answered'
      rw [sourcePositionsFollow, called, List.map_cons, followsUncached_eq within]
      exact ⟨congrArg _ rest, last⟩
    · have unknown : ¬ (cache start).isSome := fun known => within (answered.within start known)
      obtain ⟨rest, last⟩ := ih answered
      rw [sourcePositionsFollow, sourcePositionFollowsReferenceWord, if_neg (by simp [within, unknown]),
        List.map_cons, followsUncached, if_neg within]
      exact ⟨congrArg _ rest, last⟩

/-- **With one cache, empty at first, every call answers as without a cache, and after any calls every cached
position holds its uncached answer.** -/
theorem sourcePositionsFollow_agree (data : CharacterData) (text : List Char) (starts : List Nat) :
    (sourcePositionsFollow data text starts fun _ => none).1 = starts.map (followsUncached data text) ∧
      ∀ start answer, (sourcePositionsFollow data text starts fun _ => none).2 start = some answer →
        followsUncached data text start = some answer := by
  have empty : Answered data text fun _ => none := ⟨Chain.sound_empty, by simp⟩
  obtain ⟨answers, last⟩ := empty.calls starts
  refine ⟨answers, fun start answer kept => ?_⟩
  rw [last.sound start answer kept]
  exact followsUncached_eq (last.within start (by rw [kept]; rfl))

end Position

end AxiomEncode.ProofEvidence
