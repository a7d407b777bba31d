/-
# ProofEvidence.SearchSpec -- when the search finds what is there

`Contains` is what the search is for: some record, with its whitespace collapsed, has a
bounded occurrence of the evidence.  It does not depend on the layout of the records
(`contains_relaid`).

The code differs from it in two ways.  It looks at reached occurrences only, so a bounded
one is lost behind an overlapping one that is not (`HiddenByOverlap`).  And it also takes a
record as it stands, where the guards against a number that is grouped with spaces look one
character far and miss what they see in the collapsed record (`BoundedByLayout`).
`searchIsExact_iff`: **the search is right in every layout just if neither happens in any.**
-/
import AxiomEncode.ProofEvidence.Search
import AxiomEncode.ProofEvidence.Layout
import AxiomEncode.Theory.Occurrences
import Mathlib.Data.List.Forall2

namespace AxiomEncode.ProofEvidence

open Theory

set_option autoImplicit false

/-! ## Layout -/

/-- The second text is the first with other runs of whitespace. -/
inductive Relaid : Text → Text → Prop
  | nil : Relaid [] []
  | char {c : Char} {first second : Text} (visible : isSpace c = false) (rest : Relaid first second) :
      Relaid (c :: first) (c :: second)
  | run {gap other first second : Text} (nonempty : gap ≠ []) (otherNonempty : other ≠ [])
      (blank : gap.all isSpace = true) (otherBlank : other.all isSpace = true)
      (rest : Relaid first second) : Relaid (gap ++ first) (other ++ second)

variable {gap rest first second other : Text}

theorem collapseSpacesFrom_blank (blank : gap.all isSpace = true) :
    collapseSpacesFrom true (gap ++ rest) = collapseSpacesFrom true rest := by
  induction gap with
  | nil => rfl
  | cons c gap ih =>
    rw [List.all_cons, Bool.and_eq_true] at blank
    rw [List.cons_append, collapseSpacesFrom, if_pos blank.1, if_pos rfl, ih blank.2]

theorem collapseSpacesFrom_run {inRun : Bool} (nonempty : gap ≠ [])
    (blank : gap.all isSpace = true) :
    collapseSpacesFrom inRun (gap ++ rest) =
      (if inRun then [] else [' ']) ++ collapseSpacesFrom true rest := by
  obtain ⟨c, gap, rfl⟩ := List.exists_cons_of_ne_nil nonempty
  rw [List.all_cons, Bool.and_eq_true] at blank
  rw [List.cons_append, collapseSpacesFrom, if_pos blank.1, collapseSpacesFrom_blank blank.2]
  cases inRun <;> rfl

theorem collapseSpacesFrom_relaid (relaid : Relaid first second) (inRun : Bool) :
    collapseSpacesFrom inRun first = collapseSpacesFrom inRun second := by
  induction relaid generalizing inRun with
  | nil => rfl
  | char visible rest ih =>
    rw [collapseSpacesFrom, collapseSpacesFrom, visible, if_neg Bool.false_ne_true,
      if_neg Bool.false_ne_true, ih]
  | run nonempty otherNonempty blank otherBlank rest ih =>
    rw [collapseSpacesFrom_run nonempty blank, collapseSpacesFrom_run otherNonempty otherBlank, ih]

theorem Relaid.refl (text : Text) : Relaid text text := by
  induction text with
  | nil => exact .nil
  | cons c text ih =>
    cases visible : isSpace c with
    | false => exact .char visible ih
    | true =>
      exact @Relaid.run [c] [c] _ _ (List.cons_ne_nil _ _) (List.cons_ne_nil _ _)
        (by simp [visible]) (by simp [visible]) ih

theorem normalizeSpaces_relaid (relaid : Relaid first second) :
    normalizeSpaces first = normalizeSpaces second := by
  rw [normalizeSpaces, normalizeSpaces, collapseSpacesFrom_relaid relaid]

/-- The records of the sources are the same but for their runs of whitespace. -/
def SameRecords (source other : Text) : Prop :=
  List.Forall₂ Relaid (splitProofEvidenceText source) (splitProofEvidenceText other)

theorem SameRecords.refl (source : Text) : SameRecords source source :=
  List.forall₂_same.mpr fun record _ => Relaid.refl record

theorem map_normalizeSpaces {source : Text} (same : SameRecords source other) :
    (splitProofEvidenceText source).map normalizeSpaces =
      (splitProofEvidenceText other).map normalizeSpaces := by
  have pointwise : List.Forall₂ (fun first second => normalizeSpaces first = normalizeSpaces second)
      (splitProofEvidenceText source) (splitProofEvidenceText other) :=
    List.Forall₂.imp (fun _ _ relaid => normalizeSpaces_relaid relaid) same
  exact List.forall₂_eq_eq_eq ▸ (List.forall₂_map_left_iff.mpr (List.forall₂_map_right_iff.mpr pointwise))

/-! ## What is searched for -/

section Search

variable (unicode : UnicodeData) (source evidence : Text)

/-- A bounded occurrence of a text in another. -/
def BoundedAt (needle hay : Text) (start : Nat) : Prop :=
  OccursAt needle hay start ∧
    sourceEvidenceSpanIsBounded unicode needle hay start (start + needle.length) = true

/-- Some record has a bounded occurrence of the evidence, both with their whitespace
collapsed. -/
def Contains : Prop :=
  normalizeSpaces evidence ≠ [] ∧
    ∃ record ∈ splitProofEvidenceText source, ∃ start,
      BoundedAt unicode (normalizeSpaces evidence) (normalizeSpaces record) start

/-- The collapsed records have bounded occurrences of the evidence, but an overlapping
occurrence runs into each of them, and so it is with the records as they stand. -/
def HiddenByOverlap : Prop :=
  (∃ record ∈ splitProofEvidenceText source, ∃ start,
    BoundedAt unicode (normalizeSpaces evidence) (normalizeSpaces record) start) ∧
  ∀ record ∈ splitProofEvidenceText source, ∀ start,
    (BoundedAt unicode (normalizeSpaces evidence) (normalizeSpaces record) start →
      Covered (normalizeSpaces evidence) (normalizeSpaces record) start) ∧
    (BoundedAt unicode evidence record start → Covered evidence record start)

/-- Where an occurrence of the evidence in a record stands when both are collapsed. -/
def imageStart (evidence record : Text) (start : Nat) : Nat :=
  (collapsedBefore evidence (record.take start)).length

/-- A text stands in another where it quotes a part of a number that is grouped with spaces. -/
def CutsGroupAt (needle hay : Text) (start : Nat) : Prop :=
  OccursAt needle hay start ∧
    CutsGroup unicode needle (hay.take start) (hay.drop (start + needle.length))

/-- An occurrence in a record as it stands is bounded, and its image quotes a part of a number that
is grouped with spaces.  No collapsed record has a bounded occurrence. -/
def BoundedByLayout : Prop :=
  (∃ record ∈ splitProofEvidenceText source, ∃ start,
    BoundedAt unicode evidence record start ∧ ¬ Covered evidence record start ∧
      CutsGroupAt unicode (normalizeSpaces evidence) (normalizeSpaces record)
        (imageStart evidence record start)) ∧
  ∀ record ∈ splitProofEvidenceText source, ∀ start,
    ¬ BoundedAt unicode (normalizeSpaces evidence) (normalizeSpaces record) start

/-- In every layout of the records the search says whether they contain the evidence. -/
def SearchIsExact : Prop :=
  ∀ other, SameRecords source other →
    (sourceContainsProofEvidence unicode other evidence = true ↔ Contains unicode source evidence)

variable {unicode source evidence} {needle hay : Text} {start : Nat}

/-- One pass finds the bounded occurrences that no other runs into. -/
theorem boundedSourceEvidenceMatch_iff (nonempty : needle ≠ []) :
    boundedSourceEvidenceMatch unicode needle hay = true ↔
      ∃ start, BoundedAt unicode needle hay start ∧ ¬ Covered needle hay start := by
  have visible : needle.isEmpty = false := List.isEmpty_eq_false_iff.mpr nonempty
  rw [boundedSourceEvidenceMatch, visible, Bool.not_false, Bool.true_and, List.any_eq_true]
  constructor
  · rintro ⟨m, found, bounded⟩
    obtain ⟨reached, ends⟩ :=
      (Regex.mem_finditer_literal nonempty m.start m.finish).mp ⟨m, found, rfl, rfl⟩
    rw [ends] at bounded
    obtain ⟨occurs, free⟩ := reached_iff_not_covered.mp reached
    exact ⟨m.start, ⟨occurs, bounded⟩, free⟩
  · rintro ⟨start, ⟨occurs, bounded⟩, free⟩
    obtain ⟨m, found, rfl, ends⟩ :=
      (Regex.mem_finditer_literal nonempty start (start + needle.length)).mpr
        ⟨reached_iff_not_covered.mpr ⟨occurs, free⟩, rfl⟩
    refine ⟨m, found, ?_⟩
    rw [ends]
    exact bounded

/-- Blank evidence says nothing. -/
theorem normalizeSpaces_nil : normalizeSpaces [] = [] := rfl

/-- What the code answers. -/
theorem sourceContainsProofEvidence_iff :
    sourceContainsProofEvidence unicode source evidence = true ↔
      normalizeSpaces evidence ≠ [] ∧ ∃ record ∈ splitProofEvidenceText source, ∃ start,
        (BoundedAt unicode (normalizeSpaces evidence) (normalizeSpaces record) start ∧
          ¬ Covered (normalizeSpaces evidence) (normalizeSpaces record) start) ∨
        (BoundedAt unicode evidence record start ∧ ¬ Covered evidence record start) := by
  rw [sourceContainsProofEvidence]
  by_cases blank : normalizeSpaces evidence = []
  · simp [blank]
  · have visible : evidence ≠ [] := by
      rintro rfl
      exact blank normalizeSpaces_nil
    simp only [List.isEmpty_iff, blank, if_false, List.any_eq_true, Bool.or_eq_true,
      boundedSourceEvidenceMatch_iff visible, boundedSourceEvidenceMatch_iff blank, ne_eq,
      not_false_eq_true, true_and]
    constructor
    · rintro ⟨record, member, ⟨start, found⟩ | ⟨start, found⟩⟩
      · exact ⟨record, member, start, Or.inr found⟩
      · exact ⟨record, member, start, Or.inl found⟩
    · rintro ⟨record, member, start, found | found⟩
      · exact ⟨record, member, Or.inr ⟨start, found⟩⟩
      · exact ⟨record, member, Or.inl ⟨start, found⟩⟩

/-- The layout of the records does not matter to what they contain. -/
theorem contains_relaid (same : SameRecords source other) :
    Contains unicode source evidence ↔ Contains unicode other evidence := by
  have collapsed := map_normalizeSpaces same
  have through : ∀ text : Text, Contains unicode text evidence ↔ normalizeSpaces evidence ≠ [] ∧
      ∃ record ∈ (splitProofEvidenceText text).map normalizeSpaces, ∃ start,
        BoundedAt unicode (normalizeSpaces evidence) record start := by
    intro text
    rw [Contains]
    refine and_congr_right fun _ => ?_
    simp only [List.mem_map, exists_exists_and_eq_and]
  rw [through, through, collapsed]

theorem take_parts (before needle after : Text) :
    (before ++ needle ++ after).take before.length = before := by
  rw [List.append_assoc, List.take_left]

theorem drop_parts (before needle after : Text) :
    (before ++ needle ++ after).drop (before.length + needle.length) = after := by
  rw [← List.length_append, List.drop_left]

/-- **The image of a bounded occurrence is bounded, but where it quotes a part of a number that is
grouped with spaces.** -/
theorem boundedAt_image {record : Text} (visible : normalizeSpaces evidence ≠ [])
    (bounded : BoundedAt unicode evidence record start) :
    BoundedAt unicode (normalizeSpaces evidence) (normalizeSpaces record)
        (imageStart evidence record start) ∨
      CutsGroupAt unicode (normalizeSpaces evidence) (normalizeSpaces record)
        (imageStart evidence record start) := by
  obtain ⟨occurs, bounded⟩ := bounded
  have nonempty : evidence ≠ [] := by
    rintro rfl
    exact visible normalizeSpaces_nil
  obtain ⟨before, after, rfl, rfl⟩ := occurs.exists_parts nonempty
  obtain ⟨thinAfter, image, left, right⟩ := exists_image visible before after
  have there : OccursAt (normalizeSpaces evidence) (normalizeSpaces (before ++ evidence ++ after))
      (collapsedBefore evidence before).length := image ▸ occursAt_parts _ _
  rw [sourceEvidenceSpanIsBounded, take_parts, drop_parts] at bounded
  have same := contextIsBounded_image visible left right bounded
  rw [imageStart, take_parts, BoundedAt, CutsGroupAt, sourceEvidenceSpanIsBounded]
  rw [image] at there ⊢
  rw [take_parts, drop_parts]
  by_cases cuts : CutsGroup unicode (normalizeSpaces evidence) (collapsedBefore evidence before) thinAfter
  · exact .inr ⟨there, cuts⟩
  · exact .inl ⟨there, same.mpr cuts⟩

/-- In one layout the search is right just if nothing bounded is hidden by an overlap, and
nothing bounded by its layout alone. -/
theorem search_iff_contains :
    (sourceContainsProofEvidence unicode source evidence = true ↔
        Contains unicode source evidence) ↔
      (normalizeSpaces evidence ≠ [] →
        ¬ HiddenByOverlap unicode source evidence ∧ ¬ BoundedByLayout unicode source evidence) := by
  rw [sourceContainsProofEvidence_iff, Contains]
  constructor
  · intro exact_ visible
    constructor
    · rintro ⟨⟨record, member, start, bounded⟩, covered⟩
      obtain ⟨-, other, inside, place, found | found⟩ :=
        exact_.mpr ⟨visible, record, member, start, bounded⟩
      · exact found.2 ((covered other inside place).1 found.1)
      · exact found.2 ((covered other inside place).2 found.1)
    · rintro ⟨⟨record, member, start, found, free, -⟩, unbounded⟩
      obtain ⟨-, other, inside, place, bounded⟩ :=
        exact_.mp ⟨visible, record, member, start, Or.inr ⟨found, free⟩⟩
      exact unbounded other inside place bounded
  · intro conditions
    constructor
    · rintro ⟨visible, record, member, start, found | found⟩
      · exact ⟨visible, record, member, start, found.1⟩
      · by_contra missing
        have unbounded : ∀ other ∈ splitProofEvidenceText source, ∀ place,
            ¬ BoundedAt unicode (normalizeSpaces evidence) (normalizeSpaces other) place :=
          fun other inside place bounded => missing ⟨visible, other, inside, place, bounded⟩
        have cuts := (boundedAt_image visible found.1).resolve_left (unbounded record member _)
        exact (conditions visible).2 ⟨⟨record, member, start, found.1, found.2, cuts⟩, unbounded⟩
    · rintro ⟨visible, record, member, start, bounded⟩
      by_contra missing
      refine (conditions visible).1 ⟨⟨record, member, start, bounded⟩, ?_⟩
      intro other inside place
      constructor
      · intro here
        by_contra free
        exact missing ⟨visible, other, inside, place, Or.inl ⟨here, free⟩⟩
      · intro here
        by_contra free
        exact missing ⟨visible, other, inside, place, Or.inr ⟨here, free⟩⟩

/-- Evidence whose end is not its beginning is never hidden. -/
theorem not_hiddenByOverlap
    (border : ∀ shift, 0 < shift → shift < (normalizeSpaces evidence).length →
      ¬ (normalizeSpaces evidence).drop shift <+: normalizeSpaces evidence) :
    ¬ HiddenByOverlap unicode source evidence := by
  rintro ⟨⟨record, member, start, bounded⟩, covered⟩
  exact not_covered border bounded.1 ((covered record member start).1 bounded)

/-- Evidence that neither begins nor ends with a number is not bounded by its layout. -/
theorem not_boundedByLayout_of_prose (visible : normalizeSpaces evidence ≠ [])
    (begins : evidenceBeginsWithNumericToken unicode evidence = false)
    (ends : evidenceEndsWithNumericToken unicode evidence = false) :
    ¬ BoundedByLayout unicode source evidence := by
  rintro ⟨⟨record, member, start, bounded, free, -, cuts⟩, -⟩
  rw [CutsGroup, evidenceBeginsWithNumericToken_normalizeSpaces,
    evidenceEndsWithNumericToken_normalizeSpaces visible, begins, ends] at cuts
  rcases cuts with ⟨no, -⟩ | ⟨no, -⟩ <;> cases no

/-- In collapsed records nothing is bounded by its layout. -/
theorem not_boundedByLayout (evidenceNormal : normalizeSpaces evidence = evidence)
    (normal : ∀ record ∈ splitProofEvidenceText source, normalizeSpaces record = record) :
    ¬ BoundedByLayout unicode source evidence := by
  rintro ⟨⟨record, member, start, bounded, -⟩, unbounded⟩
  apply unbounded record member start
  rw [evidenceNormal, normal record member]
  exact bounded

/-- **The search is right in every layout of the records just if in no layout a bounded
occurrence is hidden by an overlap or bounded by the layout alone.** -/
theorem searchIsExact_iff : SearchIsExact unicode source evidence ↔
    ∀ other, SameRecords source other → normalizeSpaces evidence ≠ [] →
      ¬ HiddenByOverlap unicode other evidence ∧ ¬ BoundedByLayout unicode other evidence := by
  refine forall₂_congr fun other same => ?_
  rw [contains_relaid same]
  exact search_iff_contains

end Search

/-- The names of the ASCII characters from the space to the commercial at, from the opening bracket
to the grave accent, and from the opening brace to the tilde. -/
def asciiNames : List (Nat × List String) :=
  [(0x20, ["SPACE", "EXCLAMATION MARK", "QUOTATION MARK", "NUMBER SIGN", "DOLLAR SIGN", "PERCENT SIGN",
      "AMPERSAND", "APOSTROPHE", "LEFT PARENTHESIS", "RIGHT PARENTHESIS", "ASTERISK", "PLUS SIGN",
      "COMMA", "HYPHEN-MINUS", "FULL STOP", "SOLIDUS", "DIGIT ZERO", "DIGIT ONE", "DIGIT TWO",
      "DIGIT THREE", "DIGIT FOUR", "DIGIT FIVE", "DIGIT SIX", "DIGIT SEVEN", "DIGIT EIGHT",
      "DIGIT NINE", "COLON", "SEMICOLON", "LESS-THAN SIGN", "EQUALS SIGN", "GREATER-THAN SIGN",
      "QUESTION MARK", "COMMERCIAL AT"]),
    (0x5B, ["LEFT SQUARE BRACKET", "REVERSE SOLIDUS", "RIGHT SQUARE BRACKET", "CIRCUMFLEX ACCENT",
      "LOW LINE", "GRAVE ACCENT"]),
    (0x7B, ["LEFT CURLY BRACKET", "VERTICAL LINE", "RIGHT CURLY BRACKET", "TILDE"])]

/-- `unicodedata.name(c, "")` of an ASCII character. -/
def asciiName (c : Char) : Text :=
  if c.isLower then "LATIN SMALL LETTER ".toList ++ [c.toUpper]
  else if c.isUpper then "LATIN CAPITAL LETTER ".toList ++ [c]
  else
    match asciiNames.find? fun block => block.1 ≤ c.toNat && c.toNat < block.1 + block.2.length with
    | some block => (block.2.getD (c.toNat - block.1) "").toList
    | none => []

theorem isAlphanum_of_space (c : Char) (space : isSpace c = true) :
    c.isAlphanum = false ∧ c.isDigit = false := by
  simp only [isSpace, Bool.or_eq_true, Bool.and_eq_true, decide_eq_true_eq, beq_iff_eq] at space
  have code : c.val.toNat = c.toNat := rfl
  have ends : 'A'.val.toNat = 65 ∧ 'Z'.val.toNat = 90 ∧ 'a'.val.toNat = 97 ∧ 'z'.val.toNat = 122 ∧
      '0'.val.toNat = 48 ∧ '9'.val.toNat = 57 := ⟨rfl, rfl, rfl, rfl, rfl, rfl⟩
  delta Char.isAlphanum Char.isAlpha Char.isUpper Char.isLower Char.isDigit
  simp only [ge_iff_le, UInt32.le_iff_toNat_le, code, ends, Bool.or_eq_false_iff,
    Bool.and_eq_false_iff, decide_eq_false_iff_not]
  omega

/-- The ASCII part of the database. -/
def asciiData : UnicodeData where
  isAlnum := fun c => c.isAlphanum
  isDecimal := fun c => c.isDigit
  isFormat := fun _ => false
  isCurrency := fun c => c = '$'
  nfkc := fun c => [c]
  name := asciiName
  spaces := fun c space => by
    obtain ⟨noLetter, noDigit⟩ := isAlphanum_of_space c space
    exact ⟨noLetter, noDigit, rfl, decide_eq_false (ne_of_space space (by decide))⟩
  nfkc_space := rfl
  name_space := by decide

/-- An overlapping occurrence hides the bounded one, and two spaces hide a digit from the
guard against a number quoted in part. -/
theorem search_misses_and_overreaches :
    ¬ SearchIsExact asciiData "xa a a".toList "a a".toList ∧
      ¬ SearchIsExact asciiData "5  100".toList "100".toList := by
  constructor
  · intro exact_
    have answer : sourceContainsProofEvidence asciiData "xa a a".toList "a a".toList = false := by
      decide
    have there : Contains asciiData "xa a a".toList "a a".toList :=
      ⟨by decide, "xa a a".toList, by decide, 3, by decide, by decide⟩
    rw [(exact_ _ (SameRecords.refl _)).mpr there] at answer
    cases answer
  · intro exact_
    have answer : sourceContainsProofEvidence asciiData "5  100".toList "100".toList = true := by
      decide
    obtain ⟨-, record, member, start, occurs, bounded⟩ := (exact_ _ (SameRecords.refl _)).mp answer
    have only : splitProofEvidenceText "5  100".toList = ["5  100".toList] := by decide
    rw [only, List.mem_singleton] at member
    subst member
    have short : start + 3 ≤ 5 := occurs.lt_length (by decide)
    have cases : start = 0 ∨ start = 1 ∨ start = 2 := by omega
    rcases cases with rfl | rfl | rfl
    · exact absurd occurs (by decide)
    · exact absurd occurs (by decide)
    · exact absurd bounded (by decide)

end AxiomEncode.ProofEvidence
