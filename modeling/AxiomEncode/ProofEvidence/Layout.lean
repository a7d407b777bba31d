/-
# ProofEvidence.Layout -- what the guards see of a collapsed record

An occurrence of the evidence in a record has an image in the record with its whitespace
collapsed.  Beside the image stands what stood beside the occurrence, up to the length of the
runs of whitespace, so a guard that refuses the image refuses the occurrence: all but the two
against numbers that are grouped with spaces, which look one character far
(`contextIsBounded_image`).
-/
import AxiomEncode.ProofEvidence.Bounded
import AxiomEncode.Theory.Layout

namespace AxiomEncode.ProofEvidence

open Theory

set_option autoImplicit false

/-! ## The image of an occurrence -/

section Collapse

variable {front core back : Text} {c : Char}

theorem collapsed_collapseSpaces (text : Text) :
    Collapsed text (collapseSpacesFrom false text) ∧
      ∀ gap, gap ≠ [] → (∀ c ∈ gap, isSpace c = true) →
        Collapsed (gap ++ text) (' ' :: collapseSpacesFrom true text) := by
  induction text with
  | nil => exact ⟨.nil, fun gap nonempty blank => .run nonempty blank .nil⟩
  | cons c text ih =>
    obtain ⟨outside, inside⟩ := ih
    cases space : isSpace c with
    | true =>
      have longer (gap : Text) (blank : ∀ c ∈ gap, isSpace c = true) :
          Collapsed (gap ++ c :: text) (' ' :: collapseSpacesFrom true text) := by
        rw [← List.singleton_append, ← List.append_assoc]
        exact inside _ (List.append_ne_nil_of_right_ne_nil _ (List.cons_ne_nil _ _))
          (List.forall_mem_append.mpr ⟨blank, List.forall_mem_singleton.mpr space⟩)
      simp only [collapseSpacesFrom, space, if_true, Bool.false_eq_true, if_false]
      exact ⟨longer [] (List.forall_mem_nil _), fun gap _ blank => longer gap blank⟩
    | false =>
      simp only [collapseSpacesFrom, space, Bool.false_eq_true, if_false]
      exact ⟨.char space outside, fun gap nonempty blank => .run nonempty blank (.char space outside)⟩

/-- A visible character ends a run and begins none. -/
theorem collapseSpacesFrom_append (inRun : Bool) (front : Text) (visible : isSpace c = false)
    (back : Text) : collapseSpacesFrom inRun (front ++ c :: back) =
      collapseSpacesFrom inRun front ++ c :: collapseSpacesFrom false back := by
  induction front generalizing inRun with
  | nil => simp [collapseSpacesFrom, visible]
  | cons d front ih =>
    simp only [List.cons_append, collapseSpacesFrom, ih]
    split_ifs <;> rfl

/-- A text that begins and ends with a visible character. -/
structure Tight (core : Text) : Prop where
  nonempty : core ≠ []
  first : core.head?.any isSpace = false
  last : core.getLast?.any isSpace = false

theorem Tight.exists_first (tight : Tight core) : ∃ c rest, core = c :: rest ∧ isSpace c = false := by
  obtain ⟨c, rest, rfl⟩ := List.exists_cons_of_ne_nil tight.nonempty
  exact ⟨c, rest, rfl, tight.first⟩

theorem Tight.exists_last (tight : Tight core) : ∃ rest c, core = rest ++ [c] ∧ isSpace c = false := by
  have last := tight.last
  rw [List.getLast?_eq_getLast_of_ne_nil tight.nonempty] at last
  exact ⟨core.dropLast, core.getLast tight.nonempty,
    (List.dropLast_append_getLast tight.nonempty).symm, last⟩

theorem Tight.collapse_append (tight : Tight core) (front back : Text) :
    collapseSpacesFrom false (front ++ core ++ back) =
      collapseSpacesFrom false front ++ collapseSpacesFrom false core ++ collapseSpacesFrom false back := by
  obtain ⟨rest, d, isLast, visible⟩ := tight.exists_last
  have behind : collapseSpacesFrom false (front ++ core ++ back) =
      collapseSpacesFrom false (front ++ core) ++ collapseSpacesFrom false back := by
    rw [isLast, ← List.append_assoc, List.append_assoc, List.singleton_append,
      collapseSpacesFrom_append false _ visible, collapseSpacesFrom_append false _ visible,
      collapseSpacesFrom, List.append_assoc, List.singleton_append]
  obtain ⟨c, rest, rfl, visible⟩ := tight.exists_first
  rw [behind, collapseSpacesFrom_append false front visible, ← List.nil_append (c :: rest),
    collapseSpacesFrom_append false [] visible]
  rfl

theorem Tight.collapse (tight : Tight core) : Tight (collapseSpacesFrom false core) := by
  obtain ⟨rest, d, isLast, ends⟩ := tight.exists_last
  have last : (collapseSpacesFrom false core).getLast?.any isSpace = false := by
    rw [isLast, collapseSpacesFrom_append false rest ends, collapseSpacesFrom, List.getLast?_concat]
    exact ends
  obtain ⟨c, rest, rfl, begins⟩ := tight.exists_first
  have opened := collapseSpacesFrom_append false [] begins rest
  rw [List.nil_append, collapseSpacesFrom, List.nil_append] at opened
  exact ⟨by rw [opened]; exact List.cons_ne_nil _ _, by rw [opened]; exact begins, last⟩

theorem Tight.lstrip_append (tight : Tight core) (front back : Text) :
    lstrip (front ++ (core ++ back)) = lstrip front ++ (core ++ back) := by
  obtain ⟨c, rest, rfl, visible⟩ := tight.exists_first
  rw [lstrip, lstrip, List.dropWhile_append]
  split
  · next none_ =>
      rw [List.isEmpty_iff.mp none_, List.nil_append, List.cons_append,
        List.dropWhile_cons_of_neg (by simp [visible])]
  · rfl

theorem Tight.rstrip_append (tight : Tight core) (front back : Text) :
    rstrip (front ++ core ++ back) = front ++ core ++ rstrip back := by
  obtain ⟨rest, c, rfl, visible⟩ := tight.exists_last
  rw [rstrip, rstrip, List.rdropWhile, List.reverse_append, List.dropWhile_append]
  split
  · next none_ =>
      rw [List.rdropWhile, List.isEmpty_iff.mp none_, ← List.append_assoc, List.reverse_append,
        List.reverse_singleton, List.singleton_append, List.dropWhile_cons_of_neg (by simp [visible]),
        List.reverse_nil, List.append_nil, List.reverse_cons, List.reverse_reverse]
  · rw [List.reverse_append, List.reverse_reverse]
    rfl

theorem Tight.strip_append (tight : Tight core) (front back : Text) :
    strip (front ++ core ++ back) = lstrip front ++ core ++ rstrip back := by
  have stripped : strip (front ++ core ++ back) = rstrip (lstrip (front ++ core ++ back)) := rfl
  rw [stripped, List.append_assoc, tight.lstrip_append, ← List.append_assoc, tight.rstrip_append]

theorem Tight.normalizeSpaces_append (tight : Tight core) (front back : Text) :
    normalizeSpaces (front ++ core ++ back) =
      lstrip (collapseSpacesFrom false front) ++ collapseSpacesFrom false core ++
        rstrip (collapseSpacesFrom false back) := by
  rw [normalizeSpaces, tight.collapse_append, tight.collapse.strip_append]

end Collapse

/-! ## Beside an image -/

/-- What stands beside an image: the text that stands beside the occurrence, perhaps behind
whitespace that the evidence ends with, thinned. -/
def Beside (text thin : Text) : Prop :=
  ∃ gap : Text, (∀ c ∈ gap, isSpace c = true) ∧ Thins (gap ++ text) thin

section Beside

variable {text thin : Text} {p : Char → Bool}

theorem Beside.dropSpaces (beside : Beside text thin) : Thins (lstrip text) (lstrip thin) := by
  obtain ⟨gap, blank, thins⟩ := beside
  have dropped := thins.dropSpaces
  rwa [List.dropWhile_append_of_pos blank] at dropped

theorem Beside.head_dropWhile (beside : Beside text thin)
    (spaces : ∀ c, isSpace c = true → p c = true) :
    (text.dropWhile p).head? = (thin.dropWhile p).head? := by
  obtain ⟨gap, blank, thins⟩ := beside
  have same := thins.head_dropWhile spaces
  rwa [List.dropWhile_append_of_pos fun c member => spaces c (blank c member)] at same

/-- What begins with a visible character beside the image stands so beside the occurrence. -/
theorem Beside.thins_of_visible (beside : Beside text thin) (nonempty : thin ≠ [])
    (visible : thin.head?.any isSpace = false) : Thins text thin := by
  obtain ⟨gap, blank, thins⟩ := beside
  cases gap with
  | nil => exact thins
  | cons c gap =>
    have space : (c :: gap ++ text).head?.any isSpace = true := blank c List.mem_cons_self
    rcases thins.head_space space with none_ | other
    · exact absurd none_ nonempty
    · rw [visible] at other
      cases other

theorem Beside.head_any_of_thin (beside : Beside text thin)
    (solid : ∀ c, isSpace c = true → p c = false) (found : thin.head?.any p = true) :
    Thins text thin ∧ text.head?.any p = true := by
  cases thin with
  | nil => cases found
  | cons c thin =>
    have visible : isSpace c = false := by
      cases space : isSpace c with
      | false => rfl
      | true => exact found.symm.trans (solid c space)
    have thins := beside.thins_of_visible (List.cons_ne_nil _ _) visible
    exact ⟨thins, (thins.head_any solid).trans found⟩

theorem Beside.head_space (beside : Beside text thin) (space : text.head?.any isSpace = true) :
    thin = [] ∨ thin.head?.any isSpace = true := by
  obtain ⟨gap, blank, thins⟩ := beside
  refine thins.head_space ?_
  cases gap with
  | nil => exact space
  | cons c gap => exact blank c List.mem_cons_self

end Beside

/-- Where an occurrence in a record stands when both are collapsed: behind this. -/
def collapsedBefore (evidence before : Text) : Text :=
  lstrip (collapseSpacesFrom false (before ++ evidence.takeWhile isSpace))

section Image

variable {evidence before after : Text}

theorem blank_collapseSpaces {gap : Text} (blank : ∀ c ∈ gap, isSpace c = true) (inRun : Bool) :
    ∀ c ∈ collapseSpacesFrom inRun gap, isSpace c = true := by
  induction gap generalizing inRun with
  | nil => exact List.forall_mem_nil _
  | cons c gap ih =>
    rw [List.forall_mem_cons] at blank
    rw [collapseSpacesFrom, if_pos blank.1]
    split
    · exact ih blank.2 true
    · exact List.forall_mem_cons.mpr ⟨isSpace_space, ih blank.2 true⟩

theorem normalizeSpaces_of_blank (blank : ∀ c ∈ evidence, isSpace c = true) :
    normalizeSpaces evidence = [] :=
  strip_of_all (blank_collapseSpaces blank false)

theorem head_lstrip (text : Text) : (lstrip text).head?.any isSpace = false := by
  have stopped := List.head?_dropWhile_not isSpace text
  rw [lstrip]
  cases head : (text.dropWhile isSpace).head? with
  | none => rfl
  | some c =>
    rw [head] at stopped
    exact stopped

/-- Evidence that is not blank, between its whitespace. -/
theorem exists_core (visible : normalizeSpaces evidence ≠ []) :
    ∃ core gap, Tight core ∧ (∀ c ∈ gap, isSpace c = true) ∧
      evidence = evidence.takeWhile isSpace ++ core ++ gap ∧
      normalizeSpaces evidence = collapseSpacesFrom false core := by
  have nonempty : strip evidence ≠ [] := by
    intro none_
    refine visible (normalizeSpaces_of_blank fun c member => ?_)
    by_contra kept
    exact strip_ne_nil member (eq_false_of_ne_true kept) none_
  have cut : strip evidence ++ (lstrip evidence).rtakeWhile isSpace = lstrip evidence :=
    List.rdropWhile_append_rtakeWhile
  have blank : ∀ c ∈ (lstrip evidence).rtakeWhile isSpace, isSpace c = true := fun c member =>
    List.mem_takeWhile_imp (List.mem_reverse.mp member)
  have whole : evidence =
      evidence.takeWhile isSpace ++ strip evidence ++ (lstrip evidence).rtakeWhile isSpace := by
    rw [List.append_assoc, cut]
    exact List.takeWhile_append_dropWhile.symm
  have tight : Tight (strip evidence) := by
    refine ⟨nonempty, ?_, ?_⟩
    · have first := head_lstrip evidence
      rwa [← cut, List.head?_append_of_ne_nil _ nonempty] at first
    · rw [List.getLast?_eq_getLast_of_ne_nil nonempty]
      exact eq_false_of_ne_true (List.rdropWhile_last_not isSpace _ nonempty)
  refine ⟨strip evidence, _, tight, blank, whole, ?_⟩
  have front : lstrip (collapseSpacesFrom false (evidence.takeWhile isSpace)) = [] :=
    List.dropWhile_eq_nil_iff.mpr (blank_collapseSpaces (fun c => List.mem_takeWhile_imp) false)
  have back : rstrip (collapseSpacesFrom false ((lstrip evidence).rtakeWhile isSpace)) = [] :=
    List.rdropWhile_eq_nil_iff.mpr (blank_collapseSpaces blank false)
  conv_lhs => rw [whole]
  rw [tight.normalizeSpaces_append, front, back, List.nil_append, List.append_nil]

/-- **An occurrence has an image**: the collapsed evidence in the collapsed record, and what stands
beside it on both sides. -/
theorem exists_image (visible : normalizeSpaces evidence ≠ []) (before after : Text) :
    ∃ thinAfter, normalizeSpaces (before ++ evidence ++ after) =
        collapsedBefore evidence before ++ normalizeSpaces evidence ++ thinAfter ∧
      Beside before.reverse (collapsedBefore evidence before).reverse ∧ Beside after thinAfter := by
  obtain ⟨core, gap, tight, blank, whole, collapsed⟩ := exists_core visible
  have front : ∀ c ∈ evidence.takeWhile isSpace, isSpace c = true := fun c => List.mem_takeWhile_imp
  refine ⟨rstrip (collapseSpacesFrom false (gap ++ after)), ?_,
    ⟨(evidence.takeWhile isSpace).reverse, fun c member => front c (List.mem_reverse.mp member), ?_⟩,
    gap, blank, (collapsed_collapseSpaces _).1.thins⟩
  · rw [collapsed, collapsedBefore, ← tight.normalizeSpaces_append]
    conv_lhs => rw [whole]
    simp only [List.append_assoc]
  · have reversed := (collapsed_collapseSpaces (before ++ evidence.takeWhile isSpace)).1.reverse.thins
    rw [List.rdropWhile_reverse, List.reverse_append] at reversed
    exact reversed

/-- Collapsed evidence begins and ends with what the evidence begins and ends with. -/
theorem thins_normalizeSpaces (evidence : Text) : Thins (lstrip evidence) (normalizeSpaces evidence) :=
  (collapsed_collapseSpaces evidence).1.dropSpaces.thins

theorem tight_normalizeSpaces (visible : normalizeSpaces evidence ≠ []) :
    Tight (normalizeSpaces evidence) ∧
      (rstrip evidence).getLast? = (normalizeSpaces evidence).getLast? := by
  obtain ⟨core, gap, tight, blank, whole, collapsed⟩ := exists_core visible
  refine ⟨collapsed ▸ tight.collapse, ?_⟩
  obtain ⟨rest, c, isLast, ends⟩ := tight.exists_last
  conv_lhs => rw [whole]
  rw [tight.rstrip_append, rstrip, List.rdropWhile_eq_nil_iff.mpr blank, List.append_nil, collapsed,
    isLast, ← List.append_assoc, List.getLast?_concat, collapseSpacesFrom_append false rest ends,
    collapseSpacesFrom, List.getLast?_concat]

theorem Tight.lstrip_eq {core : Text} (tight : Tight core) : lstrip core = core := by
  have same := tight.lstrip_append [] []
  rwa [List.nil_append, List.append_nil] at same

theorem Tight.rstrip_eq {core : Text} (tight : Tight core) : rstrip core = core := by
  have same := tight.rstrip_append [] []
  rw [List.nil_append, List.append_nil] at same
  exact same.trans (List.append_nil core)

end Image

/-! ## The guards -/

section Guards

variable {unicode : UnicodeData} {evidence before after thin thinBefore thinAfter : Text}

theorem isDecimal_of_space (unicode : UnicodeData) :
    ∀ c, isSpace c = true → unicode.isDecimal c = false :=
  fun c space => (unicode.spaces c space).2.1

theorem isFormat_of_space (unicode : UnicodeData) :
    ∀ c, isSpace c = true → unicode.isFormat c = false :=
  fun c space => (unicode.spaces c space).2.2.1

theorem ne_of_space {c d : Char} (space : isSpace c = true) (visible : isSpace d = false) : c ≠ d := by
  rintro rfl
  rw [space] at visible
  cases visible

theorem isWord_of_space (unicode : UnicodeData) (c : Char) (space : isSpace c = true) :
    unicode.isWord c = false := by
  rw [UnicodeData.isWord, (unicode.spaces c space).1, Bool.false_or]
  exact decide_eq_false (ne_of_space space (by decide))

theorem isLetter_of_space (unicode : UnicodeData) (c : Char) (space : isSpace c = true) :
    unicode.isLetter c = false := by
  rw [UnicodeData.isLetter, (unicode.spaces c space).1, Bool.false_and, Bool.false_and]

theorem isConnectorCharacter_of_space (unicode : UnicodeData) (c : Char) (space : isSpace c = true) :
    isConnectorCharacter unicode c = false := by
  rw [isConnectorCharacter, space, Bool.not_true, Bool.false_and, Bool.false_and]

theorem isNumericSignMarker_space (unicode : UnicodeData) : isNumericSignMarker unicode ' ' = false := by
  rw [isNumericSignMarker, unicode.nfkc_space, unicode.name_space]
  decide

theorem isNumericSuffixMarker_space (unicode : UnicodeData) :
    isNumericSuffixMarker unicode ' ' = false := by
  rw [isNumericSuffixMarker, isCurrencyMarker, (unicode.spaces ' ' isSpace_space).2.2.2,
    unicode.name_space]
  decide

/-! ### Numbers at the edges of the evidence -/

theorem dropWhile_lstrip {p : Char → Bool} (spaces : ∀ c, isSpace c = true → p c = true) (text : Text) :
    (lstrip text).dropWhile p = text.dropWhile p := by
  have whole : text = text.takeWhile isSpace ++ lstrip text := List.takeWhile_append_dropWhile.symm
  conv_rhs => rw [whole]
  rw [List.dropWhile_append_of_pos fun c member => spaces c (List.mem_takeWhile_imp member)]

theorem evidenceBeginsWithNumericToken_normalizeSpaces :
    evidenceBeginsWithNumericToken unicode (normalizeSpaces evidence) =
      evidenceBeginsWithNumericToken unicode evidence := by
  have spaces : ∀ c, isSpace c = true → (isSpace c || isCurrencyMarker unicode c) = true :=
    fun c space => by rw [space, Bool.true_or]
  rw [evidenceBeginsWithNumericToken, evidenceBeginsWithNumericToken,
    ← (thins_normalizeSpaces evidence).head_dropWhile spaces, dropWhile_lstrip spaces]

theorem evidenceEndsWithNumericToken_normalizeSpaces (visible : normalizeSpaces evidence ≠ []) :
    evidenceEndsWithNumericToken unicode (normalizeSpaces evidence) =
      evidenceEndsWithNumericToken unicode evidence := by
  obtain ⟨tight, last⟩ := tight_normalizeSpaces visible
  rw [evidenceEndsWithNumericToken, evidenceEndsWithNumericToken, last, tight.rstrip_eq]

/-! ### On the left, read from the occurrence -/

/-- The guard on the left is the one on the right, on the reversed text. -/
theorem leftContextContinuesNumericToken_eq :
    leftContextContinuesNumericToken unicode before =
      rightContextContinuesNumericToken unicode before.reverse := by
  simp only [leftContextContinuesNumericToken, rightContextContinuesNumericToken, rstrip, lstrip,
    List.rdropWhile, List.rtakeWhile, List.reverse_reverse, List.getLast?_reverse, List.isEmpty_reverse,
    connectorsContinue, List.any_reverse, List.head?_reverse]

theorem Beside.continues (beside : Beside after thinAfter)
    (continues : rightContextContinuesNumericToken unicode thinAfter = true) :
    rightContextContinuesNumericToken unicode after = true := by
  have connectorSolid := isConnectorCharacter_of_space unicode
  have right := beside.dropSpaces
  have connectors := right.takeWhile connectorSolid
  have further := right.dropWhile connectorSolid
  have digit := further.dropSpaces.head_any (isDecimal_of_space unicode)
  simp only [rightContextContinuesNumericToken, Bool.and_eq_true, Bool.not_eq_true'] at continues ⊢
  obtain ⟨⟨some_, isDigit⟩, joined⟩ := continues
  refine ⟨⟨by rwa [connectors], digit.trans isDigit⟩, ?_⟩
  rw [connectors]
  have nonempty : thinAfter ≠ [] := by
    rintro rfl
    cases some_
  have separated : after.head?.any isSpace = true → thinAfter.head?.any isSpace = true :=
    fun space => (beside.head_space space).resolve_left nonempty
  have besideSpace : ((lstrip after).dropWhile (isConnectorCharacter unicode)).head?.any isSpace =
      ((lstrip thinAfter).dropWhile (isConnectorCharacter unicode)).head?.any isSpace := by
    refine Bool.eq_iff_iff.mpr ⟨fun space => ?_, further.head_space_of_thin⟩
    refine (further.head_space space).resolve_left fun none_ => ?_
    rw [none_] at isDigit
    cases isDigit
  rw [besideSpace]
  simp only [connectorsContinue, Bool.or_eq_true, Bool.and_eq_true, Bool.not_eq_true'] at joined ⊢
  refine joined.imp_left fun joined => joined.imp_left fun fused => ⟨?_, fused.2⟩
  cases space : after.head?.any isSpace with
  | false => rfl
  | true => exact (separated space).symm.trans fused.1

theorem Beside.omitsSign (beside : Beside before.reverse thinBefore.reverse) :
    leftContextOmitsNumericSign unicode thinBefore = leftContextOmitsNumericSign unicode before := by
  have same := beside.head_dropWhile (p := fun c =>
    isSpace c || unicode.isFormat c || isCurrencyMarker unicode c) fun c space => by
      rw [space, Bool.true_or, Bool.true_or]
  simp only [leftContextOmitsNumericSign, List.rdropWhile, List.getLast?_reverse, same]

/-! ### Parentheses -/

theorem collapseSpacesFrom_collapseSpacesFrom (inRun : Bool) (text : Text) :
    collapseSpacesFrom inRun (collapseSpacesFrom inRun text) = collapseSpacesFrom inRun text := by
  induction text generalizing inRun with
  | nil => rfl
  | cons c text ih =>
    cases space : isSpace c with
    | false => simp only [collapseSpacesFrom, space, Bool.false_eq_true, if_false, ih]
    | true =>
      cases inRun with
      | true => simp only [collapseSpacesFrom, space, if_true, ih]
      | false => simp only [collapseSpacesFrom, space, isSpace_space, if_true, Bool.false_eq_true,
          if_false, ih]

/-- Collapsed text is collapsed. -/
theorem normalizeSpaces_normalizeSpaces (visible : normalizeSpaces evidence ≠ []) :
    normalizeSpaces (normalizeSpaces evidence) = normalizeSpaces evidence := by
  obtain ⟨core, gap, tight, blank, whole, collapsed⟩ := exists_core visible
  have same := tight.collapse.normalizeSpaces_append [] []
  rw [List.nil_append, List.append_nil, collapseSpacesFrom_collapseSpacesFrom] at same
  rw [collapsed]
  exact same.trans (List.append_nil _)

theorem decimal_visible (unicode : UnicodeData) (c : Char) (decimal : unicode.isDecimal c = true) :
    isSpace c = false := by
  cases space : isSpace c with
  | false => rfl
  | true => exact decimal.symm.trans (isDecimal_of_space unicode c space)

theorem char_visible {d : Char} (visible : isSpace d = false) (c : Char) (same : (c == d) = true) :
    isSpace c = false := beq_iff_eq.mp same ▸ visible

/-- `\d{1,4}/\d{1,2}/\d{1,4}` -/
def datePattern (unicode : UnicodeData) : Regex :=
  .sequence [.between (.set unicode.isDecimal) 1 4, .char '/', .between (.set unicode.isDecimal) 1 2,
    .char '/', .between (.set unicode.isDecimal) 1 4]

/-- `-|[\u2010-\u2015]|to` -/
def dateJoinPattern : Regex :=
  .anyOf [.char '-', .set fun c => '\u2010' ≤ c && c ≤ '\u2015', .ignoringCase "to"]

theorem numericDateLabelPattern_eq (unicode : UnicodeData) :
    numericDateLabelPattern unicode = .sequence [.star (.set isSpace), datePattern unicode,
      .opt (.sequence [.star (.set isSpace), dateJoinPattern, .star (.set isSpace), datePattern unicode]),
      .star (.set isSpace)] := rfl

variable {space : Option Regex}

theorem blind_datePattern (unicode : UnicodeData) :
    Regex.Blind space (datePattern unicode) := by
  have digits : ∀ low high, Regex.Blind space (.between (.set unicode.isDecimal) low high) :=
    Regex.Blind.between (decimal_visible unicode)
  have slash : Regex.Blind space (.char '/') := .set (char_visible (by decide))
  refine .sequence ?_
  simp only [List.forall_mem_cons]
  exact ⟨digits 1 4, slash, digits 1 2, slash, digits 1 4, List.forall_mem_nil _⟩

theorem blind_dateJoinPattern : Regex.Blind space dateJoinPattern := by
  have dash : ∀ c : Char, (decide ('\u2010' ≤ c) && decide (c ≤ '\u2015')) = true → isSpace c = false := by
    intro c inside
    simp only [Bool.and_eq_true, decide_eq_true_eq, Char.le_def, UInt32.le_iff_toNat_le] at inside
    have low : 0x2010 ≤ c.toNat := inside.1
    have high : c.toNat ≤ 0x2015 := inside.2
    simp only [isSpace, Bool.or_eq_false_iff, Bool.and_eq_false_iff, decide_eq_false_iff_not,
      beq_eq_false_iff_ne, ne_eq]
    omega
  refine .anyOf ?_
  simp only [List.forall_mem_cons]
  exact ⟨.set (char_visible (by decide)), .set dash, .ignoringCase (by decide), List.forall_mem_nil _⟩

/-- The label of a date stays one. -/
theorem isNumericDateLabel_normalizeSpaces (label : isNumericDateLabel unicode evidence = true) :
    isNumericDateLabel unicode (normalizeSpaces evidence) = true := by
  have gap : Regex.Blind (some (.star (.set isSpace))) (.star (.set isSpace)) := .space rfl
  have date : Regex.Blind (some (.star (.set isSpace))) (datePattern unicode) :=
    blind_datePattern unicode
  have blind : Regex.Blind (some (.star (.set isSpace))) (numericDateLabelPattern unicode) := by
    rw [numericDateLabelPattern_eq]
    refine .sequence ?_
    simp only [List.forall_mem_cons]
    refine ⟨gap, date, .opt (.sequence ?_), gap, List.forall_mem_nil _⟩
    simp only [List.forall_mem_cons]
    exact ⟨gap, blind_dateJoinPattern, gap, date, List.forall_mem_nil _⟩
  exact blind.fullMatch ⟨evidence.takeWhile isSpace, _, List.takeWhile_append_dropWhile.symm,
    fun c => List.mem_takeWhile_imp, thins_normalizeSpaces evidence⟩ label

theorem Beside.parentheses (visible : normalizeSpaces evidence ≠ [])
    (left : Beside before.reverse thinBefore.reverse) (right : Beside after thinAfter)
    (omitted : spanOmitsAccountingParentheses unicode (normalizeSpaces evidence) thinBefore thinAfter =
      true) :
    spanOmitsAccountingParentheses unicode evidence before after = true := by
  obtain ⟨tight, last⟩ := tight_normalizeSpaces visible
  have opens := left.head_dropWhile (p := fun c => isSpace c || isCurrencyMarker unicode c)
    fun c space => by rw [space, Bool.true_or]
  have closes : (lstrip after).head? = (lstrip thinAfter).head? := right.head_dropWhile fun _ => id
  have prose : isSubstantiveNumericProse unicode (normalizeSpaces evidence) =
      isSubstantiveNumericProse unicode evidence := by
    rw [isSubstantiveNumericProse, isSubstantiveNumericProse, normalizeSpaces_normalizeSpaces visible]
  simp only [spanOmitsAccountingParentheses, tight.rstrip_eq, ← last, List.rdropWhile,
    List.getLast?_reverse, opens, closes, prose] at omitted ⊢
  split at omitted
  · next parenthesis => rwa [if_pos parenthesis]
  · next parenthesis =>
      rw [if_neg parenthesis]
      split at omitted
      · cases omitted
      · next plain =>
          rw [Bool.or_eq_true, not_or] at plain
          rw [if_neg (by
            rw [Bool.or_eq_true, not_or]
            exact ⟨mt isNumericDateLabel_normalizeSpaces plain.1, plain.2⟩)]
          exact omitted

/-! ### Footnote markers -/

/-- The dollar amount of `dollarAmountPattern`, without the end of the text. -/
def dollarAmount (unicode : UnicodeData) : List Regex :=
  [.char '$', .set unicode.isDecimal, .star (.set fun c => unicode.isDecimal c || c = ','),
    .opt (.seq (.char '.') (.plus (.set unicode.isDecimal)))]

theorem dollarAmountPattern_eq (unicode : UnicodeData) :
    dollarAmountPattern unicode = .sequence (dollarAmount unicode ++ [.dollar]) := rfl

theorem blind_dollarAmount (unicode : UnicodeData) :
    Regex.Blind none (.sequence (dollarAmount unicode)) := by
  have decimal := decimal_visible unicode
  have amount : ∀ c, (unicode.isDecimal c || decide (c = ',')) = true → isSpace c = false := by
    intro c member
    rw [Bool.or_eq_true, decide_eq_true_eq] at member
    rcases member with digit | rfl
    · exact decimal c digit
    · decide
  refine .sequence ?_
  simp only [dollarAmount, List.forall_mem_cons]
  exact ⟨.set (char_visible (by decide)), .set decimal, .star amount,
    .opt (.seq (.set (char_visible (by decide))) (.seq (.set decimal) (.star decimal))),
    List.forall_mem_nil _⟩

theorem rstrip_dropLast (text : Text) : rstrip text.dropLast = (lstrip text.reverse.tail).reverse := by
  rw [rstrip, List.rdropWhile, ← List.tail_reverse]
  rfl

/-- A marker in front of an occurrence stands in front of its image. -/
theorem spanStartsAfterFusedFootnoteMarker_of_thins (visible : normalizeSpaces evidence ≠ [])
    (left : Thins before.reverse thinBefore.reverse)
    (marked : spanStartsAfterFusedFootnoteMarker unicode evidence before = true) :
    spanStartsAfterFusedFootnoteMarker unicode (normalizeSpaces evidence) thinBefore = true := by
  have letters := isLetter_of_space unicode
  have same := thins_normalizeSpaces evidence
  have words := same.wordsOf letters
  have sentence : ∀ c, isSpace c = true → (decide (c = '.') || decide (c = '!') || decide (c = '?')) = false := by
    intro c space
    simp only [decide_eq_false (ne_of_space space (by decide : isSpace '.' = false)),
      decide_eq_false (ne_of_space space (by decide : isSpace '!' = false)),
      decide_eq_false (ne_of_space space (by decide : isSpace '?' = false)), Bool.or_self]
  simp only [spanStartsAfterFusedFootnoteMarker, rstrip_dropLast, dollarAmountPattern_eq,
    List.getLast?_reverse, List.isEmpty_reverse, Bool.and_eq_true, decide_eq_true_eq,
    Bool.not_eq_true', (tight_normalizeSpaces visible).1.lstrip_eq] at marked ⊢
  obtain ⟨⟨⟨⟨the, many⟩, marker⟩, some_⟩, boundary⟩ := marked
  generalize before.reverse = text at left marker some_ boundary
  generalize thinBefore.reverse = thin at left ⊢
  match text with
  | [] | [_] => cases marker
  | last :: previous :: rest =>
    rw [Bool.and_eq_true] at marker
    have digit : isSpace last = false := Bool.not_eq_true' _ ▸ List.all_eq_true.mp
      (show ("123456789".toList.all fun c => !isSpace c) = true by decide) last
      (List.contains_iff_mem.mp marker.1)
    obtain ⟨thin, rfl, further⟩ := left.of_visible digit
    have context := further.dropSpaces
    obtain ⟨gap, others, rfl, isBlank⟩ : ∃ gap others, thin = gap :: others ∧
        isSpace gap = true := by
      rcases further.head_space marker.2 with rfl | space
      · have none_ : lstrip (previous :: rest) = [] := List.dropWhile_eq_nil_iff.mpr further.blank_of_nil
        rw [List.tail_cons, none_] at some_
        cases some_
      · cases thin with
        | nil => cases space
        | cons gap others => exact ⟨gap, others, rfl, space⟩
    rw [List.tail_cons] at some_ boundary
    refine ⟨⟨⟨⟨?_, ?_⟩, ?_⟩, ?_⟩, ?_⟩
    · rw [← the]
      exact (same.takeWhile letters).symm
    · rw [Theory.wordsOf, Theory.wordsOf] at words
      rwa [← words]
    · rw [Bool.and_eq_true]
      exact ⟨marker.1, isBlank⟩
    · refine List.isEmpty_eq_false_iff.mpr fun none_ => ?_
      rw [List.tail_cons] at none_
      have blank := (none_ ▸ context : Thins (lstrip (previous :: rest)) []).blank_of_nil
      obtain ⟨c, kept, isCons⟩ := List.exists_cons_of_ne_nil (List.isEmpty_eq_false_iff.mp some_)
      have stopped := head_lstrip (previous :: rest)
      rw [isCons] at stopped
      exact Bool.false_ne_true (stopped.symm.trans (blank c (isCons ▸ List.mem_cons_self)))
    · rw [Bool.or_eq_true] at boundary ⊢
      refine boundary.imp ?_ ?_
      · exact Regex.search_dollar_of_thins (blind_dollarAmount unicode) context (head_lstrip _)
      · exact (context.head_any sentence).symm.trans

/-! ### Signs and suffixes behind the evidence -/

theorem Beside.suffixMarker (beside : Beside after thinAfter)
    (marked : ((lstrip thinAfter).dropWhile unicode.isFormat).head?.any (isNumericSuffixMarker unicode) =
      true) :
    ((lstrip after).dropWhile unicode.isFormat).head?.any (isNumericSuffixMarker unicode) = true :=
  (beside.dropSpaces.dropWhile (isFormat_of_space unicode)).head_any_of_thin
    (isNumericSuffixMarker_space unicode) marked

theorem Beside.trailingSign (beside : Beside after thinAfter)
    (omitted : spanOmitsTrailingAccountingSign unicode thinAfter = true) :
    spanOmitsTrailingAccountingSign unicode after = true := by
  rw [spanOmitsTrailingAccountingSign, Bool.and_eq_true, Bool.not_eq_true'] at omitted ⊢
  have nonempty : thinAfter ≠ [] := by
    rintro rfl
    cases omitted.2
  have thins := beside.thins_of_visible nonempty omitted.1
  refine ⟨?_, (thins.dropWhile (isFormat_of_space unicode)).head_any_of_thin
    (isNumericSignMarker_space unicode) omitted.2⟩
  cases space : after.head?.any isSpace with
  | false => rfl
  | true => exact ((beside.head_space space).resolve_left nonempty).symm.trans omitted.1

/-- The wordings of `textualNumericSuffixPattern`. -/
def textualSuffixes : Regex :=
  let space : Regex := .plus (.set isSpace)
  .anyOf [.sequence [.ignoringCase "per", space, .ignoringCase "cent"],
    .sequence [.ignoringCase "percent", .opt (.ignoringCase "age"), .opt (.anyCase 's')],
    .sequence [.ignoringCase "per", space, .ignoringCase "mille"],
    .sequence [.ignoringCase "per", space, .ignoringCase "ten", space, .ignoringCase "thousand"],
    .sequence [.ignoringCase "basis", space, .seq (.ignoringCase "point") (.opt (.anyCase 's'))],
    .ignoringCase "bps"]

theorem textualNumericSuffixPattern_eq (unicode : UnicodeData) :
    textualNumericSuffixPattern unicode =
      .sequence [.star (.set isSpace), textualSuffixes, .boundary unicode.isWord] := rfl

theorem blind_textualSuffixes : Regex.Blind (some (.plus (.set isSpace))) textualSuffixes := by
  have word {w : String} (visible : Regex.isVisibleWord w = true) :
      Regex.Blind (some (.plus (.set isSpace))) (.ignoringCase w) := .ignoringCase visible
  have spaces : Regex.Blind (some (.plus (.set isSpace))) (.plus (.set isSpace)) := .space rfl
  have s : Regex.Blind (some (.plus (.set isSpace))) (.opt (.anyCase 's')) :=
    (word (w := "s") (by decide)).opt
  refine .anyOf ?_
  simp only [List.forall_mem_cons]
  refine ⟨?_, ?_, ?_, ?_, ?_, word (by decide), List.forall_mem_nil _⟩
  all_goals
    refine .sequence ?_
    simp only [List.forall_mem_cons]
  · exact ⟨word (by decide), spaces, word (by decide), List.forall_mem_nil _⟩
  · exact ⟨word (by decide), (word (by decide)).opt, s, List.forall_mem_nil _⟩
  · exact ⟨word (by decide), spaces, word (by decide), List.forall_mem_nil _⟩
  · exact ⟨word (by decide), spaces, word (by decide), spaces, word (by decide), List.forall_mem_nil _⟩
  · exact ⟨word (by decide), spaces, (word (by decide)).seq s, List.forall_mem_nil _⟩

theorem opens_textualSuffixes : Regex.Opens textualSuffixes := by
  have word {w : String} (nonempty : w.toList ≠ []) (visible : Regex.isVisibleWord w = true) :
      Regex.Opens (.ignoringCase w) := .ignoringCase nonempty visible
  refine .anyOf ?_
  simp only [List.forall_mem_cons]
  refine ⟨?_, ?_, ?_, ?_, ?_, word (by decide) (by decide), List.forall_mem_nil _⟩
  all_goals exact (word (by decide) (by decide)).sequence _

theorem Beside.textualSuffix (beside : Beside after thinAfter)
    (starts : rightContextStartsTextualNumericSuffix unicode thinAfter = true) :
    rightContextStartsTextualNumericSuffix unicode after = true := by
  obtain ⟨gap, blank, thins⟩ := beside
  rw [rightContextStartsTextualNumericSuffix, textualNumericSuffixPattern_eq] at starts ⊢
  have spaces : ∀ c, isSpace c = true →
      (if isSpace c || unicode.isFormat c || isHyphenMarker unicode c then ' ' else c) = ' ' := by
    intro c space
    rw [space, Bool.true_or, Bool.true_or, if_pos rfl]
  have blanked := thins.map spaces fun c _ => by
    split
    · exact .inr rfl
    · exact .inl rfl
  rw [List.map_append] at blanked
  refine Regex.matchAt_of_thins blind_textualSuffixes opens_textualSuffixes (isWord_of_space unicode)
    (fun c member => ?_) blanked starts
  obtain ⟨d, inside, rfl⟩ := List.mem_map.mp member
  rw [spaces d (blank d inside)]
  exact isSpace_space

/-! ### All guards -/

/-- The evidence quotes a part of a number that is grouped with spaces. -/
def CutsGroup (unicode : UnicodeData) (evidence before after : Text) : Prop :=
  (evidenceBeginsWithNumericToken unicode evidence = true ∧
    spanStartsInsideSpaceGroupedNumber unicode evidence before = true) ∨
  (evidenceEndsWithNumericToken unicode evidence = true ∧
    spanEndsInsideSpaceGroupedNumber unicode after = true)

/-- What a bounded span has got past. -/
theorem contextIsBounded_iff : contextIsBounded unicode evidence before after = true ↔
    (before.getLast?.any unicode.isWord = true →
      spanStartsAfterFusedFootnoteMarker unicode evidence before = true) ∧
    after.head?.any unicode.isWord = false ∧
    (evidenceBeginsWithNumericToken unicode evidence = true →
      leftContextOmitsNumericSign unicode before = false ∧
      leftContextContinuesNumericToken unicode before = false ∧
      spanOmitsAccountingParentheses unicode evidence before after = false) ∧
    (evidenceEndsWithNumericToken unicode evidence = true →
      ((lstrip after).dropWhile unicode.isFormat).head?.any (isNumericSuffixMarker unicode) = false ∧
      rightContextStartsTextualNumericSuffix unicode after = false ∧
      rightContextContinuesNumericToken unicode after = false) ∧
    spanOmitsTrailingAccountingSign unicode after = false ∧
    ¬ CutsGroup unicode evidence before after := by
  simp only [CutsGroup, ← Bool.not_eq_true]
  rw [contextIsBounded]
  split_ifs with word wordBehind begins ends <;>
    simp only [Bool.and_eq_true, Bool.or_eq_true, Bool.not_eq_true'] at *
  all_goals grind

/-- **The image of a bounded occurrence is bounded, but where it quotes a part of a number that is
grouped with spaces.** -/
theorem contextIsBounded_image (visible : normalizeSpaces evidence ≠ [])
    (left : Beside before.reverse thinBefore.reverse) (right : Beside after thinAfter)
    (bounded : contextIsBounded unicode evidence before after = true) :
    contextIsBounded unicode (normalizeSpaces evidence) thinBefore thinAfter = true ↔
      ¬ CutsGroup unicode (normalizeSpaces evidence) thinBefore thinAfter := by
  obtain ⟨word, wordBehind, begins, ends, sign, -⟩ := contextIsBounded_iff.mp bounded
  have notTrue {b : Bool} (absurd_ : b = true → False) : b = false := eq_false_of_ne_true absurd_
  have solid := isWord_of_space unicode
  rw [contextIsBounded_iff]
  refine ⟨fun all => all.2.2.2.2.2, fun whole => ⟨?word, ?wordBehind, ?begins, ?ends, ?sign, whole⟩⟩
  case word =>
    intro inWord
    rw [← List.head?_reverse] at inWord
    obtain ⟨thins, same⟩ := left.head_any_of_thin solid inWord
    rw [List.head?_reverse] at same
    exact spanStartsAfterFusedFootnoteMarker_of_thins visible thins (word same)
  case wordBehind =>
    refine notTrue fun inWord => ?_
    rw [(right.head_any_of_thin solid inWord).2] at wordBehind
    cases wordBehind
  case begins =>
    intro number
    rw [evidenceBeginsWithNumericToken_normalizeSpaces] at number
    obtain ⟨noSign, none_, noParentheses⟩ := begins number
    refine ⟨left.omitsSign.trans noSign, notTrue fun continues => ?_, notTrue fun omitted => ?_⟩
    · rw [leftContextContinuesNumericToken_eq] at continues none_
      rw [left.continues continues] at none_
      cases none_
    · rw [left.parentheses visible right omitted] at noParentheses
      cases noParentheses
  case ends =>
    intro number
    rw [evidenceEndsWithNumericToken_normalizeSpaces visible] at number
    obtain ⟨noMarker, noSuffix, none_⟩ := ends number
    refine ⟨notTrue fun marked => ?_, notTrue fun starts => ?_, notTrue fun continues => ?_⟩
    · rw [right.suffixMarker marked] at noMarker
      cases noMarker
    · rw [right.textualSuffix starts] at noSuffix
      cases noSuffix
    · rw [right.continues continues] at none_
      cases none_
  case sign =>
    refine notTrue fun omitted => ?_
    rw [right.trailingSign omitted] at sign
    cases sign

end Guards

end AxiomEncode.ProofEvidence
