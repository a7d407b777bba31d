/-
# Statute.CitationSpec -- reading back what was written

The two forms of a citation are read back to its parts unless one of them holds the
letters `USC`, which the reader takes for the name of the code wherever they stand.
-/
import Mathlib
import AxiomEncode.Statute.Citation

namespace AxiomEncode.Statute

open Theory

set_option autoImplicit false

/-! ## Segments -/

/-- A title, section or fragment: characters of `[0-9A-Za-z.-]`, no step in a path. -/
def isSegment (segment : Text) : Bool :=
  segment ≠ [] && segment.all isSegmentChar && segment ≠ ['.'] && segment ≠ ['.', '.']

namespace CitationParts

/-- Title, section and fragments, in order. -/
def segments (parts : CitationParts) : List Text := parts.title :: parts.section_ :: parts.fragments

/-- A citation made of segments. -/
def Valid (parts : CitationParts) : Prop := ∀ segment ∈ parts.segments, isSegment segment = true

/-- Some segment holds the letters `USC`. -/
def MentionsUsc (parts : CitationParts) : Prop := ∃ segment ∈ parts.segments, mentionsUsc segment = true

/-- `<title> USC <section>(f1)…(fn)` -/
def text (parts : CitationParts) : Text :=
  parts.title ++ " USC ".toList ++
    (parts.section_ ++ parts.fragments.flatMap fun fragment => '(' :: (fragment ++ [')']))

theorem segments_injective : Function.Injective segments := by
  rintro ⟨title, section_, fragments⟩ ⟨title', section', fragments'⟩ same
  simpa [segments] using same

end CitationParts

variable {segment rest : Text} {c : Char} {before : Option Char}

theorem isSegment_iff :
    isSegment segment = true ↔ segment ≠ [] ∧ (∀ c ∈ segment, isSegmentChar c = true) ∧
      segment ≠ ['.'] ∧ segment ≠ ['.', '.'] := by
  simp [isSegment, and_assoc]

theorem toNat_lt_of_isSegmentChar (segment : isSegmentChar c = true) : c.toNat < 128 := by
  simp only [isSegmentChar, Char.isAlphanum, Char.isAlpha, Char.isUpper, Char.isLower, Char.isDigit,
    Bool.or_eq_true, Bool.and_eq_true, decide_eq_true_eq, beq_iff_eq] at segment
  obtain (((upper | lower) | digit) | rfl) | rfl := segment
  · exact lt_of_le_of_lt (UInt32.le_iff_toNat_le.mp upper.2) (by decide)
  · exact lt_of_le_of_lt (UInt32.le_iff_toNat_le.mp lower.2) (by decide)
  · exact lt_of_le_of_lt (UInt32.le_iff_toNat_le.mp digit.2) (by decide)
  · decide
  · decide

/-- A test of all the characters of segments. -/
theorem isSegmentChar_induction (P : Char → Bool)
    (all : ∀ n < 128, isSegmentChar (Char.ofNat n) = true → P (Char.ofNat n) = true)
    (segment : isSegmentChar c = true) : P c = true := by
  have small := toNat_lt_of_isSegmentChar segment
  have whole := Char.ofNat_toNat c
  rw [← whole] at segment ⊢
  exact all c.toNat small segment

theorem isSpace_of_isSegmentChar (segment : isSegmentChar c = true) :
    isSpace c = false := by
  have := isSegmentChar_induction (fun c => !isSpace c) (by decide) segment
  simpa using this

theorem normalize_of_isSegment (valid : isSegment segment = true) :
    normalizeRulespecPathSegment segment = segment := by
  have chars := (isSegment_iff.mp valid).2.1
  unfold normalizeRulespecPathSegment
  refine (List.map_congr_left fun c member => ?_).trans (List.map_id _)
  have plain := isSegmentChar_induction
    (fun c => !"\u2010\u2011\u2012\u2013\u2014\u2015\u2212\ufe58\ufe63\uff0d".toList.contains c)
    (by decide) (chars c member)
  rw [Bool.not_eq_true'] at plain
  rw [if_neg (by rw [plain]; decide)]
  rfl

/-- A character that no segment holds. -/
theorem not_mem_of_isSegment (valid : isSegment segment = true) (other : isSegmentChar c = false) :
    c ∉ segment := by
  intro member
  have := (isSegment_iff.mp valid).2.1 c member
  rw [this] at other
  cases other

/-! ## Stripping -/

/-- A text without what is stripped. -/
theorem stripChars_of_all {drop : Char → Bool} {text : Text} (none_ : ∀ c ∈ text, drop c = false) :
    stripChars drop text = text :=
  stripChars_eq_self (fun c first => none_ c (List.mem_of_head? first))
    fun c last => none_ c (List.mem_of_getLast? last)

/-! ## The letters of the code -/

theorem mentionsUsc_eq_true {text : Text} :
    mentionsUsc text = true ↔ ['U', 'S', 'C'] <:+: text.flatMap upper := by
  simp [mentionsUsc]

/-- Letters on either side of a separator are apart. -/
theorem mentionsUsc_append_cons {before after : Text} {separator : Char}
    (apart : upper separator = [separator]) (plain : separator ∉ ['U', 'S', 'C']) :
    mentionsUsc (before ++ separator :: after) = (mentionsUsc before || mentionsUsc after) := by
  rw [Bool.eq_iff_iff, Bool.or_eq_true, mentionsUsc_eq_true, mentionsUsc_eq_true,
    mentionsUsc_eq_true, List.flatMap_append, List.flatMap_cons, apart, List.singleton_append]
  constructor
  · intro found
    rw [List.infix_append_iff_ne_nil] at found
    obtain found | found | ⟨left, right, -, nonempty, whole, -, begins⟩ := found
    · exact .inl found
    · rw [List.infix_cons_iff] at found
      obtain ⟨rest, begins⟩ | found := found
      · rw [List.cons_append, List.cons.injEq] at begins
        exact absurd (begins.1 ▸ List.mem_cons_self) plain
      · exact .inr found
    · obtain ⟨c, tail, rfl⟩ := List.exists_cons_of_ne_nil nonempty
      obtain ⟨rest, begins⟩ := begins
      rw [List.cons_append, List.cons.injEq] at begins
      refine absurd ?_ plain
      rw [whole, ← begins.1]
      simp
  · rintro (found | found)
    · exact List.infix_append_of_infix_left found
    · exact List.infix_append_of_infix_right (List.infix_cons found)

theorem mentionsUsc_of_suffix {text : Text} (suffix : rest <:+ text)
    (mentions : mentionsUsc rest = true) : mentionsUsc text = true := by
  obtain ⟨before, rfl⟩ := suffix
  rw [mentionsUsc_eq_true] at mentions ⊢
  rw [List.flatMap_append]
  exact List.infix_append_of_infix_right mentions

/-- A text that begins with the letters mentions them. -/
theorem mentionsUsc_of_letters {u s : Char} (rest : Text) (isU : u = 'u' ∨ u = 'U')
    (isS : s = 's' ∨ s = 'S' ∨ s = 'ſ') (isC : c = 'c' ∨ c = 'C') :
    mentionsUsc (u :: s :: c :: rest) = true := by
  have upperU : upper u = ['U'] := by obtain rfl | rfl := isU <;> decide
  have upperS : upper s = ['S'] := by obtain rfl | rfl | rfl := isS <;> decide
  have upperC : upper c = ['C'] := by obtain rfl | rfl := isC <;> decide
  rw [mentionsUsc_eq_true, List.flatMap_cons, List.flatMap_cons, List.flatMap_cons, upperU, upperS,
    upperC]
  exact List.IsPrefix.isInfix ⟨_, rfl⟩

/-- Where the letters do not begin, one character is kept. -/
theorem dropUsc_cons
    (other : ∀ s d more, rest = s :: d :: more → (c = 'u' ∨ c = 'U') → (s = 's' ∨ s = 'S' ∨ s = 'ſ') →
      ¬ (d = 'c' ∨ d = 'C')) : dropUsc before (c :: rest) = c :: dropUsc (some c) rest := by
  match rest with
  | [] => rfl
  | [s] => rfl
  | s :: d :: more =>
    rw [dropUsc, if_neg]
    intro all
    simp only [Bool.and_eq_true, Bool.or_eq_true, beq_iff_eq] at all
    obtain ⟨⟨⟨⟨-, isU⟩, isS⟩, isC⟩, -⟩ := all
    exact other s d more rfl isU (by tauto) isC

theorem dropUsc_of_not_mentions {text : Text} (before : Option Char)
    (none_ : mentionsUsc text = false) : dropUsc before text = text := by
  induction text generalizing before with
  | nil => rfl
  | cons c rest ih =>
    have later : mentionsUsc rest = false := by
      by_contra found
      rw [Bool.not_eq_false] at found
      cases (mentionsUsc_of_suffix (List.suffix_cons c rest) found).symm.trans none_
    rw [dropUsc_cons, ih _ later]
    rintro s d more rfl isU isS isC
    cases (mentionsUsc_of_letters more isU isS isC).symm.trans none_

/-- The letters are looked for on either side of a blank. -/
theorem dropUsc_append_blank {text : Text} (before : Option Char) (after : Text)
    (none_ : mentionsUsc text = false) :
    dropUsc before (text ++ ' ' :: after) = text ++ ' ' :: dropUsc (some ' ') after := by
  induction text generalizing before with
  | nil =>
    rw [List.nil_append, List.nil_append, dropUsc_cons]
    rintro s d more - (bad | bad) <;> cases bad
  | cons c rest ih =>
    have later : mentionsUsc rest = false := by
      by_contra found
      rw [Bool.not_eq_false] at found
      cases (mentionsUsc_of_suffix (List.suffix_cons c rest) found).symm.trans none_
    rw [List.cons_append, List.cons_append, dropUsc_cons, ih _ later]
    intro s d more shape isU isS isC
    match rest, shape with
    | [], shape =>
      rw [List.nil_append, List.cons.injEq] at shape
      obtain ⟨rfl, -⟩ := shape
      rcases isS with bad | bad | bad <;> cases bad
    | [x], shape =>
      simp only [List.cons_append, List.nil_append, List.cons.injEq] at shape
      obtain ⟨-, rfl, -⟩ := shape
      rcases isC with bad | bad <;> cases bad
    | x :: y :: rest, shape =>
      simp only [List.cons_append, List.cons.injEq] at shape
      obtain ⟨rfl, rfl, -⟩ := shape
      cases (mentionsUsc_of_letters rest isU isS isC).symm.trans none_

theorem mem_of_mem_dropUsc {text : Text} (member : c ∈ dropUsc before text) : c ∈ text := by
  fun_induction dropUsc before text with
  | case1 => exact member
  | case2 => exact member
  | case3 => exact member
  | case4 before u s d rest all ih => simp [ih member]
  | case5 before u s d rest all ih =>
    rw [List.mem_cons] at member
    obtain rfl | member := member
    · exact List.mem_cons_self
    · exact List.mem_cons_of_mem _ (ih member)

/-! ## Blanks -/

/-- Text without spaces is copied, and ends a run. -/
theorem collapseSpaces_append {text : Text} (inRun : Bool) (after : Text) (nonempty : text ≠ [])
    (none_ : ∀ c ∈ text, isSpace c = false) :
    collapseSpaces inRun (text ++ after) = text ++ collapseSpaces false after := by
  induction text generalizing inRun with
  | nil => exact absurd rfl nonempty
  | cons c rest ih =>
    have here := none_ c List.mem_cons_self
    rw [List.cons_append, collapseSpaces, here, List.cons_append]
    by_cases last : rest = []
    · subst last
      rfl
    · rw [if_neg (by decide), ih false last fun d member => none_ d (List.mem_cons_of_mem _ member)]

theorem collapseSpaces_of_all {text : Text} (inRun : Bool) (none_ : ∀ c ∈ text, isSpace c = false) :
    collapseSpaces inRun text = text := by
  by_cases empty : text = []
  · subst empty
    rfl
  · have copied := collapseSpaces_append inRun [] empty none_
    rwa [List.append_nil, collapseSpaces, List.append_nil] at copied

/-! ## The tail of a citation -/

/-- `(f1)…(fn)` -/
def groups (fragments : List Text) : Text :=
  fragments.flatMap fun fragment => '(' :: (fragment ++ [')'])

theorem parseTail_group {text : Text} (group rest : Text) (none_ : ')' ∉ text)
    (nonempty : group ++ text ≠ []) :
    parseTail (some group) (text ++ ')' :: rest) =
      (parseTail none rest).map ((group ++ text) :: ·) := by
  induction text generalizing group with
  | nil =>
    rw [List.append_nil] at nonempty
    rw [List.nil_append, parseTail, if_pos rfl, if_neg nonempty, List.append_nil]
  | cons c text ih =>
    rw [List.mem_cons, not_or] at none_
    rw [List.cons_append, parseTail, if_neg (Ne.symm none_.1),
      ih (group ++ [c]) none_.2 (by simp), List.append_assoc]
    rfl

theorem parseTail_groups {fragments : List Text}
    (valid : ∀ fragment ∈ fragments, isSegment fragment = true) :
    parseTail none (groups fragments) = some fragments := by
  induction fragments with
  | nil => rfl
  | cons fragment rest ih =>
    have here := valid fragment List.mem_cons_self
    have nonempty : [] ++ fragment ≠ [] := (isSegment_iff.mp here).1
    have shape : groups (fragment :: rest) = '(' :: (fragment ++ ')' :: groups rest) := by
      simp [groups]
    rw [shape, parseTail, if_pos rfl, parseTail_group [] _
      (not_mem_of_isSegment here (by decide)) nonempty,
      ih fun other member => valid other (List.mem_cons_of_mem _ member)]
    rfl

/-- The characters of groups. -/
theorem mem_groups {fragments : List Text}
    (valid : ∀ fragment ∈ fragments, isSegment fragment = true) (member : c ∈ groups fragments) :
    c = '(' ∨ c = ')' ∨ isSegmentChar c = true := by
  obtain ⟨fragment, isFragment, here⟩ := List.mem_flatMap.mp member
  rw [List.mem_cons, List.mem_append, List.mem_singleton] at here
  obtain rfl | here | rfl := here
  · exact .inl rfl
  · exact .inr (.inr ((isSegment_iff.mp (valid fragment isFragment)).2.1 c here))
  · exact .inr (.inl rfl)

theorem mentionsUsc_groups {before : Text} (fragments : List Text) :
    mentionsUsc (before ++ groups fragments) =
      (mentionsUsc before || fragments.any mentionsUsc) := by
  induction fragments generalizing before with
  | nil => simp [groups]
  | cons fragment rest ih =>
    have shape : before ++ groups (fragment :: rest) =
        before ++ '(' :: (fragment ++ ')' :: groups rest) := by
      simp [groups]
    have blank : mentionsUsc ([] ++ groups rest) = rest.any mentionsUsc := by
      rw [ih]
      rfl
    rw [shape, mentionsUsc_append_cons (by decide) (by decide),
      mentionsUsc_append_cons (by decide) (by decide), List.any_cons, ← blank, List.nil_append]

/-! ## The two forms -/

def us : Text := ['u', 's']

def statute : Text := ['s', 't', 'a', 't', 'u', 't', 'e']

namespace CitationParts

variable {parts : CitationParts}

theorem Valid.title (valid : parts.Valid) : isSegment parts.title = true :=
  valid _ List.mem_cons_self

theorem Valid.section_ (valid : parts.Valid) : isSegment parts.section_ = true :=
  valid _ (List.mem_cons_of_mem _ List.mem_cons_self)

theorem Valid.fragments (valid : parts.Valid) :
    ∀ fragment ∈ parts.fragments, isSegment fragment = true := fun fragment member =>
  valid fragment (List.mem_cons_of_mem _ (List.mem_cons_of_mem _ member))

theorem mentionsUsc_iff : parts.MentionsUsc ↔ parts.segments.any mentionsUsc = true := by
  simp [MentionsUsc]

theorem text_eq : parts.text =
    parts.title ++ ' ' :: ('U' :: 'S' :: 'C' :: ' ' :: (parts.section_ ++ groups parts.fragments)) := by
  simp [CitationParts.text, groups]

/-- What follows the blank: the section and its groups. -/
theorem mem_rest (valid : parts.Valid) (member : c ∈ parts.section_ ++ groups parts.fragments) :
    c = '(' ∨ c = ')' ∨ isSegmentChar c = true := by
  obtain member | member := List.mem_append.mp member
  · exact .inr (.inr ((isSegment_iff.mp valid.section_).2.1 c member))
  · exact mem_groups valid.fragments member

theorem isSpace_rest (valid : parts.Valid) :
    ∀ c ∈ parts.section_ ++ groups parts.fragments, isSpace c = false := by
  intro c member
  obtain rfl | rfl | segment := mem_rest valid member
  · decide
  · decide
  · exact isSpace_of_isSegmentChar segment

/-- A test that every character of the text meets. -/
theorem all_text (valid : parts.Valid) {P : Char → Prop} (blank : P ' ') (opening : P '(')
    (closing : P ')') (segment : ∀ c, isSegmentChar c = true → P c) : ∀ c ∈ parts.text, P c := by
  intro c member
  rw [text_eq, List.mem_append] at member
  obtain member | member := member
  · exact segment c ((isSegment_iff.mp valid.title).2.1 c member)
  · simp only [List.mem_cons] at member
    obtain rfl | rfl | rfl | rfl | rfl | member := member
    · exact blank
    · exact segment _ (by decide)
    · exact segment _ (by decide)
    · exact segment _ (by decide)
    · exact blank
    · obtain rfl | rfl | isSegment := mem_rest valid member
      · exact opening
      · exact closing
      · exact segment c isSegment

theorem rest_ne_nil (valid : parts.Valid) : parts.section_ ++ groups parts.fragments ≠ [] := by
  have := (isSegment_iff.mp valid.section_).1
  simp [this]

/-- A text that ends with the section and its groups, after a title, is stripped. -/
theorem strip_title_rest (valid : parts.Valid) (middle : Text) :
    strip (parts.title ++ middle ++ (parts.section_ ++ groups parts.fragments)) =
      parts.title ++ middle ++ (parts.section_ ++ groups parts.fragments) := by
  refine stripChars_eq_self (fun c first => ?_) fun c last => ?_
  · obtain ⟨t, title, shape⟩ := List.exists_cons_of_ne_nil (isSegment_iff.mp valid.title).1
    rw [shape] at first
    obtain rfl := Option.some.inj first
    refine isSpace_of_isSegmentChar ((isSegment_iff.mp valid.title).2.1 t ?_)
    rw [shape]
    exact List.mem_cons_self
  · rw [List.getLast?_append_of_ne_nil _ (rest_ne_nil valid)] at last
    exact isSpace_rest valid c (List.mem_of_getLast? last)

/-- Text without a slash has no scheme. -/
theorem dropScheme_of_no_slash {text : Text} (none_ : '/' ∉ text) : dropScheme text = text := by
  unfold dropScheme
  rw [if_neg, if_neg]
  · intro begins
    exact none_ ((List.isPrefixOf_iff_prefix.mp begins).subset (by decide))
  · intro begins
    exact none_ ((List.isPrefixOf_iff_prefix.mp begins).subset (by decide))

/-- The words of the usual form, without the name of the code. -/
theorem words_text (valid : parts.Valid) (titlePlain : mentionsUsc parts.title = false)
    (restPlain : mentionsUsc (parts.section_ ++ groups parts.fragments) = false) :
    strip (collapseSpaces false (dropUsc none parts.text)) =
      parts.title ++ ' ' :: (parts.section_ ++ groups parts.fragments) := by
  have dropped : dropUsc none parts.text =
      parts.title ++ ' ' :: ' ' :: (parts.section_ ++ groups parts.fragments) := by
    rw [text_eq, dropUsc_append_blank none _ titlePlain, dropUsc, if_pos (by rfl), dropUsc_cons,
      dropUsc_of_not_mentions _ restPlain]
    rintro s d more - (bad | bad) <;> cases bad
  have titleChars : ∀ c ∈ parts.title, isSpace c = false := fun c member =>
    isSpace_of_isSegmentChar ((isSegment_iff.mp valid.title).2.1 c member)
  have collapsed : collapseSpaces false
      (parts.title ++ ' ' :: ' ' :: (parts.section_ ++ groups parts.fragments)) =
        parts.title ++ ' ' :: (parts.section_ ++ groups parts.fragments) := by
    rw [collapseSpaces_append false _ (isSegment_iff.mp valid.title).1 titleChars, collapseSpaces,
      if_pos (by decide), if_neg (by decide), collapseSpaces, if_pos (by decide), if_pos rfl,
      collapseSpaces_of_all true (isSpace_rest valid)]
  have stripped := strip_title_rest valid [' ']
  rw [List.append_assoc, List.singleton_append] at stripped
  rw [dropped, collapsed, stripped]

/-- The usual form is read back. -/
theorem parse_text (valid : parts.Valid) (plain : ¬ parts.MentionsUsc) :
    parseUscCitation parts.text = .ok parts := by
  rw [mentionsUsc_iff, segments, List.any_cons, List.any_cons, Bool.not_eq_true,
    Bool.or_eq_false_iff, Bool.or_eq_false_iff] at plain
  obtain ⟨titlePlain, sectionPlain, fragmentsPlain⟩ := plain
  have restPlain : mentionsUsc (parts.section_ ++ groups parts.fragments) = false := by
    rw [mentionsUsc_groups, sectionPlain, fragmentsPlain]
    rfl
  have stripped : strip parts.text = parts.text := by
    have := strip_title_rest valid (" USC ".toList)
    simpa [CitationParts.text, groups] using this
  have noSign : parts.text.filter (· ≠ '§') = parts.text := by
    refine List.filter_eq_self.mpr fun c member => ?_
    have ne : c ≠ '§' := all_text valid (P := fun c => c ≠ '§') (by decide) (by decide) (by decide)
      (fun c isSegment => by rintro rfl; exact absurd isSegment (by decide)) c member
    simpa using ne
  have noSlash : '/' ∉ parts.text := fun member =>
    all_text valid (P := fun c => c ≠ '/') (by decide) (by decide) (by decide)
      (fun c isSegment => by rintro rfl; exact absurd isSegment (by decide)) _ member rfl
  have noScheme : dropScheme parts.text = parts.text := dropScheme_of_no_slash noSlash
  have titleBlank : ∀ c ∈ parts.title, (c ≠ ' ') := fun c member => by
    rintro rfl
    exact not_mem_of_isSegment valid.title (by decide) member
  have restBlank : ∀ c ∈ parts.section_ ++ groups parts.fragments, c ≠ ' ' := fun c member => by
    rintro rfl
    cases isSpace_rest valid _ member
  have first : (parts.title ++ ' ' :: (parts.section_ ++ groups parts.fragments)).takeWhile (· ≠ ' ')
      = parts.title := by
    rw [List.takeWhile_append_of_pos fun c member => by simpa using titleBlank c member,
      List.takeWhile_cons_of_neg (by simp), List.append_nil]
  have remainder : ((parts.title ++ ' ' :: (parts.section_ ++ groups parts.fragments)).dropWhile
      (· ≠ ' ')).filter (· ≠ ' ') = parts.section_ ++ groups parts.fragments := by
    rw [List.dropWhile_append_of_pos fun c member => by simpa using titleBlank c member,
      List.dropWhile_cons_of_neg (by simp), List.filter_cons_of_neg (by simp)]
    exact List.filter_eq_self.mpr fun c member => by simpa using restBlank c member
  have sectionChars : ∀ c ∈ parts.section_, isSegmentChar c = true :=
    (isSegment_iff.mp valid.section_).2.1
  have groupsHead : ∀ c, (groups parts.fragments).head? = some c → isSegmentChar c = false := by
    intro c first
    cases shape : parts.fragments with
    | nil =>
      rw [shape] at first
      cases first
    | cons fragment rest =>
      rw [shape] at first
      obtain rfl := Option.some.inj first
      decide
  have isSection : (parts.section_ ++ groups parts.fragments).takeWhile isSegmentChar =
      parts.section_ := by
    rw [List.takeWhile_append_of_pos sectionChars]
    cases shape : groups parts.fragments with
    | nil => simp
    | cons c rest =>
      rw [List.takeWhile_cons_of_neg (by simp [groupsHead c (by rw [shape]; rfl)]),
        List.append_nil]
  have isTail : (parts.section_ ++ groups parts.fragments).dropWhile isSegmentChar =
      groups parts.fragments := by
    rw [List.dropWhile_append_of_pos sectionChars]
    cases shape : groups parts.fragments with
    | nil => rfl
    | cons c rest => rw [List.dropWhile_cons_of_neg (by simp [groupsHead c (by rw [shape]; rfl)])]
  have blank : (parts.title ++ ' ' :: (parts.section_ ++ groups parts.fragments)).contains ' ' =
      true := by simp
  have noSlash' : parts.text.contains '/' = false := by simpa using noSlash
  unfold parseUscCitation
  simp only [stripped, noSign, noScheme, noSlash', Bool.false_and, Bool.false_eq_true, if_false]
  unfold parseCitationText
  simp only [words_text valid titlePlain restPlain, blank, Bool.not_true, Bool.false_eq_true,
    if_false, remainder, isSection, isTail, parseTail_groups valid.fragments, first,
    if_neg (isSegment_iff.mp valid.section_).1]

/-! ## The slash path -/

theorem path_eq : citationToCitationPath parts = ['/'].intercalate (us :: statute :: parts.segments) := by
  have literal : "us/statute/".toList = us ++ ['/'] ++ statute ++ ['/'] := by decide
  unfold citationToCitationPath segments
  rw [literal]
  simp only [List.intercalate_cons_cons, List.append_assoc]

theorem mem_intercalate_slash {segments : List Text}
    (valid : ∀ segment ∈ segments, isSegment segment = true)
    (member : c ∈ ['/'].intercalate segments) : c = '/' ∨ isSegmentChar c = true := by
  obtain separator | ⟨segment, isSegment, here⟩ := mem_intercalate member
  · exact .inl separator
  · exact .inr ((isSegment_iff.mp (valid segment isSegment)).2.1 c here)

theorem mentionsUsc_intercalate (first : Text) (rest : List Text) :
    mentionsUsc (['/'].intercalate (first :: rest)) = (first :: rest).any mentionsUsc := by
  induction rest generalizing first with
  | nil => simp [List.intercalate]
  | cons second rest ih =>
    rw [List.intercalate_cons_cons, List.append_assoc, List.singleton_append,
      mentionsUsc_append_cons (by decide) (by decide), ih, List.any_cons, List.any_cons,
      List.any_cons]

/-- The segments of a path of segments. -/
theorem slashParts_intercalate {segments : List Text}
    (valid : ∀ segment ∈ segments, isSegment segment = true) (nonempty : segments ≠ []) :
    slashParts (['/'].intercalate segments) = segments := by
  unfold slashParts
  rw [List.splitOn_intercalate '/' (fun segment member =>
    not_mem_of_isSegment (valid segment member) (by decide)) nonempty]
  exact List.filter_eq_self.mpr fun segment member => by
    simpa using (isSegment_iff.mp (valid segment member)).1

/-- The path, as the segments that it is made of. -/
theorem valid_path (valid : parts.Valid) :
    ∀ segment ∈ us :: statute :: parts.segments, isSegment segment = true := by
  intro segment member
  rw [List.mem_cons, List.mem_cons] at member
  obtain rfl | rfl | member := member
  · decide
  · decide
  · exact valid segment member

theorem mem_path (valid : parts.Valid) (member : c ∈ citationToCitationPath parts) :
    c = '/' ∨ isSegmentChar c = true := by
  rw [path_eq] at member
  exact mem_intercalate_slash (valid_path valid) member

/-- The cleaned path is the path. -/
theorem cleaned_path (valid : parts.Valid) :
    dropScheme ((strip (citationToCitationPath parts)).filter (· ≠ '§')) =
      citationToCitationPath parts := by
  have stripped : strip (citationToCitationPath parts) = citationToCitationPath parts := by
    refine stripChars_of_all fun c member => ?_
    obtain rfl | segment := mem_path valid member
    · decide
    · exact isSpace_of_isSegmentChar segment
  have noSign : (citationToCitationPath parts).filter (· ≠ '§') = citationToCitationPath parts := by
    refine List.filter_eq_self.mpr fun c member => ?_
    obtain rfl | segment := mem_path valid member
    · decide
    · have ne : c ≠ '§' := by
        rintro rfl
        exact absurd segment (by decide)
      simpa using ne
  have noColon : ':' ∉ citationToCitationPath parts := fun member => by
    obtain bad | segment := mem_path valid member
    · exact absurd bad (by decide)
    · exact absurd segment (by decide)
  rw [stripped, noSign]
  unfold dropScheme
  rw [if_neg, if_neg]
  · intro begins
    exact noColon ((List.isPrefixOf_iff_prefix.mp begins).subset (by decide))
  · intro begins
    exact noColon ((List.isPrefixOf_iff_prefix.mp begins).subset (by decide))

theorem mentionsUsc_path :
    mentionsUsc (citationToCitationPath parts) = parts.segments.any mentionsUsc := by
  have plainUs : mentionsUsc us = false := by decide
  have plainStatute : mentionsUsc statute = false := by decide
  rw [path_eq, mentionsUsc_intercalate, List.any_cons, List.any_cons, plainUs, plainStatute,
    Bool.false_or, Bool.false_or]

theorem contains_slash_path : (citationToCitationPath parts).contains '/' = true := by
  rw [path_eq, List.intercalate_cons_cons]
  simp

/-- The slash path is read back. -/
theorem parse_path (valid : parts.Valid) (plain : ¬ parts.MentionsUsc) :
    parseUscCitation (citationToCitationPath parts) = .ok parts := by
  rw [mentionsUsc_iff, Bool.not_eq_true] at plain
  have segments_ : slashParts (citationToCitationPath parts) =
      us :: statute :: parts.segments := by
    rw [path_eq, slashParts_intercalate (valid_path valid) (List.cons_ne_nil _ _)]
  have rootless : dropRoot (us :: statute :: parts.segments) = parts.segments := by
    have isUs : "us".toList = us := by decide
    have isStatute : "statute".toList = statute := by decide
    unfold dropRoot
    rw [isUs, isStatute, if_pos (by simp only [List.take_succ_cons, List.take_zero, decide_true,
      Bool.true_or])]
    simp only [List.drop_succ_cons, List.drop_zero]
  unfold parseUscCitation
  simp only [cleaned_path valid, contains_slash_path, mentionsUsc_path, plain, Bool.not_false,
    Bool.and_true, if_true]
  unfold parseSlashPath
  rw [segments_, rootless]
  rfl

/-- With the letters `USC` in it the slash path is taken for the usual form, and has no blank. -/
theorem parse_path_of_mentions (valid : parts.Valid) (mentions : parts.MentionsUsc) :
    parseUscCitation (citationToCitationPath parts) =
      .error (couldNotParse (citationToCitationPath parts)) := by
  rw [mentionsUsc_iff] at mentions
  have noSpace : ∀ c ∈ dropUsc none (citationToCitationPath parts), isSpace c = false := by
    intro c member
    obtain rfl | segment := mem_path valid (mem_of_mem_dropUsc member)
    · decide
    · exact isSpace_of_isSegmentChar segment
  have noBlank : (dropUsc none (citationToCitationPath parts)).contains ' ' = false := by
    simp only [List.contains_eq_mem, decide_eq_false_iff_not]
    intro member
    exact absurd (noSpace ' ' member) (by decide)
  unfold parseUscCitation
  simp only [cleaned_path valid, contains_slash_path, mentionsUsc_path, mentions, Bool.not_true,
    Bool.and_false, Bool.false_eq_true, if_false]
  unfold parseCitationText
  rw [collapseSpaces_of_all false noSpace, show strip (dropUsc none (citationToCitationPath parts)) =
    dropUsc none (citationToCitationPath parts) from stripChars_of_all noSpace]
  simp only [noBlank, Bool.not_false, if_true]

/-- **Both forms are read back to the same parts** exactly if no segment holds `USC`. -/
theorem parse_both_iff (valid : parts.Valid) :
    (parseUscCitation parts.text = .ok parts ∧
      parseUscCitation (citationToCitationPath parts) = .ok parts) ↔ ¬ parts.MentionsUsc := by
  constructor
  · rintro ⟨-, path⟩ mentions
    cases path.symm.trans (parse_path_of_mentions valid mentions)
  · exact fun plain => ⟨parse_text valid plain, parse_path valid plain⟩

end CitationParts

end AxiomEncode.Statute
