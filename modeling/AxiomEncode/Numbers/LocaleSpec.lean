/-
# Numbers.LocaleSpec -- the locale grammar, and the parser of it

`IsNumeral` is the grammar: a sign, an integer that is plain or in canonical groups of
three, a fraction, an exponent.  The parser accepts the grammar's texts and gives their
values; what it accepts besides is an integer whose first group is the lone digit `0`
(`ZeroLed`).  Every text that `format` writes is in the grammar.
-/
import AxiomEncode.Numbers.Locale
import Mathlib.Tactic.FieldSimp
import Mathlib.Tactic.Ring

namespace AxiomEncode.Numbers

open Theory

set_option autoImplicit false

/-! ## The grammar -/

/-- A sign, with the grouping spaces behind it. -/
inductive IsSign : List Char → ℚ → Prop where
  | none : IsSign [] 1
  | plus (gap : List Char) (spaces : ∀ c ∈ gap, c ∈ groupingSpaces) : IsSign ('+' :: gap) 1
  | minus (mark : Char) (gap : List Char) (isMinus : mark ∈ minusSigns)
      (spaces : ∀ c ∈ gap, c ∈ groupingSpaces) : IsSign (mark :: gap) (-1)

/-- A plain digit text, or a positive number in groups of three with one separator. -/
inductive IsInteger (profile : Profile) : List Char → Nat → Prop where
  | plain (digits : List Char) (isDigits : IsDigitText digits) :
      IsInteger profile digits (digitsValue digits)
  | grouped (separator : Char) (n : Nat) (allowed : separator ∈ profile.separators)
      (positive : 0 < n) : IsInteger profile ([separator].intercalate (groupsOf n)) n

inductive IsFraction (profile : Profile) : List Char → ℚ → Prop where
  | none : IsFraction profile [] 0
  | digits (digits : List Char) (isDigits : IsDigitText digits) :
      IsFraction profile (profile.decimalPoint :: digits) (digitsValue digits / 10 ^ digits.length)

inductive IsExponent : List Char → Int → Prop where
  | none : IsExponent [] 0
  | unsigned (mark : Char) (digits : List Char) (isMark : mark = 'E' ∨ mark = 'e')
      (isDigits : IsDigitText digits) : IsExponent (mark :: digits) (digitsValue digits)
  | plus (mark : Char) (digits : List Char) (isMark : mark = 'E' ∨ mark = 'e')
      (isDigits : IsDigitText digits) : IsExponent (mark :: '+' :: digits) (digitsValue digits)
  | minus (mark sign : Char) (digits : List Char) (isMark : mark = 'E' ∨ mark = 'e')
      (isMinus : sign ∈ minusSigns) (isDigits : IsDigitText digits) :
      IsExponent (mark :: sign :: digits) (-digitsValue digits)

inductive IsNumeral (profile : Profile) : List Char → ℚ → Prop where
  | mk (sign integer fraction exponent : List Char) (s : ℚ) (n : Nat) (f : ℚ) (e : Int)
      (isSign : IsSign sign s) (isInteger : IsInteger profile integer n)
      (isFraction : IsFraction profile fraction f) (isExponent : IsExponent exponent e) :
      IsNumeral profile (sign ++ (integer ++ fraction ++ exponent)) (s * (n + f) * 10 ^ e)

/-- What the parser reads: joiners removed for da-DK, grouping spaces stripped. -/
def trimmed (profile : Profile) (raw : List Char) : List Char :=
  stripChars (fun c => groupingSpaces.contains c) (withoutJoiners profile raw)

/-- The group `0`, with groups of three digits behind it. -/
inductive IsZeroGrouped (profile : Profile) : List Char → Prop where
  | mk (separator : Char) (groups : List (List Char)) (allowed : separator ∈ profile.separators)
      (more : groups ≠ []) (threes : ∀ group ∈ groups, IsDigitText group ∧ group.length = 3) :
      IsZeroGrouped profile ([separator].intercalate (['0'] :: groups))

/-- A numeral but for its integer, whose first group is `0`. -/
inductive ZeroLed (profile : Profile) : List Char → Prop where
  | mk (sign integer fraction exponent : List Char) (s : ℚ) (f : ℚ) (e : Int) (isSign : IsSign sign s)
      (isGrouped : IsZeroGrouped profile integer) (isFraction : IsFraction profile fraction f)
      (isExponent : IsExponent exponent e) :
      ZeroLed profile (sign ++ (integer ++ fraction ++ exponent))

/-! ## Characters -/

variable {profile : Profile} {c separator : Char}
  {text raw sign integer fraction exponent digits mantissa : List Char} {s value : ℚ} {n : Nat}
  {f : ℚ} {e : Int} {allowed : List Char}

theorem isDigit_iff : isDigit text = true ↔ IsDigitText text := by
  simp [isDigit, IsDigitText]

theorem isDigit_of_mem_unarySigns (member : c ∈ unarySigns) : c.isDigit = false := by
  simp only [unarySigns, List.mem_cons, List.not_mem_nil, or_false] at member
  rcases member with rfl | rfl | rfl | rfl <;> decide

theorem mem_unarySigns_of_minus (member : c ∈ minusSigns) : c ∈ unarySigns :=
  List.mem_cons_of_mem '+' member

theorem isDigit_of_mem_groupingSpaces (member : c ∈ groupingSpaces) : c.isDigit = false := by
  simp only [groupingSpaces, List.mem_cons, List.not_mem_nil, or_false] at member
  rcases member with rfl | rfl | rfl <;> decide

/-- A separator is no digit, no decimal point, no mark of an exponent and no line break. -/
theorem separator_facts (member : c ∈ profile.separators) :
    c.isDigit = false ∧ c ≠ profile.decimalPoint ∧ c ≠ 'E' ∧ c ≠ 'e' ∧ c ≠ '\n' := by
  cases profile <;>
    simp only [Profile.separators, groupingSpaces, danishGroupingSpaces, List.mem_cons,
      List.not_mem_nil, or_false] at member <;>
    rcases member with rfl | rfl | rfl | rfl <;> decide

theorem decimalPoint_facts (profile : Profile) :
    profile.decimalPoint.isDigit = false ∧ profile.decimalPoint ≠ 'E'
      ∧ profile.decimalPoint ≠ 'e' ∧ profile.decimalPoint ≠ '\n' := by
  cases profile <;> decide

theorem digit_ne (digit : c.isDigit = true) {d : Char} (other : d.isDigit = false) : c ≠ d := by
  rintro rfl
  rw [digit] at other
  cases other

/-! ## The integer -/

theorem IsInteger.exists_digit (isInteger : IsInteger profile integer n) :
    ∃ c rest, integer = c :: rest ∧ c.isDigit = true := by
  cases isInteger with
  | plain _ isDigits =>
    obtain ⟨c, rest, rfl⟩ := List.exists_cons_of_ne_nil isDigits.1
    exact ⟨c, rest, rfl, isDigits.2 c (by simp)⟩
  | grouped separator n _ positive =>
    obtain ⟨first, rest, cut, canonical⟩ := exists_groupsOf positive
    obtain ⟨c, tail, rfl⟩ := List.exists_cons_of_ne_nil canonical.firstDigits.1
    obtain ⟨others, same⟩ := exists_intercalate_cons separator (c :: tail) rest
    rw [cut, same]
    exact ⟨c, tail ++ others, rfl, canonical.firstDigits.2 c (by simp)⟩

theorem mem_groupsOf_digits {group : List Char} (positive : 0 < n) (member : group ∈ groupsOf n) :
    IsDigitText group := by
  obtain ⟨first, rest, cut, canonical⟩ := exists_groupsOf positive
  rw [cut] at member
  rcases List.mem_cons.mp member with rfl | member
  · exact canonical.firstDigits
  · exact canonical.restDigits group member

theorem IsInteger.mem (isInteger : IsInteger profile integer n) (member : c ∈ integer) :
    c.isDigit = true ∨ c ∈ profile.separators := by
  cases isInteger with
  | plain _ isDigits => exact .inl (isDigits.2 c member)
  | grouped separator n allowed positive =>
    rcases mem_intercalate member with rfl | ⟨group, inside, here⟩
    · exact .inr allowed
    · exact .inl ((mem_groupsOf_digits positive inside).2 c here)

/-- `validGroups` on digits: canonical groups, or a lone `0` in front. -/
theorem validGroups_iff {first : List Char} {rest : List (List Char)} :
    validGroups (first :: rest) = true ↔
      (CanonicalGroups first rest ∨ first = ['0'] ∧
        ∀ group ∈ rest, IsDigitText group ∧ group.length = 3) := by
  constructor
  · intro valid
    simp only [validGroups, Bool.and_eq_true, Bool.not_eq_true', decide_eq_true_eq,
      List.all_eq_true, isDigit_iff] at valid
    obtain ⟨⟨⟨isDigits, -, short⟩, start⟩, groups⟩ := valid
    by_cases zero : first.head? = some '0'
    · obtain ⟨c, tail, rfl⟩ := List.exists_cons_of_ne_nil isDigits.1
      have lone : tail = [] := by
        by_contra more
        have : 0 < tail.length := List.length_pos_of_ne_nil more
        simp [zero] at start
        exact more start
      simp only [List.head?_cons, Option.some.injEq] at zero
      exact .inr ⟨by rw [zero, lone], fun group member => (groups group member).symm⟩
    · refine .inl ⟨isDigits, short, ?_, fun group member => (groups group member).2,
        fun group member => (groups group member).1⟩
      obtain ⟨c, tail, rfl⟩ := List.exists_cons_of_ne_nil isDigits.1
      simpa using zero
  · intro canonical
    simp only [validGroups, Bool.and_eq_true, Bool.not_eq_true', decide_eq_true_eq,
      List.all_eq_true, isDigit_iff]
    rcases canonical with canonical | ⟨rfl, groups⟩
    · obtain ⟨c, tail, rfl⟩ := List.exists_cons_of_ne_nil canonical.firstDigits.1
      refine ⟨⟨⟨canonical.firstDigits, by simp, canonical.firstShort⟩, ?_⟩, fun group member =>
        ⟨canonical.restLength group member, canonical.restDigits group member⟩⟩
      have start := canonical.firstStart
      simp only [List.head?_cons, Option.any_some, ne_eq, decide_eq_true_eq] at start
      simp [start]
    · exact ⟨⟨⟨by simp [IsDigitText], by simp, by simp⟩, by simp⟩,
        fun group member => (groups group member).symm⟩

/-- One separator, in front of a digit text or not, is the set of separators of the text. -/
theorem dedup_filter_eq_singleton (inside : separator ∈ text) (isAllowed : separator ∈ allowed)
    (only : ∀ c ∈ text, c ∈ allowed → c = separator) :
    (text.filter fun c => allowed.contains c).dedup = [separator] := by
  have members : ∀ c, c ∈ (text.filter fun c => allowed.contains c).dedup ↔ c = separator := by
    intro c
    rw [List.mem_dedup, List.mem_filter, List.contains_iff_mem]
    exact ⟨fun found => only c found.1 found.2, fun same => same ▸ ⟨inside, isAllowed⟩⟩
  have nodup := List.nodup_dedup (text.filter fun c => allowed.contains c)
  exact (List.perm_singleton.mp ((List.perm_ext_iff_of_nodup nodup (List.nodup_singleton _)).mpr
    fun c => by rw [members, List.mem_singleton]))

theorem filter_eq_nil_of_digits (isDigits : IsDigitText text)
    (noDigit : ∀ c ∈ allowed, c.isDigit = false) :
    (text.filter fun c => allowed.contains c) = [] := by
  rw [List.filter_eq_nil_iff]
  intro c member found
  exact digit_ne (isDigits.2 c member) (noDigit c (List.contains_iff_mem.mp found)) rfl

theorem validGroupedInteger_of_digits (isDigits : IsDigitText text)
    (noDigit : ∀ c ∈ allowed, c.isDigit = false) :
    validGroupedInteger text allowed = some text := by
  rw [validGroupedInteger, filter_eq_nil_of_digits isDigits noDigit]
  simp [isDigit_iff.mpr isDigits]

/-- The grammar's integers are valid. -/
theorem exists_validGroupedInteger (isInteger : IsInteger profile integer n) :
    ∃ digits, validGroupedInteger integer profile.separators = some digits
      ∧ digitsValue digits = n := by
  have noDigit : ∀ c ∈ profile.separators, c.isDigit = false := fun c member =>
    (separator_facts member).1
  cases isInteger with
  | plain _ isDigits => exact ⟨_, validGroupedInteger_of_digits isDigits noDigit, rfl⟩
  | grouped separator n allowed positive =>
    obtain ⟨first, rest, cut, canonical⟩ := exists_groupsOf positive
    have value := digitsValue_groupsOf n
    rw [cut] at value ⊢
    cases rest with
    | nil =>
      rw [List.intercalate_singleton]
      refine ⟨first, validGroupedInteger_of_digits canonical.firstDigits noDigit, ?_⟩
      simpa using value
    | cons group rest =>
      have digits : ∀ part ∈ first :: group :: rest, IsDigitText part := by
        intro part member
        rcases List.mem_cons.mp member with rfl | member
        · exact canonical.firstDigits
        · exact canonical.restDigits part member
      have away : ∀ part ∈ first :: group :: rest, separator ∉ part := fun part member here =>
        digit_ne ((digits part member).2 separator here) (noDigit separator allowed) rfl
      have inside : separator ∈ [separator].intercalate (first :: group :: rest) := by
        rw [List.intercalate_cons_cons]
        simp
      have one := dedup_filter_eq_singleton inside allowed (by
        intro c member isAllowed
        rcases mem_intercalate member with same | ⟨part, inside, here⟩
        · exact same
        · exact absurd rfl (digit_ne ((digits part inside).2 c here) (noDigit c isAllowed)))
      refine ⟨(first :: group :: rest).flatten, ?_, value⟩
      rw [validGroupedInteger, one]
      simp only
      rw [List.splitOn_intercalate separator away (by simp),
        if_pos (validGroups_iff.mpr (.inl canonical))]

/-- A valid integer is one of the grammar, or has the lone group `0` in front. -/
theorem isInteger_of_validGroupedInteger
    (valid : validGroupedInteger integer profile.separators = some digits) :
    IsInteger profile integer (digitsValue digits) ∨ IsZeroGrouped profile integer := by
  rw [validGroupedInteger] at valid
  split at valid
  · split_ifs at valid with isDigits
    cases valid
    exact .inl (.plain _ (isDigit_iff.mp isDigits))
  · rename_i separator one
    split_ifs at valid with groups
    cases valid
    have allowed : separator ∈ profile.separators := by
      have : separator ∈ (integer.filter fun c => profile.separators.contains c).dedup := by
        rw [one]
        exact List.mem_singleton_self _
      rw [List.mem_dedup, List.mem_filter, List.contains_iff_mem] at this
      exact this.2
    have joined : [separator].intercalate (integer.splitOn separator) = integer :=
      List.intercalate_splitOn separator
    cases parts : integer.splitOn separator with
    | nil => exact absurd parts (List.splitOn_ne_nil _ _)
    | cons first rest =>
      rw [parts] at groups joined
      rcases validGroups_iff.mp groups with canonical | ⟨rfl, threes⟩
      · left
        have grouped := @IsInteger.grouped profile separator _ allowed
          canonical.value_pos
        rwa [groupsOf_digitsValue first rest canonical, joined] at grouped
      · cases rest with
        | nil =>
          left
          rw [List.intercalate_singleton] at joined
          rw [← joined]
          exact .plain ['0'] ⟨by simp, by simp⟩
        | cons group rest =>
          right
          rw [← joined]
          exact .mk separator _ allowed (List.cons_ne_nil group rest) threes
  · cases valid

/-! ## The exponent and the fraction -/

theorem minus_facts (member : c ∈ minusSigns) : minusSigns.contains c = true :=
  List.contains_iff_mem.mpr member

/-- The exponents of the grammar are the empty text and what the pattern matches. -/
theorem isExponent_iff :
    IsExponent exponent e ↔
      (exponent = [] ∨ isExponent exponent = true) ∧ exponentValue exponent = e := by
  constructor
  · intro isExp
    cases isExp with
    | none => exact ⟨.inl rfl, rfl⟩
    | unsigned mark digits isMark isDigits =>
      refine ⟨.inr ?_, ?_⟩
      · rcases isMark with rfl | rfl <;> simp [isExponent, isDigit_iff.mpr isDigits]
      · obtain ⟨c, rest, rfl⟩ := List.exists_cons_of_ne_nil isDigits.1
        have digit := isDigits.2 c (by simp)
        have notMinus : minusSigns.contains c = false := by
          rw [Bool.eq_false_iff, ne_eq, List.contains_iff_mem]
          intro found
          exact digit_ne digit (isDigit_of_mem_unarySigns (mem_unarySigns_of_minus found)) rfl
        have notPlus := digit_ne digit (show '+'.isDigit = false by decide)
        simp only [exponentValue, notMinus, notPlus, Bool.false_eq_true, if_false]
    | plus mark digits isMark isDigits =>
      refine ⟨.inr ?_, ?_⟩
      · rcases isMark with rfl | rfl <;>
          simp [isExponent, unarySigns, isDigit_iff.mpr isDigits]
      · simp [exponentValue, minusSigns]
    | minus mark sign digits isMark isMinus isDigits =>
      refine ⟨.inr ?_, ?_⟩
      · have isSign := List.contains_iff_mem.mpr (mem_unarySigns_of_minus isMinus)
        rcases isMark with rfl | rfl <;>
          simp only [isExponent, isSign, isDigit_iff.mpr isDigits, decide_true, Bool.or_true,
            Bool.true_or, Bool.and_self]
      · simp only [exponentValue, minus_facts isMinus, if_true]
  · rintro ⟨rfl | found, rfl⟩
    · exact .none
    cases exponent with
    | nil => cases found
    | cons mark rest =>
      rw [isExponent.eq_def, Bool.and_eq_true, Bool.or_eq_true, decide_eq_true_eq,
        decide_eq_true_eq, Bool.or_eq_true] at found
      obtain ⟨isMark, digits | signed⟩ := found
      · have isDigits := isDigit_iff.mp digits
        obtain ⟨c, rest, rfl⟩ := List.exists_cons_of_ne_nil isDigits.1
        have digit := isDigits.2 c (by simp)
        have notMinus : minusSigns.contains c = false := by
          rw [Bool.eq_false_iff, ne_eq, List.contains_iff_mem]
          intro found
          exact digit_ne digit (isDigit_of_mem_unarySigns (mem_unarySigns_of_minus found)) rfl
        have notPlus := digit_ne digit (show '+'.isDigit = false by decide)
        have value : exponentValue (mark :: c :: rest) = digitsValue (c :: rest) := by
          simp only [exponentValue, notMinus, notPlus, Bool.false_eq_true, if_false]
        rw [value]
        exact .unsigned mark _ isMark isDigits
      · cases rest with
        | nil => cases signed
        | cons sign digits =>
          rw [Bool.and_eq_true, List.contains_iff_mem, isDigit_iff] at signed
          obtain ⟨isSign, isDigits⟩ := signed
          rcases List.mem_cons.mp isSign with rfl | isMinus
          · exact .plus mark digits isMark isDigits
          · simp only [exponentValue, minus_facts isMinus, if_true]
            exact .minus mark sign digits isMark isMinus isDigits

/-- The head of an exponent is its mark. -/
theorem isExponent_mark {rest : List Char} (found : isExponent (c :: rest) = true) :
    c = 'E' ∨ c = 'e' := by
  rw [isExponent.eq_def, Bool.and_eq_true, Bool.or_eq_true, decide_eq_true_eq,
    decide_eq_true_eq] at found
  exact found.1

/-- A mantissa without a mark is the one that the pattern takes. -/
theorem scientific_append (nonempty : mantissa ≠ [])
    (plain : ∀ c ∈ mantissa, c ≠ 'E' ∧ c ≠ 'e' ∧ c ≠ '\n')
    (ends : exponent = [] ∨ isExponent exponent = true) :
    scientific (mantissa ++ exponent) = some (mantissa, exponent) := by
  induction mantissa with
  | nil => exact absurd rfl nonempty
  | cons c mantissa ih =>
    rw [List.cons_append, scientific, if_neg (plain c (by simp)).2.2]
    cases mantissa with
    | nil =>
      rcases ends with rfl | ends
      · simp
      · simp [ends]
    | cons d mantissa =>
      have later : ¬((d :: mantissa ++ exponent).isEmpty
          || isExponent (d :: mantissa ++ exponent)) = true := by
        rw [Bool.or_eq_true]
        rintro (empty | marked)
        · cases empty
        · rcases isExponent_mark marked with same | same
          · exact (plain d (by simp)).1 same
          · exact (plain d (by simp)).2.1 same
      rw [if_neg later, ih (by simp) fun c member => plain c (List.mem_cons_of_mem _ member)]
      rfl

theorem append_of_scientific (found : scientific text = some (mantissa, exponent)) :
    text = mantissa ++ exponent ∧ (exponent = [] ∨ isExponent exponent = true) := by
  induction text generalizing mantissa with
  | nil => cases found
  | cons c rest ih =>
    rw [scientific] at found
    split_ifs at found with lineBreak ends
    · obtain ⟨rfl, rfl⟩ := Prod.mk.inj (Option.some.inj found)
      rw [Bool.or_eq_true, List.isEmpty_iff] at ends
      exact ⟨rfl, ends⟩
    · obtain ⟨⟨more, exponent⟩, later, same⟩ := Option.map_eq_some_iff.mp found
      obtain ⟨rfl, rfl⟩ := Prod.mk.inj same
      obtain ⟨rfl, atEnd⟩ := ih later
      exact ⟨rfl, atEnd⟩

theorem partition_append (away : separator ∉ integer) (rest : List Char) :
    partition separator (integer ++ separator :: rest) = (integer, true, rest) := by
  induction integer with
  | nil => simp [partition]
  | cons c integer ih =>
    rw [List.mem_cons, not_or] at away
    simp [partition, ih away.2, Ne.symm away.1]

theorem partition_of_not_mem (away : separator ∉ integer) :
    partition separator integer = (integer, false, []) := by
  induction integer with
  | nil => rfl
  | cons c integer ih =>
    rw [List.mem_cons, not_or] at away
    simp [partition, ih away.2, Ne.symm away.1]

theorem append_of_partition {point : Bool}
    (found : partition separator text = (integer, point, fraction)) :
    (point = true ∧ text = integer ++ separator :: fraction)
      ∨ (point = false ∧ text = integer ∧ fraction = []) := by
  induction text generalizing integer with
  | nil =>
    obtain ⟨rfl, rfl, rfl⟩ : [] = integer ∧ false = point ∧ [] = fraction := by
      simpa [partition] using found
    exact .inr ⟨rfl, rfl, rfl⟩
  | cons c text ih =>
    rw [partition] at found
    split_ifs at found with here
    · obtain ⟨rfl, rfl, rfl⟩ : [] = integer ∧ true = point ∧ text = fraction := by
        simpa using found
      exact .inl ⟨rfl, by rw [here]; rfl⟩
    · cases cut : partition separator text with
      | mk more tail =>
        simp only [cut] at found
        obtain ⟨rfl, rfl⟩ := Prod.mk.inj found
        rcases ih cut with ⟨isPoint, rfl⟩ | ⟨noPoint, rfl, rfl⟩
        · exact .inl ⟨isPoint, rfl⟩
        · exact .inr ⟨noPoint, rfl, rfl⟩

/-! ## The mantissa -/

theorem floatOf_eq (integer fraction exponent : List Char) :
    floatOf integer fraction exponent
      = (digitsValue integer + digitsValue fraction / 10 ^ fraction.length)
        * 10 ^ exponentValue exponent := by
  rw [floatOf, digitsValue_append, zpow_sub₀ (by norm_num), zpow_natCast]
  push_cast
  field_simp

theorem IsInteger.not_point (isInteger : IsInteger profile integer n) :
    profile.decimalPoint ∉ integer := by
  intro member
  rcases isInteger.mem member with digit | isSeparator
  · exact digit_ne digit (decimalPoint_facts profile).1 rfl
  · exact (separator_facts isSeparator).2.1 rfl

/-- The grammar's mantissas are read to their values. -/
theorem parseMantissa_of_grammar (isInteger : IsInteger profile integer n)
    (isFraction : IsFraction profile fraction f) :
    parseMantissa profile (integer ++ fraction) exponent
      = some ((n + f) * 10 ^ exponentValue exponent) := by
  obtain ⟨digits, valid, rfl⟩ := exists_validGroupedInteger isInteger
  have away := isInteger.not_point
  cases isFraction with
  | none =>
    rw [parseMantissa, List.append_nil, partition_of_not_mem away]
    simp [List.count_eq_zero_of_not_mem away, valid, floatOf_eq]
  | digits fraction isDigits =>
    have noPoint : profile.decimalPoint ∉ fraction := fun member =>
      digit_ne (isDigits.2 _ member) (decimalPoint_facts profile).1 rfl
    rw [parseMantissa, partition_append away]
    simp [List.count_eq_zero_of_not_mem away, List.count_eq_zero_of_not_mem noPoint, valid,
      floatOf_eq, isDigit_iff.mpr isDigits]

/-- A mantissa that is read is one of the grammar, or has the lone group `0` in front. -/
theorem grammar_of_parseMantissa (parsed : parseMantissa profile mantissa exponent = some value) :
    ∃ integer n fraction f, (IsInteger profile integer n ∨ IsZeroGrouped profile integer)
      ∧ IsFraction profile fraction f ∧ mantissa = integer ++ fraction
      ∧ value = (n + f) * 10 ^ exponentValue exponent := by
  rw [parseMantissa] at parsed
  cases cut : partition profile.decimalPoint mantissa with
  | mk integer tail =>
    obtain ⟨point, fraction⟩ := tail
    simp only [cut] at parsed
    split_ifs at parsed with many malformed
    obtain ⟨digits, valid, rfl⟩ := Option.map_eq_some_iff.mp parsed
    rw [floatOf_eq]
    have isInteger := isInteger_of_validGroupedInteger valid
    rcases append_of_partition cut with ⟨rfl, rfl⟩ | ⟨rfl, rfl, rfl⟩
    · have isDigits : IsDigitText fraction := by
        simpa [isDigit_iff] using malformed
      exact ⟨_, _, _, _, isInteger, .digits fraction isDigits, rfl, rfl⟩
    · exact ⟨_, _, _, _, isInteger, .none, by simp, by simp⟩

/-! ## The sign -/

theorem dropWhile_append_of_digit {gap : List Char} (spaces : ∀ c ∈ gap, c ∈ groupingSpaces)
    (digit : text.head?.all Char.isDigit) :
    (gap ++ text).dropWhile (fun c => groupingSpaces.contains c) = text := by
  rw [List.dropWhile_append_of_pos fun c member => List.contains_iff_mem.mpr (spaces c member)]
  cases text with
  | nil => rfl
  | cons c text =>
    refine List.dropWhile_cons_of_neg fun found => ?_
    have := isDigit_of_mem_groupingSpaces (List.contains_iff_mem.mp found)
    simp [this] at digit

theorem splitSign_append (isSign : IsSign sign s) (nonempty : text ≠ [])
    (digit : text.head?.all Char.isDigit) : splitSign (sign ++ text) = (s, text) := by
  cases isSign with
  | none =>
    obtain ⟨c, text, rfl⟩ := List.exists_cons_of_ne_nil nonempty
    have isDigit : c.isDigit = true := by simpa using digit
    have notSign : unarySigns.contains c = false := by
      rw [Bool.eq_false_iff, ne_eq, List.contains_iff_mem]
      exact fun found => digit_ne isDigit (isDigit_of_mem_unarySigns found) rfl
    simp only [List.nil_append, splitSign, notSign, Bool.false_eq_true, if_false]
  | plus gap spaces =>
    rw [List.cons_append, splitSign, dropWhile_append_of_digit spaces digit]
    rfl
  | minus mark gap isMinus spaces =>
    have isSign := List.contains_iff_mem.mpr (mem_unarySigns_of_minus isMinus)
    rw [List.cons_append, splitSign, dropWhile_append_of_digit spaces digit, if_pos isSign,
      if_pos (minus_facts isMinus)]

theorem exists_isSign (text : List Char) :
    ∃ sign, IsSign sign (splitSign text).1 ∧ text = sign ++ (splitSign text).2 := by
  cases text with
  | nil => exact ⟨[], .none, rfl⟩
  | cons c rest =>
    have gap : ∀ d ∈ rest.takeWhile (fun c => groupingSpaces.contains c), d ∈ groupingSpaces :=
      fun d member => List.contains_iff_mem.mp (List.mem_takeWhile_imp member)
    have joined : c :: rest = (c :: rest.takeWhile fun c => groupingSpaces.contains c)
        ++ rest.dropWhile fun c => groupingSpaces.contains c := by
      rw [List.cons_append, List.takeWhile_append_dropWhile]
    rw [splitSign]
    split_ifs with isSign isMinus
    · exact ⟨_, .minus c _ (List.contains_iff_mem.mp isMinus) gap, joined⟩
    · rcases List.mem_cons.mp (List.contains_iff_mem.mp isSign) with rfl | other
      · exact ⟨_, .plus _ gap, joined⟩
      · exact absurd (List.contains_iff_mem.mpr other) isMinus
    · exact ⟨[], .none, rfl⟩

/-! ## The envelope -/

theorem IsInteger.plain_chars (isInteger : IsInteger profile integer n)
    (isFraction : IsFraction profile fraction f) :
    ∀ c ∈ integer ++ fraction, c ≠ 'E' ∧ c ≠ 'e' ∧ c ≠ '\n' := by
  have ofDigit : ∀ c : Char, c.isDigit = true → c ≠ 'E' ∧ c ≠ 'e' ∧ c ≠ '\n' := fun c digit =>
    ⟨digit_ne digit (by decide), digit_ne digit (by decide), digit_ne digit (by decide)⟩
  intro c member
  rcases List.mem_append.mp member with inside | inside
  · rcases isInteger.mem inside with digit | isSeparator
    · exact ofDigit c digit
    · exact (separator_facts isSeparator).2.2
  · cases isFraction with
    | none => cases inside
    | digits fraction isDigits =>
      rcases List.mem_cons.mp inside with rfl | inside
      · exact (decimalPoint_facts profile).2
      · exact ofDigit c (isDigits.2 c inside)

/-- The grammar's numerals are read to their values. -/
theorem parse_of_isNumeral (edge : brokenEdge profile (withoutJoiners profile raw) = false)
    (numeral : IsNumeral profile (trimmed profile raw) value) :
    parseLocaleNumericEnvelope raw profile = some value := by
  simp only [parseLocaleNumericEnvelope, edge, Bool.false_eq_true, if_false]
  rw [← trimmed]
  generalize trimmed profile raw = text at numeral
  cases numeral with
  | mk sign integer fraction exponent s n f e isSign isInteger isFraction isExp =>
    obtain ⟨c, rest, start, digit⟩ := isInteger.exists_digit
    obtain ⟨ends, rfl⟩ := isExponent_iff.mp isExp
    have nonempty : integer ++ fraction ≠ [] := by simp [start]
    have signSplit : splitSign (sign ++ (integer ++ fraction ++ exponent))
        = (s, integer ++ fraction ++ exponent) :=
      splitSign_append isSign (by simp [start]) (by simp [start, digit])
    have expSplit := scientific_append nonempty (isInteger.plain_chars isFraction) ends
    rw [signSplit]
    simp only [expSplit, parseMantissa_of_grammar isInteger isFraction, Option.map_some,
      Option.some.injEq]
    ring

/-- What is read is a numeral of the grammar, or has the lone group `0` in front. -/
theorem isNumeral_of_parse (parsed : parseLocaleNumericEnvelope raw profile = some value)
    (notZeroLed : ¬ ZeroLed profile (trimmed profile raw)) :
    brokenEdge profile (withoutJoiners profile raw) = false
      ∧ IsNumeral profile (trimmed profile raw) value := by
  simp only [parseLocaleNumericEnvelope] at parsed
  split_ifs at parsed with edge
  refine ⟨by simpa using edge, ?_⟩
  rw [← trimmed] at parsed
  generalize trimmed profile raw = text at parsed notZeroLed ⊢
  obtain ⟨sign, isSign, joined⟩ := exists_isSign text
  cases found : scientific (splitSign text).2 with
  | none => simp [found] at parsed
  | some cut =>
    obtain ⟨mantissa, exponent⟩ := cut
    simp only [found] at parsed
    obtain ⟨unsigned, read, rfl⟩ := Option.map_eq_some_iff.mp parsed
    obtain ⟨same, ends⟩ := append_of_scientific found
    rw [same] at joined
    have isExp := isExponent_iff.mpr ⟨ends, rfl⟩
    obtain ⟨integer, n, fraction, f, isInteger | isGrouped, isFraction, rfl, rfl⟩ :=
      grammar_of_parseMantissa read
    · have numeral := IsNumeral.mk sign integer fraction exponent _ n f _ isSign isInteger
        isFraction isExp
      rw [mul_assoc, ← joined] at numeral
      exact numeral
    · have zeroLed := ZeroLed.mk sign integer fraction exponent _ f _ isSign isGrouped isFraction isExp
      rw [← joined] at zeroLed
      exact absurd zeroLed notZeroLed

/-- Behind the sign a numeral begins with a digit. -/
theorem IsNumeral.exists_unsigned_digit (numeral : IsNumeral profile text value) :
    ∃ c rest, (splitSign text).2 = c :: rest ∧ c.isDigit = true := by
  cases numeral with
  | mk sign integer fraction exponent s n f e isSign isInteger _ _ =>
    obtain ⟨c, rest, start, digit⟩ := isInteger.exists_digit
    refine ⟨c, rest ++ fraction ++ exponent, ?_, digit⟩
    rw [splitSign_append isSign (by simp [start]) (by simp [start, digit]), start]
    simp

theorem IsZeroGrouped.exists_separator (isGrouped : IsZeroGrouped profile integer) :
    ∃ separator rest, separator ∈ profile.separators ∧ integer = '0' :: separator :: rest := by
  obtain ⟨separator, groups, allowed, more, -⟩ := isGrouped
  obtain ⟨group, groups, rfl⟩ := List.exists_cons_of_ne_nil more
  exact ⟨separator, _, allowed, by rw [List.intercalate_cons_cons]; rfl⟩

theorem ZeroLed.exists_separator (zeroLed : ZeroLed profile text) :
    ∃ sign s separator rest, IsSign sign s ∧ separator ∈ profile.separators
      ∧ text = sign ++ '0' :: separator :: rest := by
  obtain ⟨sign, integer, fraction, exponent, s, f, e, isSign, isGrouped, -, -⟩ := zeroLed
  obtain ⟨separator, rest, allowed, rfl⟩ := isGrouped.exists_separator
  exact ⟨sign, s, separator, rest ++ fraction ++ exponent, isSign, allowed, rfl⟩

/-- A zero-led text is none of the grammar. -/
theorem ZeroLed.not_isNumeral (zeroLed : ZeroLed profile text) (value : ℚ) :
    ¬ IsNumeral profile text value := by
  rintro ⟨sign', integer, fraction, exponent, s', n, f, e, isSign', isInteger, isFraction, isExp⟩
  obtain ⟨sign, s, separator, rest, isSign, allowed, same⟩ := zeroLed.exists_separator
  obtain ⟨c, tail, start, digit⟩ := isInteger.exists_digit
  have split' : splitSign (sign' ++ (integer ++ fraction ++ exponent))
      = (s', integer ++ fraction ++ exponent) :=
    splitSign_append isSign' (by simp [start]) (by simp [start, digit])
  have split : splitSign (sign ++ '0' :: separator :: rest) = (s, '0' :: separator :: rest) :=
    splitSign_append isSign (by simp) (by simp)
  rw [same, split] at split'
  have unsigned := (Prod.mk.inj split').2
  obtain ⟨noDigit, notPoint, notMark⟩ := separator_facts allowed
  cases isInteger with
  | plain _ isDigits =>
    rw [start, List.cons_append, List.cons_append, List.append_assoc] at unsigned
    obtain ⟨-, unsigned⟩ := List.cons.inj unsigned
    cases tail with
    | cons d tail =>
      obtain ⟨rfl, -⟩ := List.cons.inj unsigned
      rw [start] at isDigits
      exact digit_ne (isDigits.2 separator (by simp)) noDigit rfl
    | nil =>
      cases isFraction with
      | digits fraction _ => exact notPoint (List.cons.inj unsigned).1
      | none =>
        rcases (isExponent_iff.mp isExp).1 with rfl | marked
        · cases unsigned
        · rw [List.nil_append, List.nil_append] at unsigned
          rw [← unsigned] at marked
          rcases isExponent_mark marked with mark | mark
          · exact notMark.1 mark
          · exact notMark.2.1 mark
  | grouped _ n _ positive =>
    obtain ⟨first, groups, cut, canonical⟩ := exists_groupsOf positive
    obtain ⟨d, tail', rfl⟩ := List.exists_cons_of_ne_nil canonical.firstDigits.1
    rw [cut] at unsigned
    obtain ⟨others, joined⟩ := exists_intercalate_cons _ (d :: tail') groups
    rw [joined] at unsigned
    obtain ⟨rfl, -⟩ := List.cons.inj unsigned
    exact absurd canonical.firstStart (by simp)

/-! ## Formatting -/

/-- `units / 10 ^ places`, with a sign. -/
structure DecimalNumber where
  negative : Bool
  units : Nat
  places : Nat

def DecimalNumber.toRat (number : DecimalNumber) : ℚ :=
  (if number.negative then -1 else 1) * (number.units / 10 ^ number.places)

/-- The digits of a number, with zeros in front up to the number of places. -/
def paddedDigits (places n : Nat) : List Char :=
  List.replicate (places - (Nat.toDigits 10 n).length) '0' ++ Nat.toDigits 10 n

/-- An integer in groups of three, or plain. -/
def formatInteger (separator : Option Char) (n : Nat) : List Char :=
  match separator with
  | none => Nat.toDigits 10 n
  | some separator => [separator].intercalate (groupsOf n)

def format (profile : Profile) (separator : Option Char) (number : DecimalNumber) : List Char :=
  let integer := formatInteger separator (number.units / 10 ^ number.places)
  let fraction :=
    if number.places = 0 then []
    else profile.decimalPoint
      :: paddedDigits number.places (number.units % 10 ^ number.places)
  (if number.negative then ['-'] else []) ++ (integer ++ fraction)

theorem isInteger_formatInteger (separator : Option Char)
    (allowed : ∀ c ∈ separator, c ∈ profile.separators) (n : Nat) :
    IsInteger profile (formatInteger separator n) n := by
  have plain := @IsInteger.plain profile _ (isDigitText_toDigits n)
  rw [digitsValue_toDigits] at plain
  cases separator with
  | none => exact plain
  | some separator =>
    rcases Nat.eq_zero_or_pos n with rfl | positive
    · rw [formatInteger, groupsOf, if_pos (by decide), List.intercalate_singleton]
      exact plain
    · exact .grouped separator n (allowed separator rfl) positive

theorem isDigitText_paddedDigits (places n : Nat) : IsDigitText (paddedDigits places n) := by
  refine ⟨by simp [paddedDigits, Nat.toDigits_ne_nil], fun c member => ?_⟩
  rcases List.mem_append.mp member with zero | digit
  · rw [List.eq_of_mem_replicate zero]
    rfl
  · exact (isDigitText_toDigits n).2 c digit

theorem digitsValue_paddedDigits (places n : Nat) : digitsValue (paddedDigits places n) = n := by
  rw [paddedDigits, digitsValue_append, digitsValue_toDigits, digitsValue,
    Nat.ofDigitChars_replicate_zero, Nat.mul_zero, Nat.mul_zero, Nat.zero_add]

theorem length_paddedDigits {places : Nat} (some : places ≠ 0) (small : n < 10 ^ places) :
    (paddedDigits places n).length = places := by
  have short := (Nat.length_toDigits_le_iff (b := 10) (by decide) (Nat.pos_of_ne_zero some)).mpr
    small
  rw [paddedDigits, List.length_append, List.length_replicate]
  omega

theorem isNumeral_format (profile : Profile) (separator : Option Char)
    (allowed : ∀ c ∈ separator, c ∈ profile.separators) (number : DecimalNumber) :
    IsNumeral profile (format profile separator number) number.toRat := by
  obtain ⟨negative, units, places⟩ := number
  have isSign : IsSign (if negative then ['-'] else []) (if negative then -1 else 1) := by
    cases negative with
    | true => exact .minus '-' [] (by decide) (by simp)
    | false => exact .none
  have isInteger := isInteger_formatInteger separator allowed (units / 10 ^ places)
  have split : ((units / 10 ^ places : ℕ) : ℚ) + (units % 10 ^ places : ℕ) / 10 ^ places
      = units / 10 ^ places := by
    have whole : ((10 ^ places * (units / 10 ^ places) + units % 10 ^ places : ℕ) : ℚ) = units := by
      rw [Nat.div_add_mod]
    push_cast at whole
    field_simp
    rw [← whole]
    ring
  by_cases noPlaces : places = 0
  · subst noPlaces
    have numeral := IsNumeral.mk _ _ _ _ _ _ _ _ isSign isInteger .none .none
    simpa [format, DecimalNumber.toRat] using numeral
  · have isFraction := @IsFraction.digits profile _
      (isDigitText_paddedDigits places (units % 10 ^ places))
    rw [digitsValue_paddedDigits,
      length_paddedDigits noPlaces (Nat.mod_lt _ (by positivity))] at isFraction
    have numeral := IsNumeral.mk _ _ _ _ _ _ _ _ isSign isInteger isFraction .none
    rw [split] at numeral
    simpa [format, noPlaces, DecimalNumber.toRat] using numeral

/-- A nonempty text whose edges are no grouping spaces and that has no joiner is read whole. -/
theorem trimmed_eq_self (noJoiner : ∀ c ∈ raw, c ∉ joinerFormatCharacters)
    (first : ∀ c, raw.head? = some c → c ∉ groupingSpaces)
    (last : ∀ c, raw.getLast? = some c → c ∉ groupingSpaces) :
    brokenEdge profile (withoutJoiners profile raw) = false ∧ trimmed profile raw = raw := by
  have whole : withoutJoiners profile raw = raw := by
    rw [withoutJoiners]
    split_ifs
    · exact List.filter_eq_self.mpr fun c member => by simpa using noJoiner c member
    · rfl
  have danish : ∀ c, c ∉ groupingSpaces → danishGroupingSpaces.contains c = false := by
    intro c other
    rw [Bool.eq_false_iff, ne_eq, List.contains_iff_mem]
    exact fun found => other (List.mem_cons_of_mem ' ' found)
  rw [trimmed, whole]
  constructor
  · have edges : (raw.head?.any danishGroupingSpaces.contains
        || raw.getLast?.any danishGroupingSpaces.contains) = false := by
      rw [Bool.or_eq_false_iff, Option.any_eq_false, Option.any_eq_false]
      exact ⟨fun c here => by simpa using danish c (first c here),
        fun c here => by simpa using danish c (last c here)⟩
    rw [brokenEdge, edges, Bool.and_false]
  · exact stripChars_eq_self (fun c here => by simpa using first c here)
      fun c here => by simpa using last c here

theorem exists_intercalate_digit {parts : List (List Char)} (nonempty : parts ≠ [])
    (isDigits : ∀ part ∈ parts, IsDigitText part) :
    ∃ start c, [separator].intercalate parts = start ++ [c] ∧ c.isDigit = true := by
  induction parts with
  | nil => exact absurd rfl nonempty
  | cons part parts ih =>
    cases parts with
    | nil =>
      have digits := isDigits part (by simp)
      refine ⟨part.dropLast, part.getLast digits.1, ?_, digits.2 _ (List.getLast_mem digits.1)⟩
      rw [List.intercalate_singleton, List.dropLast_append_getLast]
    | cons next parts =>
      obtain ⟨start, c, same, digit⟩ := ih (by simp) fun part member =>
        isDigits part (List.mem_cons_of_mem _ member)
      exact ⟨part ++ [separator] ++ start, c, by
        rw [List.intercalate_cons_cons, same, List.append_assoc, List.append_assoc,
          List.append_assoc], digit⟩

theorem IsInteger.exists_last_digit (isInteger : IsInteger profile integer n) :
    ∃ start c, integer = start ++ [c] ∧ c.isDigit = true := by
  cases isInteger with
  | plain _ isDigits =>
    exact ⟨integer.dropLast, integer.getLast isDigits.1,
      (List.dropLast_append_getLast isDigits.1).symm, isDigits.2 _ (List.getLast_mem isDigits.1)⟩
  | grouped separator n _ positive =>
    obtain ⟨first, rest, cut, -⟩ := exists_groupsOf positive
    exact exists_intercalate_digit (by rw [cut]; simp) fun part member =>
      mem_groupsOf_digits positive member

/-- A digit, a separator, a decimal point and the hyphen are no joiners. -/
theorem not_joiner_of_digit (digit : c.isDigit = true) : c ∉ joinerFormatCharacters := by
  intro member
  simp only [joinerFormatCharacters, List.mem_cons, List.not_mem_nil, or_false] at member
  rcases member with rfl | rfl | rfl | rfl | rfl <;> exact absurd digit (by decide)

theorem not_joiner_of_separator (member : c ∈ profile.separators) :
    c ∉ joinerFormatCharacters := by
  cases profile <;>
    simp only [Profile.separators, groupingSpaces, danishGroupingSpaces, List.mem_cons,
      List.not_mem_nil, or_false] at member <;>
    rcases member with rfl | rfl | rfl | rfl <;> decide

theorem format_trimmed (profile : Profile) (separator : Option Char)
    (allowed : ∀ c ∈ separator, c ∈ profile.separators) (number : DecimalNumber) :
    brokenEdge profile (withoutJoiners profile (format profile separator number)) = false
      ∧ trimmed profile (format profile separator number) = format profile separator number := by
  have isInteger := isInteger_formatInteger separator allowed (number.units / 10 ^ number.places)
  have digits := isDigitText_paddedDigits number.places (number.units % 10 ^ number.places)
  have notSpace : ∀ c : Char, c.isDigit = true → c ∉ groupingSpaces := fun c digit member =>
    digit_ne digit (isDigit_of_mem_groupingSpaces member) rfl
  refine trimmed_eq_self ?_ ?_ ?_
  · intro c member
    simp only [format, List.mem_append] at member
    rcases member with hyphen | inside | fraction
    · split_ifs at hyphen
      · rw [List.mem_singleton.mp hyphen]
        decide
      · cases hyphen
    · rcases isInteger.mem inside with digit | isSeparator
      · exact not_joiner_of_digit digit
      · exact not_joiner_of_separator isSeparator
    · split_ifs at fraction
      · cases fraction
      · rcases List.mem_cons.mp fraction with rfl | inside
        · cases profile <;> decide
        · exact not_joiner_of_digit (digits.2 c inside)
  · obtain ⟨d, rest, start, digit⟩ := isInteger.exists_digit
    intro c here
    rw [format, start] at here
    split_ifs at here
    all_goals
      simp only [List.nil_append, List.cons_append, List.head?_cons, Option.some.injEq] at here
      rw [← here]
    all_goals first | exact notSpace d digit | decide
  · obtain ⟨start, d, ends, digit⟩ := isInteger.exists_last_digit
    obtain ⟨e, ⟨lastDigit, ends'⟩⟩ : ∃ e, e.isDigit = true
        ∧ (paddedDigits number.places (number.units % 10 ^ number.places)).getLast? = some e :=
      ⟨_, digits.2 _ (List.getLast_mem digits.1), List.getLast?_eq_getLast_of_ne_nil digits.1⟩
    intro c here
    rw [format, ends] at here
    by_cases noPlaces : number.places = 0
    · simp only [noPlaces, if_true, List.append_nil, ← List.append_assoc,
        List.getLast?_concat, Option.some.injEq] at here
      rw [← here]
      exact notSpace d digit
    · simp only [noPlaces, if_false, ← List.append_assoc] at here
      rw [List.getLast?_append, List.getLast?_cons, ends'] at here
      simp only [Option.getD_some, Option.some_or, Option.some.injEq] at here
      rw [← here]
      exact notSpace e lastDigit

/-- **A text that is not zero-led is read to a value exactly if it is a numeral of the
profile with that value, and every number that is formatted in the profile is read back.** -/
theorem parse_eq_some_iff :
    (∀ (profile : Profile) (raw : List Char) (value : ℚ),
      ¬ ZeroLed profile (trimmed profile raw) →
        (parseLocaleNumericEnvelope raw profile = some value ↔
          brokenEdge profile (withoutJoiners profile raw) = false
            ∧ IsNumeral profile (trimmed profile raw) value))
      ∧ ∀ (profile : Profile) (separator : Option Char) (number : DecimalNumber),
          (∀ c ∈ separator, c ∈ profile.separators) →
            parseLocaleNumericEnvelope (format profile separator number) profile
              = some number.toRat := by
  constructor
  · intro profile raw value notZeroLed
    exact ⟨fun parsed => isNumeral_of_parse parsed notZeroLed,
      fun numeral => parse_of_isNumeral numeral.1 numeral.2⟩
  · intro profile separator number allowed
    obtain ⟨edge, whole⟩ := format_trimmed profile separator allowed number
    refine parse_of_isNumeral edge ?_
    rw [whole]
    exact isNumeral_format profile separator allowed number

/-- A numeral whose sign has no space behind it. -/
def IsTightNumeral (profile : Profile) (text : List Char) (value : ℚ) : Prop :=
  IsNumeral profile text value
    ∧ ∀ mark c rest, text = mark :: c :: rest → mark ∈ unarySigns → c ∉ groupingSpaces

/-- A space behind the sign is passed over, da-DK strips an ASCII space, and a lone `0` in
front is a group. -/
theorem spacedSign_and_zeroGroup_are_read :
    (parseLocaleNumericEnvelope "- 5".toList .enUS = some (-5)
        ∧ ¬ IsTightNumeral .enUS (trimmed .enUS "- 5".toList) (-5))
      ∧ (parseLocaleNumericEnvelope " 5".toList .daDK = some 5
        ∧ ¬ IsNumeral .daDK (withoutJoiners .daDK " 5".toList) 5)
      ∧ parseLocaleNumericEnvelope "0.500".toList .deDE = some 500
        ∧ ¬ IsNumeral .deDE (trimmed .deDE "0.500".toList) 500 := by
  refine ⟨⟨by decide +kernel, fun tight => ?_⟩, ⟨by decide +kernel, fun numeral => ?_⟩,
    by decide +kernel, ?_⟩
  · exact tight.2 '-' ' ' ['5'] (by decide) (by decide) (by decide)
  · obtain ⟨c, rest, start, digit⟩ := numeral.exists_unsigned_digit
    obtain ⟨rfl, -⟩ := List.cons.inj start
    exact absurd digit (by decide)
  · exact ZeroLed.not_isNumeral (.mk [] "0.500".toList [] [] 1 0 0 .none
      (.mk '.' ["500".toList] (by decide) (by decide) (by simp [IsDigitText])) .none .none) 500

end AxiomEncode.Numbers
