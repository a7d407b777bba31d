/-
# Corpus.SiblingsSpec -- the pattern behind a numeral is "greater than"

An alternative of `followingNumericStemMarker` keeps the digits before an index and raises the digit
there, so together the alternatives of one length read the digit texts that are raised against the
stem (`sameWidth_iff`), and those write the greater numbers of that length.  A text of more digits that
starts with none of zero is greater in any case, and a shorter one is not.
-/
import AxiomEncode.Corpus.Siblings
import AxiomEncode.Theory.DigitOrder
import AxiomEncode.Theory.RegexLanguage

namespace AxiomEncode.Corpus

open Theory
open Regex (Reads ofClass ofClassFrom)

set_option autoImplicit false

variable {c : Char} {d index value : Nat} {digits stem s front back : Text}

/-! ## Digits -/

theorem digit?_digitChar (small : d < 10) : digit? d.digitChar = some d := by
  have table : ∀ d < 10, digit? d.digitChar = some d := by decide
  exact table d small

theorem allDigits_of_isDigitText (text : IsDigitText stem) : allDigits stem = true := by
  rw [allDigits, Bool.and_eq_true, decide_eq_true_eq, List.all_eq_true]
  refine ⟨text.1, fun c member => ?_⟩
  obtain ⟨d, small, rfl⟩ := exists_digitChar (text.2 c member)
  rw [digit?_digitChar small, Option.isSome_some]

theorem readDigits_eq_digitsValue (all : ∀ c ∈ stem, c.isDigit = true) :
    readDigits stem = digitsValue stem := by
  refine List.foldl_ext _ _ 0 fun value c member => ?_
  obtain ⟨d, small, rfl⟩ := exists_digitChar (all c member)
  rw [digit?_digitChar small, Option.getD_some, Nat.toNat_digitChar_of_lt_ten small]
  show 10 * value + d = 10 * value + (48 + d - 48)
  omega

theorem intOfDigits_eq (text : IsDigitText stem) :
    intOfDigits stem = if stem.length ≤ 4300 then some (digitsValue stem) else none := by
  simp [intOfDigits, allDigits_of_isDigitText text, readDigits_eq_digitsValue text.2]

theorem isDigitFrom_zero : isDigitFrom 0 c = c.isDigit := by
  simp [isDigitFrom, Char.isDigit, Char.le_def]
  rfl

/-- The class of the digits above a digit. -/
theorem isDigitFrom_succ (small : d < 9) :
    isDigitFrom (d + 1) c = true ↔ c.isDigit = true ∧ d.digitChar < c := by
  constructor
  · intro inside
    have digit : c.isDigit = true := by
      rw [← isDigitFrom_zero]
      have low : ∀ d < 9, (0).digitChar ≤ (d + 1).digitChar := by decide
      simp only [isDigitFrom, Bool.and_eq_true, decide_eq_true_eq] at inside ⊢
      exact ⟨Char.le_trans (low d small) inside.1, inside.2⟩
    obtain ⟨e, small', rfl⟩ := exists_digitChar digit
    have table : ∀ d < 9, ∀ e < 10,
        isDigitFrom (d + 1) e.digitChar = true → d.digitChar < e.digitChar := by decide
    exact ⟨digit, table d small e small' inside⟩
  · rintro ⟨digit, above⟩
    obtain ⟨e, small', rfl⟩ := exists_digitChar digit
    have table : ∀ d < 9, ∀ e < 10,
        d.digitChar < e.digitChar → isDigitFrom (d + 1) e.digitChar = true := by decide
    exact table d small e small' above

/-- Only the number zero is written with a leading zero. -/
theorem toDigits_start (long : 1 < (Nat.toDigits 10 value).length) :
    (Nat.toDigits 10 value).head?.any (· ≠ '0') := by
  refine toDigits_head (Nat.pos_of_ne_zero ?_)
  rintro rfl
  exact absurd long (by decide)

/-! ## Alternatives -/

/-- No alternative raises a nine. -/
theorem sameWidthPattern_nine : sameWidthPattern digits index '9' = none := by
  have lower : (digit? '9').getD 0 + 1 = 10 := by decide
  simp only [sameWidthPattern, lower]
  split <;> rfl

theorem sameWidthPattern_eq (small : d < 9) :
    sameWidthPattern (front ++ d.digitChar :: back) front.length d.digitChar =
      some (.seq (.literal front) (.seq (digitFrom (d + 1)) (.times (digitFrom 0) back.length))) := by
  have lower : (if front.length = 0 then max (d + 1) 1 else d + 1) = d + 1 := by
    split <;> omega
  have behind : (front ++ d.digitChar :: back).length - front.length - 1 = back.length := by
    rw [List.length_append, List.length_cons]
    omega
  have inside : ¬d + 1 > 9 := by omega
  rw [sameWidthPattern, digit?_digitChar (by omega), Option.getD_some]
  simp only [lower, behind, if_neg inside, List.take_left]

/-- The texts an alternative reads: the digits before the index, a greater digit, as many behind it. -/
theorem fullMatch_sameWidthPattern (digit : c.isDigit = true) :
    (∃ r, sameWidthPattern (front ++ c :: back) front.length c = some r ∧ r.fullMatch s = true) ↔
      ∃ e behind, s = front ++ e :: behind ∧ c < e ∧ e.isDigit = true ∧
        behind.length = back.length ∧ ∀ x ∈ behind, x.isDigit = true := by
  obtain ⟨d, small, rfl⟩ := exists_digitChar digit
  rcases Nat.lt_or_ge d 9 with small' | nine
  · have raised : Reads (digitFrom (d + 1)) (ofClass (isDigitFrom (d + 1)) 1) := Regex.reads_set
    have further : Reads (.times (digitFrom 0) back.length) (ofClass (isDigitFrom 0) back.length) :=
      Regex.reads_times_set
    have reads := (Regex.reads_literal front).seq (raised.seq further)
    simp only [sameWidthPattern_eq small', Option.some.injEq, exists_eq_left']
    rw [reads.fullMatch_iff, Language.mem_mul]
    simp only [Language.mem_mul]
    constructor
    · rintro ⟨_, rfl, _, ⟨xs, ⟨one, above⟩, behind, ⟨length, all⟩, rfl⟩, rfl⟩
      obtain ⟨e, rfl⟩ := List.length_eq_one_iff.mp one
      obtain ⟨digit', less⟩ := (isDigitFrom_succ small').mp (above e List.mem_cons_self)
      refine ⟨e, behind, rfl, less, digit', length, fun x member => ?_⟩
      rw [← isDigitFrom_zero]
      exact all x member
    · rintro ⟨e, behind, rfl, less, digit', length, all⟩
      have above : isDigitFrom (d + 1) e = true := (isDigitFrom_succ small').mpr ⟨digit', less⟩
      have single : [e] ∈ ofClass (isDigitFrom (d + 1)) 1 := ⟨rfl, List.forall_mem_singleton.mpr above⟩
      refine ⟨front, rfl, e :: behind, ⟨[e], single, behind, ⟨length, ?_⟩, rfl⟩, rfl⟩
      intro x member
      rw [isDigitFrom_zero]
      exact all x member
  · obtain rfl : d = 9 := by omega
    have none : sameWidthPattern (front ++ (9).digitChar :: back) front.length (9).digitChar = none :=
      sameWidthPattern_nine
    simp only [none, reduceCtorEq, false_and, exists_false, false_iff]
    rintro ⟨e, behind, -, less, digit', -⟩
    obtain ⟨m, small', rfl⟩ := exists_digitChar digit'
    have bound := (digitChar_lt_iff small small').mp less
    omega

/-- Together the alternatives of one length read the digit texts raised against the number. -/
theorem sameWidth_iff (all : ∀ c ∈ digits, c.isDigit = true) :
    (∃ r ∈ sameWidthPatterns digits, r.fullMatch s = true) ↔
      s.length = digits.length ∧ (∀ x ∈ s, x.isDigit = true) ∧ RaisedTo digits s := by
  constructor
  · rintro ⟨r, listed, whole⟩
    obtain ⟨⟨c, index⟩, enumerated, produced⟩ := List.mem_filterMap.mp listed
    have found : digits[index]? = some c := List.mk_mem_zipIdx_iff_getElem?.mp enumerated
    obtain ⟨inside, here⟩ := List.getElem?_eq_some_iff.mp found
    obtain ⟨front, back, rfl, rfl⟩ :
        ∃ front back, digits = front ++ c :: back ∧ index = front.length := by
      refine ⟨digits.take index, digits.drop (index + 1), ?_, (List.length_take_of_le inside.le).symm⟩
      rw [← here, List.getElem_cons_drop, List.take_append_drop]
    have digit : c.isDigit = true := all c (List.mem_append_right front List.mem_cons_self)
    obtain ⟨e, behind, rfl, less, digit', length, rest⟩ :=
      (fullMatch_sameWidthPattern digit).mp ⟨r, produced, whole⟩
    refine ⟨?_, ?_, front, c, back, e, behind, rfl, rfl, less⟩
    · simp only [List.length_append, List.length_cons, length]
    · refine List.forall_mem_append.mpr ⟨fun x member => all x (List.mem_append_left _ member), ?_⟩
      exact List.forall_mem_cons.mpr ⟨digit', rest⟩
  · rintro ⟨length, digits', front, c, back, e, behind, rfl, rfl, less⟩
    have digit : c.isDigit = true := all c (List.mem_append_right front List.mem_cons_self)
    have behindLength : behind.length = back.length := by
      simp only [List.length_append, List.length_cons] at length
      omega
    obtain ⟨digit', rest⟩ := List.forall_mem_cons.mp (List.forall_mem_append.mp digits').2
    obtain ⟨r, produced, whole⟩ := (fullMatch_sameWidthPattern digit).mpr
      ⟨e, behind, rfl, less, digit', behindLength, rest⟩
    have enumerated : (c, front.length) ∈ (front ++ c :: back).zipIdx := by
      rw [List.mk_mem_zipIdx_iff_getElem?, List.getElem?_append_right le_rfl, Nat.sub_self]
      rfl
    exact ⟨r, List.mem_filterMap.mpr ⟨(c, front.length), enumerated, produced⟩, whole⟩

/-- The alternative of more digits reads the longer digit texts without a leading zero. -/
theorem fullMatch_longerWidth :
    (longerWidth digits).fullMatch s = true ↔
      digits.length < s.length ∧ (∀ x ∈ s, x.isDigit = true) ∧ s.head?.any (· ≠ '0') := by
  have first : Reads (digitFrom 1) (ofClass (isDigitFrom 1) 1) := Regex.reads_set
  have further : Reads (.atLeast (digitFrom 0) digits.length) (ofClassFrom (isDigitFrom 0) digits.length) :=
    Regex.reads_atLeast_set
  have positive : ∀ {e : Char}, isDigitFrom 1 e = true ↔ e.isDigit = true ∧ '0' < e :=
    isDigitFrom_succ (d := 0) (by decide)
  rw [longerWidth, (first.seq further).fullMatch_iff, Language.mem_mul]
  constructor
  · rintro ⟨xs, ⟨one, raised⟩, rest, ⟨long, all⟩, rfl⟩
    obtain ⟨e, rfl⟩ := List.length_eq_one_iff.mp one
    obtain ⟨digit, above⟩ := positive.mp (raised e List.mem_cons_self)
    refine ⟨Nat.lt_succ_of_le long, List.forall_mem_cons.mpr ⟨digit, fun x member => ?_⟩, ?_⟩
    · rw [← isDigitFrom_zero]
      exact all x member
    · refine decide_eq_true fun zero => ?_
      rw [zero] at above
      exact absurd above (Char.lt_irrefl '0')
  · rintro ⟨long, all, start⟩
    cases s with
    | nil => exact absurd long (Nat.not_lt_zero _)
    | cons e rest =>
      obtain ⟨digit, others⟩ := List.forall_mem_cons.mp all
      have above : '0' < e := by
        obtain ⟨d, small, rfl⟩ := exists_digitChar digit
        have zero : '0' = (0).digitChar := rfl
        rw [zero, digitChar_lt_iff (by decide) small]
        simp only [List.head?_cons, Option.any_some, ne_eq, decide_eq_true_eq,
          Nat.digitChar_eq_zero] at start
        exact Nat.pos_of_ne_zero start
      refine ⟨[e], ⟨rfl, List.forall_mem_singleton.mpr (positive.mpr ⟨digit, above⟩)⟩, rest,
        ⟨Nat.le_of_lt_succ long, fun x member => ?_⟩, rfl⟩
      rw [isDigitFrom_zero]
      exact others x member

/-! ## The pattern -/

/-- A text raised against the digits of a number does not start with a zero. -/
theorem head_of_raisedTo (raised : RaisedTo (Nat.toDigits 10 value) s) : s.head?.any (· ≠ '0') := by
  obtain ⟨front, c, back, e, behind, split, rfl, less⟩ := raised
  cases front with
  | nil =>
    have digit : c.isDigit = true := (isDigitText_toDigits value).2 c (split ▸ List.mem_cons_self)
    obtain ⟨d, small, rfl⟩ := exists_digitChar digit
    refine decide_eq_true fun zero => ?_
    rw [zero] at less
    have below : d < 0 := (digitChar_lt_iff (m := 0) small (by decide)).mp less
    exact absurd below (Nat.not_lt_zero d)
  | cons z front =>
    have long : 1 < (Nat.toDigits 10 value).length := by
      rw [split, List.cons_append, List.length_cons, List.length_append, List.length_cons]
      omega
    have start := toDigits_start long
    rw [split] at start
    exact start

/-- The pattern of a number's digits reads the canonical texts of the greater numbers. -/
theorem fullMatch_following :
    (Regex.anyOf (sameWidthPatterns (Nat.toDigits 10 value) ++
        [longerWidth (Nat.toDigits 10 value)])).fullMatch s = true ↔
      IsDigitText s ∧ s.head?.any (· ≠ '0') ∧ value < digitsValue s := by
  have all := (isDigitText_toDigits value).2
  have own := digitsValue_toDigits value
  rw [Regex.fullMatch_anyOf_concat, sameWidth_iff all, fullMatch_longerWidth]
  constructor
  · rintro (⟨length, digits, raised⟩ | ⟨longer, digits, start⟩)
    · have start := head_of_raisedTo raised
      have greater := (digitsValue_lt_iff all digits length.symm).mpr raised
      rw [own] at greater
      exact ⟨⟨by rintro rfl; simp at start, digits⟩, start, greater⟩
    · have greater := digitsValue_lt_of_longer all digits start longer
      rw [own] at greater
      exact ⟨⟨by rintro rfl; simp at start, digits⟩, start, greater⟩
  · rintro ⟨⟨-, digits⟩, start, greater⟩
    rcases Nat.lt_trichotomy s.length (Nat.toDigits 10 value).length with shorter | same | longer
    · have nonempty : 0 < s.length := by
        cases s with
        | nil => simp at start
        | cons c rest => exact Nat.zero_lt_succ _
      -- a shorter text writes a smaller number
      have less := digitsValue_lt_of_longer digits all (toDigits_start (by omega)) shorter
      rw [own] at less
      exact absurd greater less.asymm
    · refine .inl ⟨same, digits, (digitsValue_lt_iff all digits same.symm).mp ?_⟩
      rw [own]
      exact greater
    · exact .inr ⟨longer, digits, start⟩

theorem followingNumericStemMarker_eq (text : IsDigitText stem) :
    followingNumericStemMarker stem =
      if stem.length ≤ 4300 then
        let digits := Nat.toDigits 10 (digitsValue stem)
        some (.anyOf (sameWidthPatterns digits ++ [longerWidth digits]))
      else none := by
  rw [followingNumericStemMarker, intOfDigits_eq text]
  split
  · rfl
  · rfl

/-- **The pattern behind a numeral is "greater than".**  A stem that `int` reads has a pattern, and of
the digit texts without a leading zero it matches those of the greater numbers; it matches no text with
a leading zero. -/
theorem followingNumericStemMarker_greater (stem : Text) (text : IsDigitText stem) :
    ((followingNumericStemMarker stem).isSome ↔ stem.length ≤ 4300) ∧
      ∀ marker, followingNumericStemMarker stem = some marker →
        (∀ s, IsDigitText s → s.head? ≠ some '0' →
          (marker.fullMatch s = true ↔ digitsValue stem < digitsValue s)) ∧
        ∀ s, s.head? = some '0' → marker.fullMatch s = false := by
  rw [followingNumericStemMarker_eq text]
  refine ⟨?_, fun marker returned => ?_⟩
  · by_cases fits : stem.length ≤ 4300 <;> simp [fits]
  · obtain ⟨-, produced⟩ := Option.ite_none_right_eq_some.mp returned
    obtain rfl := Option.some.inj produced
    refine ⟨fun s digits start => ?_, fun s zero => ?_⟩
    · have nonzero : s.head?.any (· ≠ '0') := by
        obtain ⟨c, rest, rfl⟩ := List.exists_cons_of_ne_nil digits.1
        simpa using start
      rw [fullMatch_following]
      exact ⟨fun whole => whole.2.2, fun greater => ⟨digits, nonzero, greater⟩⟩
    · rw [Bool.eq_false_iff, ne_eq, fullMatch_following]
      rintro ⟨-, start, -⟩
      simp [zero] at start

/-- Behind `19` come `20` and `100`, and not `18`, `19` or `020`. -/
theorem followingNumericStemMarker_nineteen :
    ∃ marker, followingNumericStemMarker "19".toList = some marker ∧
      marker.fullMatch "20".toList = true ∧ marker.fullMatch "100".toList = true ∧
      marker.fullMatch "18".toList = false ∧ marker.fullMatch "19".toList = false ∧
      marker.fullMatch "020".toList = false := by
  have digitText : ∀ {text : Text}, text ≠ [] ∧ text.all Char.isDigit = true → IsDigitText text :=
    fun given => ⟨given.1, List.all_eq_true.mp given.2⟩
  obtain ⟨returns, greater⟩ := followingNumericStemMarker_greater "19".toList (digitText (by decide))
  obtain ⟨marker, returned⟩ := Option.isSome_iff_exists.mp (returns.mpr (by decide))
  obtain ⟨exactly, noZero⟩ := greater marker returned
  refine ⟨marker, returned, ?_, ?_, ?_, ?_, noZero _ rfl⟩
  · exact (exactly _ (digitText (by decide)) (by decide)).mpr (by decide)
  · exact (exactly _ (digitText (by decide)) (by decide)).mpr (by decide)
  · rw [Bool.eq_false_iff, ne_eq, exactly _ (digitText (by decide)) (by decide)]
    decide
  · rw [Bool.eq_false_iff, ne_eq, exactly _ (digitText (by decide)) (by decide)]
    decide

end AxiomEncode.Corpus
