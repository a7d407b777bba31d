/-
# Theory.IsoDate -- the texts that are dates

`isIsoDate` holds of the texts that `date.fromisoformat` reads: calendar and week dates, with or
without hyphens, where a compact date of ten characters may end in anything.  What
`isoformat` writes is read (`isIsoDate_isoFormat`).
-/
import AxiomEncode.Theory.Digits
import AxiomEncode.Theory.PyDate
import AxiomEncode.Theory.PyText

namespace AxiomEncode.Theory

set_option autoImplicit false

/-- `toordinal` of a year, a month and a day. -/
def toOrdinal (year month day : Nat) : Nat :=
  (year - 1) * 365 + (year - 1) / 4 - (year - 1) / 100 + (year - 1) / 400
    + ((List.range (month - 1)).map fun before => daysInMonth year (before + 1)).sum + day

/-- The value of the first `width` characters, if they are digits, and what follows them. -/
def takeDigits (width : Nat) (text : List Char) : Option (Nat × List Char) :=
  if (text.take width).length = width ∧ (text.take width).all Char.isDigit then
    some (digitsValue (text.take width), text.drop width)
  else none

/-- The day of the week of the first of January, from Monday. -/
def firstWeekday (year : Nat) : Nat := (toOrdinal year 1 1 + 6) % 7

/-- A week date that has a calendar date. -/
def isWeekDate (year week day : Nat) : Bool :=
  let monday := toOrdinal year 1 1 - firstWeekday year + (if firstWeekday year > 3 then 7 else 0)
  1 ≤ year && year ≤ 9999
    && (1 ≤ week && week ≤ 52
      || week = 53 && (firstWeekday year = 3 || firstWeekday year = 2 && isLeapYear year))
    && 1 ≤ day && day ≤ 7
    && monday + (week - 1) * 7 + (day - 1) ≤ toOrdinal 9999 12 31

/-- What follows a hyphen, if there is to be one. -/
def afterHyphen (separated : Bool) (rest : List Char) : Option (List Char) :=
  if separated then
    match rest with
    | '-' :: rest => some rest
    | _ => none
  else some rest

/-- The month and the day, or the week and the day of the week. -/
def isDateWithin (year : Nat) (separated : Bool) : List Char → Bool
  | 'W' :: rest =>
    match takeDigits 2 rest with
    | none => false
    | some (week, []) => isWeekDate year week 1
    | some (week, rest) =>
      match (afterHyphen separated rest).bind (takeDigits 1) with
      | some (day, _) => isWeekDate year week day
      | none => false
  | rest =>
    match takeDigits 2 rest with
    | none => false
    | some (month, rest) =>
      match (afterHyphen separated rest).bind (takeDigits 2) with
      | some (day, _) => (Date.ofParts year month day).isSome
      | none => false

/-- `date.fromisoformat(text)` does not raise. -/
def isIsoDate (text : List Char) : Bool :=
  [7, 8, 10].contains (utf8 text).length
    && match takeDigits 4 text with
      | none => false
      | some (year, '-' :: rest) => isDateWithin year true rest
      | some (year, rest) => isDateWithin year false rest

/-! ## What is written is read -/

section Written

variable {width n : Nat} {rest : List Char}

theorem toList_toString (n : Nat) : (toString n).toList = Nat.toDigits 10 n := by
  rw [Nat.toString_eq_ofList_toDigits, String.toList_ofList]

theorem digitsValue_zeros (count : Nat) (digits : List Char) :
    digitsValue (List.replicate count '0' ++ digits) = digitsValue digits := by
  have zeros : ∀ count : Nat, digitsValue (List.replicate count '0') = 0 := by
    intro count
    induction count with
    | zero => rfl
    | succ count ih =>
      have zero : digitsValue ['0'] = 0 := by decide
      rw [List.replicate_succ', digitsValue_append, ih, zero, Nat.mul_zero]
  rw [digitsValue_append, zeros, Nat.mul_zero, Nat.zero_add]

theorem length_padded (positive : 0 < width) (small : n < 10 ^ width) :
    (Date.padded width n).length = width := by
  have short : (Nat.toDigits 10 n).length ≤ width :=
    (Nat.length_toDigits_le_iff (by decide) positive).mpr small
  simp only [Date.padded, toList_toString, List.length_append, List.length_replicate]
  omega

theorem isDigit_padded : ∀ c ∈ Date.padded width n, c.isDigit = true := by
  intro c isChar
  rw [Date.padded, toList_toString] at isChar
  rcases List.mem_append.mp isChar with isZero | isDigit
  · rw [List.eq_of_mem_replicate isZero]
    rfl
  · exact (isDigitText_toDigits n).2 c isDigit

theorem digitsValue_padded (width n : Nat) : digitsValue (Date.padded width n) = n := by
  rw [Date.padded, toList_toString, digitsValue_zeros, digitsValue_toDigits]

theorem takeDigits_padded (positive : 0 < width) (small : n < 10 ^ width) :
    takeDigits width (Date.padded width n ++ rest) = some (n, rest) := by
  have length := length_padded positive small
  have taken : (Date.padded width n ++ rest).take width = Date.padded width n :=
    List.take_left' length
  have dropped : (Date.padded width n ++ rest).drop width = rest := List.drop_left' length
  rw [takeDigits, taken, dropped, if_pos ⟨length, List.all_eq_true.mpr isDigit_padded⟩,
    digitsValue_padded]

theorem ofParts_parts (date : Date) : Date.ofParts date.year date.month date.day = some date :=
  dif_pos ⟨date.inYears, date.inMonths, date.inDays⟩

theorem length_utf8_of_digits {text : List Char}
    (plain : ∀ c ∈ text, c.isDigit = true ∨ c = '-') : (utf8 text).length = text.length := by
  induction text with
  | nil => rfl
  | cons c text ih =>
    rw [List.forall_mem_cons] at plain
    have ascii : c.toNat ≤ 127 := by
      rcases plain.1 with isDigit | rfl
      · simp only [Char.isDigit, Bool.and_eq_true, decide_eq_true_eq, ge_iff_le] at isDigit
        have high : c.toNat ≤ 57 := isDigit.2
        omega
      · decide
    have one : (String.utf8EncodeChar c).length = 1 := by
      rw [String.length_utf8EncodeChar, Char.utf8Size_eq_one_iff]
      exact ascii
    rw [utf8, List.flatMap_cons, List.length_append, one, List.length_cons, Nat.add_comm]
    exact congrArg (· + 1) (ih plain.2)

/-- An ISO date has digits and hyphens only. -/
theorem plain_isoFormat (date : Date) : ∀ c ∈ date.isoFormat, c.isDigit = true ∨ c = '-' := by
  intro c isChar
  simp only [Date.isoFormat, List.mem_append, List.mem_cons] at isChar
  rcases isChar with isDigit | isHyphen | isDigit | isHyphen | isDigit
  · exact .inl (isDigit_padded c isDigit)
  · exact .inr isHyphen
  · exact .inl (isDigit_padded c isDigit)
  · exact .inr isHyphen
  · exact .inl (isDigit_padded c isDigit)

theorem isDateWithin_calendar {year month day : Nat} {date : Date}
    (isDate : Date.ofParts year month day = some date) (month' : month < 100) (day' : day < 100) :
    isDateWithin year true (Date.padded 2 month ++ '-' :: Date.padded 2 day) = true := by
  have noWeek : ∀ rest, Date.padded 2 month ++ '-' :: Date.padded 2 day ≠ 'W' :: rest := by
    intro rest same
    have positive : 0 < (Date.padded 2 month).length := by
      rw [length_padded (by decide) (by omega)]
      decide
    obtain ⟨c, digits, isPadded⟩ := List.exists_cons_of_length_pos positive
    rw [isPadded, List.cons_append, List.cons.injEq] at same
    have isDigit := @isDigit_padded 2 month c (by simp [isPadded])
    rw [same.1] at isDigit
    cases isDigit
  have readDay : takeDigits 2 (Date.padded 2 day) = some (day, []) := by
    have read : takeDigits 2 (Date.padded 2 day ++ []) = some (day, []) :=
      takeDigits_padded (by decide) (by omega)
    rwa [List.append_nil] at read
  rw [isDateWithin]
  · rw [takeDigits_padded (by decide) (by omega)]
    simp only [afterHyphen, if_true, Option.bind_some, readDay, isDate, Option.isSome_some]
  · exact noWeek

/-- **What `isoformat` writes, `fromisoformat` reads.** -/
theorem isIsoDate_isoFormat (date : Date) : isIsoDate date.isoFormat = true := by
  have month := date.inMonths
  have day := date.inDays
  have longest := Date.daysInMonth_le date.year date.month
  have year := date.inYears
  have length : (utf8 date.isoFormat).length = 10 := by
    rw [length_utf8_of_digits (plain_isoFormat date)]
    simp only [Date.isoFormat, List.length_append, List.length_cons]
    rw [length_padded (by decide) (by omega), length_padded (by decide) (by omega),
      length_padded (by decide) (by omega)]
  have read : takeDigits 4 date.isoFormat
      = some (date.year, '-' :: (Date.padded 2 date.month ++ '-' :: Date.padded 2 date.day)) :=
    takeDigits_padded (by decide) (by omega)
  rw [isIsoDate, length, read]
  exact isDateWithin_calendar (ofParts_parts date) (by omega) (by omega)

end Written

end AxiomEncode.Theory
