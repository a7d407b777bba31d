/-
# Theory.PyDate -- calendar dates

`datetime.date` between the years 1 and 9999, ordered by the calendar, with the
`YYYY-MM-DD` form of `date.fromisoformat`.
-/
import Mathlib.Order.Lattice
import Mathlib.Data.Nat.Basic
import Mathlib.Order.Nat

namespace AxiomEncode.Theory

set_option autoImplicit false

def isLeapYear (year : Nat) : Bool := year % 4 == 0 && (year % 100 != 0 || year % 400 == 0)

def daysInMonth (year month : Nat) : Nat :=
  if month = 2 then if isLeapYear year then 29 else 28
  else if month = 4 ∨ month = 6 ∨ month = 9 ∨ month = 11 then 30
  else 31

structure Date where
  year : Nat
  month : Nat
  day : Nat
  inYears : 1 ≤ year ∧ year ≤ 9999
  inMonths : 1 ≤ month ∧ month ≤ 12
  inDays : 1 ≤ day ∧ day ≤ daysInMonth year month
  deriving DecidableEq

namespace Date

theorem daysInMonth_le (year month : Nat) : daysInMonth year month ≤ 31 := by
  unfold daysInMonth
  split_ifs <;> omega

/-- A number that orders dates as the calendar does. -/
def key (date : Date) : Nat := (date.year * 13 + date.month) * 32 + date.day

theorem key_injective : Function.Injective key := by
  rintro ⟨y, m, d, hy, hm, hd⟩ ⟨y', m', d', hy', hm', hd'⟩ same
  have := daysInMonth_le y m
  have := daysInMonth_le y' m'
  simp only [key] at same
  have days : d = d' := by omega
  have months : m = m' := by omega
  have years : y = y' := by omega
  subst days months years
  rfl

instance : LinearOrder Date := LinearOrder.lift' key key_injective

def ofParts (year month day : Nat) : Option Date :=
  if valid : (1 ≤ year ∧ year ≤ 9999) ∧ (1 ≤ month ∧ month ≤ 12) ∧
      (1 ≤ day ∧ day ≤ daysInMonth year month) then
    some ⟨year, month, day, valid.1, valid.2.1, valid.2.2⟩
  else none

/-- The number that ASCII digits spell. -/
def digits? (text : List Char) : Option Nat :=
  if text.all fun c => '0' ≤ c && c ≤ '9' then
    some (text.foldl (fun value c => value * 10 + (c.toNat - '0'.toNat)) 0)
  else none

/-- `date.fromisoformat` of a text `YYYY-MM-DD`. -/
def fromIsoFormat (text : List Char) : Option Date :=
  if text.length = 10 ∧ text[4]? = some '-' ∧ text[7]? = some '-' then do
    let year ← digits? (text.take 4)
    let month ← digits? ((text.drop 5).take 2)
    let day ← digits? (text.drop 8)
    ofParts year month day
  else none

/-! ## The day after -/

/-- `date.max` -/
def max : Date := ⟨9999, 12, 31, by decide, by decide, by decide⟩

/-- `date + timedelta(days=1)`, nothing where Python raises `OverflowError`. -/
def addDay (date : Date) : Option Date :=
  if date.day < daysInMonth date.year date.month then ofParts date.year date.month (date.day + 1)
  else if date.month < 12 then ofParts date.year (date.month + 1) 1
  else ofParts (date.year + 1) 1 1

/-- `date.fromordinal(date.toordinal() - 1)`, nothing where Python raises `ValueError`. -/
def subDay (date : Date) : Option Date :=
  if 1 < date.day then ofParts date.year date.month (date.day - 1)
  else if 1 < date.month then
    ofParts date.year (date.month - 1) (daysInMonth date.year (date.month - 1))
  else ofParts (date.year - 1) 12 31

/-- A number in digits, filled up with zeros. -/
def padded (width value : Nat) : List Char :=
  let digits := (toString value).toList
  List.replicate (width - digits.length) '0' ++ digits

/-- `date.isoformat()` -/
def isoFormat (date : Date) : List Char :=
  padded 4 date.year ++ '-' :: (padded 2 date.month ++ '-' :: padded 2 date.day)

theorem key_le_iff {a b : Date} : a ≤ b ↔ a.key ≤ b.key := Iff.rfl

theorem key_lt_iff {a b : Date} : a < b ↔ a.key < b.key := Iff.rfl

theorem le_max (date : Date) : date ≤ max := by
  have := date.inYears
  have := date.inMonths
  have := date.inDays
  have := daysInMonth_le date.year date.month
  show date.key ≤ max.key
  simp only [key, max]
  omega

theorem daysInMonth_pos (year month : Nat) : 1 ≤ daysInMonth year month := by
  unfold daysInMonth
  split_ifs <;> omega

variable {date : Date}

theorem ofParts_eq_some {year month day : Nat} (read : ofParts year month day = some date) :
    date.year = year ∧ date.month = month ∧ date.day = day := by
  unfold ofParts at read
  split at read
  · cases read
    exact ⟨rfl, rfl, rfl⟩
  · cases read

/-- A day that is not the last has one after it. -/
theorem exists_addDay (early : date < max) : ∃ after, date.addDay = some after := by
  obtain ⟨year, month, day, inYears, inMonths, inDays⟩ := date
  have first := daysInMonth_pos year (month + 1)
  have january := daysInMonth_pos (year + 1) 1
  rw [key_lt_iff] at early
  simp only [key, max] at early
  simp only [addDay]
  split_ifs with within yearly
  · exact ⟨_, dif_pos ⟨inYears, inMonths, by omega⟩⟩
  · exact ⟨_, dif_pos ⟨inYears, by omega, by omega⟩⟩
  · -- the end of December, of a year before the last
    have december : month = 12 := by omega
    subst december
    have days : daysInMonth year 12 = 31 := rfl
    exact ⟨_, dif_pos ⟨by omega, by omega, by omega⟩⟩

/-- Nothing lies between a day and the day after. -/
theorem lt_iff_addDay_le {after : Date} (next : date.addDay = some after) (other : Date) :
    date < other ↔ after ≤ other := by
  have := date.inDays
  have := date.inMonths
  have := other.inDays
  have := other.inMonths
  have := daysInMonth_le other.year other.month
  have := daysInMonth_le date.year date.month
  rw [key_lt_iff, key_le_iff]
  simp only [key]
  unfold addDay at next
  split_ifs at next with within yearly
  · obtain ⟨years, months, days⟩ := ofParts_eq_some next
    omega
  · obtain ⟨years, months, days⟩ := ofParts_eq_some next
    by_cases same : other.year = date.year ∧ other.month = date.month
    · have short : other.day ≤ daysInMonth date.year date.month := by
        rw [← same.1, ← same.2]
        omega
      omega
    · omega
  · obtain ⟨years, months, days⟩ := ofParts_eq_some next
    by_cases same : other.year = date.year ∧ other.month = date.month
    · have short : other.day ≤ daysInMonth date.year date.month := by
        rw [← same.1, ← same.2]
        omega
      omega
    · omega

/-! ## The day before -/

end Date

end AxiomEncode.Theory
