/-
# Theory.Digits -- decimal digit texts

A nonempty text of ASCII digits writes a number (`digitsValue`), and a canonical one is
`Nat.toDigits` of the number it writes.  `groupsOf` cuts a number's digits into groups of
three from the right; every canonical list of groups is the one of its number.
-/
import Mathlib.Tactic.Common
import Mathlib.Data.List.Induction
import Mathlib.Tactic.Positivity

namespace AxiomEncode.Theory

set_option autoImplicit false

/-- A nonempty text of ASCII digits. -/
def IsDigitText (text : List Char) : Prop := text ≠ [] ∧ ∀ c ∈ text, c.isDigit = true

/-- The number a digit text writes. -/
def digitsValue (digits : List Char) : Nat := Nat.ofDigitChars 10 digits 0

variable {n d : Nat} {c : Char} {digits other first group : List Char}
  {groups rest : List (List Char)}

@[simp] theorem digitsValue_nil : digitsValue [] = 0 := rfl

theorem digitsValue_append (digits other : List Char) :
    digitsValue (digits ++ other) = 10 ^ other.length * digitsValue digits + digitsValue other := by
  unfold digitsValue
  rw [Nat.ofDigitChars_append, Nat.ofDigitChars_eq_ofDigitChars_zero]

@[simp] theorem digitsValue_toDigits (n : Nat) : digitsValue (Nat.toDigits 10 n) = n :=
  Nat.ofDigitChars_ten_toDigits

theorem digitsValue_digitChar (small : d < 10) : digitsValue [d.digitChar] = d := by
  have := digitsValue_toDigits d
  rwa [Nat.toDigits_of_lt_base small] at this

theorem exists_digitChar (digit : c.isDigit = true) : ∃ d, d < 10 ∧ c = d.digitChar := by
  simp only [Char.isDigit, Bool.and_eq_true, decide_eq_true_eq, ge_iff_le] at digit
  obtain ⟨low, high⟩ := digit
  have lower : 48 ≤ c.toNat := low
  have upper : c.toNat ≤ 57 := high
  refine ⟨c.toNat - 48, by omega, Char.toNat_inj.mp ?_⟩
  rw [Nat.toNat_digitChar_of_lt_ten (by omega)]
  omega

theorem isDigitText_toDigits (n : Nat) : IsDigitText (Nat.toDigits 10 n) :=
  ⟨Nat.toDigits_ne_nil, fun _ member => Nat.isDigit_of_mem_toDigits (by decide) (by decide) member⟩

theorem digitsValue_lt (digits : List Char) (all : ∀ c ∈ digits, c.isDigit = true) :
    digitsValue digits < 10 ^ digits.length := by
  induction digits using List.reverseRecOn with
  | nil => simp
  | append_singleton digits c ih =>
    obtain ⟨d, small, rfl⟩ := exists_digitChar (all c (by simp))
    have below := ih fun c member => all c (by simp [member])
    rw [digitsValue_append, digitsValue_digitChar small]
    simp only [List.length_append, List.length_singleton, pow_succ, pow_zero]
    omega

theorem digitsValue_pos (all : ∀ c ∈ digits, c.isDigit = true) (start : digits.head?.any (· ≠ '0')) :
    0 < digitsValue digits := by
  cases digits with
  | nil => simp at start
  | cons c digits =>
    obtain ⟨d, small, rfl⟩ := exists_digitChar (all c (by simp))
    have positive : 0 < d := by
      simp only [List.head?_cons, Option.any_some, ne_eq, decide_eq_true_eq,
        Nat.digitChar_eq_zero] at start
      omega
    rw [← List.singleton_append, digitsValue_append, digitsValue_digitChar small]
    have : 0 < 10 ^ digits.length * d := Nat.mul_pos (by positivity) positive
    omega

/-- A digit text without a leading zero is the canonical one of its number. -/
theorem toDigits_digitsValue (digits : List Char) (all : ∀ c ∈ digits, c.isDigit = true)
    (start : digits.head?.any (· ≠ '0')) : Nat.toDigits 10 (digitsValue digits) = digits := by
  induction digits using List.reverseRecOn with
  | nil => simp at start
  | append_singleton digits c ih =>
    obtain ⟨d, small, rfl⟩ := exists_digitChar (all c (by simp))
    rw [digitsValue_append, digitsValue_digitChar small, List.length_singleton, pow_one]
    cases digits with
    | nil => simp [Nat.toDigits_of_lt_base small]
    | cons e digits =>
      have earlier : ∀ c ∈ e :: digits, c.isDigit = true := fun c member =>
        all c (List.mem_append_left _ member)
      have head : (e :: digits).head?.any (· ≠ '0') := by simpa using start
      rw [← Nat.toDigits_append_toDigits (by decide) (digitsValue_pos earlier head) small,
        ih earlier head, Nat.toDigits_of_lt_base small]

/-! ## Groups of three -/

/-- Three digits, with zeros in front. -/
def threeDigits (n : Nat) : List Char :=
  [(n / 100).digitChar, (n / 10 % 10).digitChar, (n % 10).digitChar]

/-- The digits of a number in groups of three from the right. -/
def groupsOf (n : Nat) : List (List Char) :=
  if n < 1000 then [Nat.toDigits 10 n] else groupsOf (n / 1000) ++ [threeDigits (n % 1000)]
decreasing_by omega

/-- One to three digits without a leading zero, then groups of three digits. -/
structure CanonicalGroups (first : List Char) (rest : List (List Char)) : Prop where
  firstDigits : IsDigitText first
  firstShort : first.length ≤ 3
  firstStart : first.head?.any (· ≠ '0')
  restDigits : ∀ group ∈ rest, IsDigitText group
  restLength : ∀ group ∈ rest, group.length = 3

theorem isDigitText_threeDigits (small : n < 1000) : IsDigitText (threeDigits n) := by
  refine ⟨by simp [threeDigits], fun c member => ?_⟩
  simp only [threeDigits, List.mem_cons, List.not_mem_nil, or_false] at member
  rcases member with rfl | rfl | rfl <;>
    · rw [Nat.isDigit_digitChar, decide_eq_true_eq]
      omega

theorem digitsValue_threeDigits (small : n < 1000) : digitsValue (threeDigits n) = n := by
  have split : threeDigits n
      = [(n / 100).digitChar] ++ ([(n / 10 % 10).digitChar] ++ [(n % 10).digitChar]) := rfl
  rw [split, digitsValue_append, digitsValue_append, digitsValue_digitChar (by omega),
    digitsValue_digitChar (by omega), digitsValue_digitChar (by omega)]
  simp only [List.length_append, List.length_singleton]
  omega

theorem threeDigits_digitsValue (all : ∀ c ∈ group, c.isDigit = true) (three : group.length = 3) :
    threeDigits (digitsValue group) = group := by
  obtain ⟨a, b, c, rfl⟩ := List.length_eq_three.mp three
  obtain ⟨x, smallX, rfl⟩ := exists_digitChar (all a (by simp))
  obtain ⟨y, smallY, rfl⟩ := exists_digitChar (all b (by simp))
  obtain ⟨z, smallZ, rfl⟩ := exists_digitChar (all c (by simp))
  have value : digitsValue [x.digitChar, y.digitChar, z.digitChar] = 100 * x + 10 * y + z := by
    have split : [x.digitChar, y.digitChar, z.digitChar]
        = [x.digitChar] ++ ([y.digitChar] ++ [z.digitChar]) := rfl
    rw [split, digitsValue_append, digitsValue_append, digitsValue_digitChar smallX,
      digitsValue_digitChar smallY, digitsValue_digitChar smallZ]
    simp only [List.length_append, List.length_singleton]
    omega
  rw [value, threeDigits, show (100 * x + 10 * y + z) / 100 = x by omega,
    show (100 * x + 10 * y + z) / 10 % 10 = y by omega,
    show (100 * x + 10 * y + z) % 10 = z by omega]

theorem digitsValue_groupsOf (n : Nat) : digitsValue (groupsOf n).flatten = n := by
  induction n using groupsOf.induct with
  | case1 n small => rw [groupsOf, if_pos small]; simp
  | case2 n large ih =>
    have below : n % 1000 < 1000 := Nat.mod_lt _ (by decide)
    rw [groupsOf, if_neg large, List.flatten_append, digitsValue_append, ih,
      List.flatten_singleton, digitsValue_threeDigits below]
    simp only [threeDigits, List.length_cons, List.length_nil]
    omega

theorem toDigits_head (positive : 0 < n) : (Nat.toDigits 10 n).head?.any (· ≠ '0') := by
  induction n using Nat.strongRecOn with
  | ind n ih =>
    rcases Nat.lt_or_ge n 10 with small | large
    · rw [Nat.toDigits_of_lt_base small]
      simp only [List.head?_cons, Option.any_some, ne_eq, decide_eq_true_eq,
        Nat.digitChar_eq_zero]
      omega
    · have head := ih (n / 10) (by omega) (by omega)
      rw [Nat.toDigits_of_base_le (by decide) large, List.head?_append]
      cases found : (Nat.toDigits 10 (n / 10)).head? with
      | none => simp [found] at head
      | some c => simpa [found] using head

/-- The groups of a positive number are canonical. -/
theorem exists_groupsOf (positive : 0 < n) :
    ∃ first rest, groupsOf n = first :: rest ∧ CanonicalGroups first rest := by
  induction n using groupsOf.induct with
  | case1 n small =>
    refine ⟨Nat.toDigits 10 n, [], by rw [groupsOf, if_pos small],
      ⟨isDigitText_toDigits n, ?_, toDigits_head positive, by simp, by simp⟩⟩
    exact (Nat.length_toDigits_le_iff (by decide) (by decide)).mpr (by omega)
  | case2 n large ih =>
    obtain ⟨first, rest, cut, canonical⟩ := ih (by omega)
    refine ⟨first, rest ++ [threeDigits (n % 1000)],
      by rw [groupsOf, if_neg large, cut, List.cons_append],
      { canonical with restDigits := ?_, restLength := ?_ }⟩
    · intro group member
      rcases List.mem_append.mp member with early | last
      · exact canonical.restDigits group early
      · rw [List.mem_singleton.mp last]
        exact isDigitText_threeDigits (Nat.mod_lt _ (by decide))
    · intro group member
      rcases List.mem_append.mp member with early | last
      · exact canonical.restLength group early
      · rw [List.mem_singleton.mp last]
        rfl

theorem CanonicalGroups.value_pos (canonical : CanonicalGroups first rest) :
    0 < digitsValue (first :: rest).flatten := by
  have all : ∀ c ∈ (first :: rest).flatten, c.isDigit = true := by
    intro c member
    obtain ⟨group, inside, here⟩ := List.mem_flatten.mp member
    rcases List.mem_cons.mp inside with rfl | inside
    · exact canonical.firstDigits.2 c here
    · exact (canonical.restDigits group inside).2 c here
  refine digitsValue_pos all ?_
  obtain ⟨c, tail, rfl⟩ := List.exists_cons_of_ne_nil canonical.firstDigits.1
  simpa using canonical.firstStart

/-- **Canonical groups are the groups of their number.** -/
theorem groupsOf_digitsValue (first : List Char) (rest : List (List Char))
    (canonical : CanonicalGroups first rest) :
    groupsOf (digitsValue (first :: rest).flatten) = first :: rest := by
  induction rest using List.reverseRecOn with
  | nil =>
    have small := digitsValue_lt first canonical.firstDigits.2
    have bound : 10 ^ first.length ≤ 10 ^ 3 :=
      Nat.pow_le_pow_right (by decide) canonical.firstShort
    rw [groupsOf, if_pos (by simp; omega)]
    simp [toDigits_digitsValue first canonical.firstDigits.2 canonical.firstStart]
  | append_singleton rest group ih =>
    have inner : CanonicalGroups first rest :=
      { canonical with
        restDigits := fun group member => canonical.restDigits group (by simp [member])
        restLength := fun group member => canonical.restLength group (by simp [member]) }
    have digits := canonical.restDigits group (by simp)
    have three := canonical.restLength group (by simp)
    have small := digitsValue_lt group digits.2
    have positive := inner.value_pos
    rw [three] at small
    have value : digitsValue (first :: (rest ++ [group])).flatten
        = 1000 * digitsValue (first :: rest).flatten + digitsValue group := by
      rw [← List.cons_append, List.flatten_append, List.flatten_singleton, digitsValue_append,
        three, show 10 ^ 3 = 1000 from rfl]
    rw [value, groupsOf, if_neg (by omega)]
    rw [show (1000 * digitsValue (first :: rest).flatten + digitsValue group) / 1000
        = digitsValue (first :: rest).flatten by omega,
      show (1000 * digitsValue (first :: rest).flatten + digitsValue group) % 1000
        = digitsValue group by omega,
      ih inner, threeDigits_digitsValue digits.2 three, List.cons_append]

end AxiomEncode.Theory
