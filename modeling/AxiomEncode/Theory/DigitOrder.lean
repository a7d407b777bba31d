/-
# Theory.DigitOrder -- the order of digit texts

Of two digit texts of one length the greater number is written by the one whose digit is greater
where the two first differ (`digitsValue_lt_iff`); of canonical ones of different lengths, by the longer
(`digitsValue_lt_of_longer`).
-/
import AxiomEncode.Theory.Digits

namespace AxiomEncode.Theory

set_option autoImplicit false

variable {c e : Char} {digits other : List Char}

/-- The two texts agree up to a digit that is greater in the second. -/
def RaisedTo (digits other : List Char) : Prop :=
  ∃ front c back e behind, digits = front ++ c :: back ∧ other = front ++ e :: behind ∧ c < e

theorem digitChar_lt_iff {d m : Nat} (small : d < 10) (small' : m < 10) :
    d.digitChar < m.digitChar ↔ d < m := by
  have table : ∀ d < 10, ∀ m < 10, (d.digitChar < m.digitChar ↔ d < m) := by decide
  exact table d small m small'

theorem digitsValue_cons {d : Nat} (small : d < 10) (digits : List Char) :
    digitsValue (d.digitChar :: digits) = 10 ^ digits.length * d + digitsValue digits := by
  rw [← List.singleton_append, digitsValue_append, digitsValue_digitChar small]

/-- A first digit counts for more than all digits behind it. -/
theorem digitsValue_cons_lt_iff (digit : c.isDigit = true) (digit' : e.isDigit = true)
    (all : ∀ x ∈ digits, x.isDigit = true) (all' : ∀ x ∈ other, x.isDigit = true)
    (length : digits.length = other.length) :
    digitsValue (c :: digits) < digitsValue (e :: other) ↔
      c < e ∨ c = e ∧ digitsValue digits < digitsValue other := by
  obtain ⟨d, small, rfl⟩ := exists_digitChar digit
  obtain ⟨m, small', rfl⟩ := exists_digitChar digit'
  have below := digitsValue_lt digits all
  have below' := digitsValue_lt other all'
  rw [digitsValue_cons small, digitsValue_cons small', digitChar_lt_iff small small', length]
  rw [length] at below
  rcases Nat.lt_trichotomy d m with less | rfl | more
  · have step : 10 ^ other.length * (d + 1) ≤ 10 ^ other.length * m := Nat.mul_le_mul_left _ less
    rw [Nat.mul_succ] at step
    exact iff_of_true (by omega) (.inl less)
  · simp
  · have step : 10 ^ other.length * (m + 1) ≤ 10 ^ other.length * d := Nat.mul_le_mul_left _ more
    rw [Nat.mul_succ] at step
    refine iff_of_false (by omega) ?_
    rintro (less | ⟨same, -⟩)
    · omega
    · have apart := (digitChar_lt_iff small' small).mpr more
      rw [same] at apart
      exact absurd apart (Char.lt_irrefl _)

/-- **Texts of one length are ordered by the first digit in which they differ.** -/
theorem digitsValue_lt_iff (all : ∀ x ∈ digits, x.isDigit = true)
    (all' : ∀ x ∈ other, x.isDigit = true) (length : digits.length = other.length) :
    digitsValue digits < digitsValue other ↔ RaisedTo digits other := by
  induction digits generalizing other with
  | nil =>
    obtain rfl : other = [] := List.length_eq_zero_iff.mp length.symm
    refine iff_of_false (lt_irrefl _) ?_
    rintro ⟨front, c, back, -, -, split, -⟩
    exact List.append_ne_nil_of_right_ne_nil front (List.cons_ne_nil c back) split.symm
  | cons c digits ih =>
    obtain ⟨e, other, rfl⟩ := List.exists_cons_of_length_eq_add_one length.symm
    obtain ⟨digit, rest⟩ := List.forall_mem_cons.mp all
    obtain ⟨digit', rest'⟩ := List.forall_mem_cons.mp all'
    have shorter : digits.length = other.length := Nat.succ.inj length
    rw [digitsValue_cons_lt_iff digit digit' rest rest' shorter, ih rest rest' shorter]
    constructor
    · rintro (less | ⟨rfl, front, x, back, y, behind, rfl, rfl, less⟩)
      · exact ⟨[], c, digits, e, other, rfl, rfl, less⟩
      · exact ⟨c :: front, x, back, y, behind, rfl, rfl, less⟩
    · rintro ⟨front, x, back, y, behind, split, split', less⟩
      cases front with
      | nil =>
        obtain ⟨rfl, rfl⟩ := List.cons.inj split
        obtain ⟨rfl, rfl⟩ := List.cons.inj split'
        exact .inl less
      | cons z front =>
        obtain ⟨rfl, rfl⟩ := List.cons.inj split
        obtain ⟨rfl, rfl⟩ := List.cons.inj split'
        exact .inr ⟨rfl, front, x, back, y, behind, rfl, rfl, less⟩

/-- A text without a leading zero writes at least the power of ten of its first place. -/
theorem pow_le_digitsValue (all : ∀ x ∈ digits, x.isDigit = true)
    (start : digits.head?.any (· ≠ '0')) : 10 ^ (digits.length - 1) ≤ digitsValue digits := by
  cases digits with
  | nil => simp at start
  | cons c digits =>
    obtain ⟨d, small, rfl⟩ := exists_digitChar (all c List.mem_cons_self)
    have positive : 0 < d := by
      simp only [List.head?_cons, Option.any_some, ne_eq, decide_eq_true_eq,
        Nat.digitChar_eq_zero] at start
      omega
    rw [digitsValue_cons small, List.length_cons, Nat.add_sub_cancel]
    have first : 10 ^ digits.length * 1 ≤ 10 ^ digits.length * d := Nat.mul_le_mul_left _ positive
    omega

/-- A text without a leading zero writes more than every shorter one. -/
theorem digitsValue_lt_of_longer (all : ∀ x ∈ digits, x.isDigit = true)
    (all' : ∀ x ∈ other, x.isDigit = true) (start : other.head?.any (· ≠ '0'))
    (longer : digits.length < other.length) : digitsValue digits < digitsValue other := by
  have grows : 10 ^ digits.length ≤ 10 ^ (other.length - 1) :=
    Nat.pow_le_pow_right (by decide) (Nat.le_sub_one_of_lt longer)
  exact (digitsValue_lt digits all).trans_le (grows.trans (pow_le_digitsValue all' start))

end AxiomEncode.Theory
