/-
# Theory.Binary64 -- rounding to floats keeps the order

`roundEven_mono` is the order of the integers that rationals round to, and
`binary64_mono` that of the floats: between two powers of two floats are the multiples of one
unit, and a power of two is a float (`rounded_mono`).  `roundDigits` is `round(x, digits)`.
-/
import AxiomEncode.Theory.PyNumber
import Mathlib.Tactic.Linarith
import Mathlib.Tactic.FieldSimp
import Mathlib.Tactic.Positivity
import Mathlib.Tactic.NormNum
import Mathlib.Tactic.Push
import Mathlib.Algebra.Order.Field.Power

namespace AxiomEncode.Theory

set_option autoImplicit false

namespace PyFloat

/-- The order of the floats. -/
def leq : PyFloat → PyFloat → Prop
  | negInf, _ => True
  | _, inf => True
  | finite a, finite b => a ≤ b
  | _, _ => False

instance (a b : PyFloat) : Decidable (a.leq b) := by
  cases a <;> cases b <;> unfold leq <;> infer_instance

end PyFloat

/-- `round(x, digits)` -/
def roundDigits (digits : Nat) : PyFloat → PyFloat
  | .finite value => binary64 (roundEven (value * 10 ^ digits) / 10 ^ digits)
  | x => x

section Rounding

variable {q r : ℚ} {a b : PyFloat} {n : Int}

/-! ## Integers -/

theorem roundEven_bounds (q : ℚ) : (roundEven q : ℚ) - 1 / 2 ≤ q ∧ q ≤ roundEven q + 1 / 2 := by
  have below := Int.floor_le q
  have above := Int.lt_floor_add_one q
  unfold roundEven
  simp only
  split_ifs <;> push_cast <;> constructor <;> linarith

theorem roundEven_mono (le : q ≤ r) : roundEven q ≤ roundEven r := by
  by_contra crossing
  have step : roundEven r + 1 ≤ roundEven q := by omega
  have step : (roundEven r : ℚ) + 1 ≤ roundEven q := by exact_mod_cast step
  have lower := (roundEven_bounds q).1
  have upper := (roundEven_bounds r).2
  have same : q = r := by linarith
  rw [same] at step
  linarith

theorem roundEven_int (n : Int) : roundEven n = n := by
  simp [roundEven]

theorem le_roundEven (le : (n : ℚ) ≤ q) : n ≤ roundEven q := by
  have mono := roundEven_mono le
  rwa [roundEven_int] at mono

theorem roundEven_le (le : q ≤ n) : roundEven q ≤ n := by
  have mono := roundEven_mono le
  rwa [roundEven_int] at mono

/-- Halves go to the even neighbour. -/
theorem roundEven_tie (tie : q = roundEven q - 1 / 2 ∨ q = roundEven q + 1 / 2) : Even (roundEven q) := by
  have below := Int.floor_le q
  have above := Int.lt_floor_add_one q
  have cast (n : Int) : ((n + 1 : Int) : ℚ) = n + 1 := by push_cast; ring
  unfold roundEven at tie ⊢
  simp only at tie ⊢
  split_ifs at tie ⊢ with first second third
  · exfalso
    rcases tie with tie | tie <;> linarith
  · exfalso
    rw [cast] at tie
    rcases tie with tie | tie <;> linarith
  · exact Int.even_iff.mpr third
  · exact Int.even_add_one.mpr (mt Int.even_iff.mp third)

theorem le_roundEven_iff :
    n ≤ roundEven q ↔ (n : ℚ) - 1 / 2 < q ∨ ((n : ℚ) - 1 / 2 = q ∧ Even n) := by
  obtain ⟨lower, upper⟩ := roundEven_bounds q
  constructor
  · intro le
    rcases le.eq_or_lt with same | less
    · rw [same]
      rcases lower.eq_or_lt with tie | strict
      · exact .inr ⟨tie, roundEven_tie (.inl tie.symm)⟩
      · exact .inl strict
    · have step : (n : ℚ) + 1 ≤ roundEven q := by exact_mod_cast less
      exact .inl (by linarith)
  · intro reaches
    by_contra short
    have step : (roundEven q : ℚ) + 1 ≤ n := by exact_mod_cast not_le.mp short
    rcases reaches with strict | ⟨tie, isEven⟩
    · linarith
    · have isTie : q = roundEven q + 1 / 2 := by linarith
      have isNext : (n : ℚ) = ((roundEven q + 1 : Int) : ℚ) := by
        push_cast
        linarith
      rw [Int.cast_inj.mp isNext, Int.even_add_one] at isEven
      exact isEven (roundEven_tie (.inr isTie))

theorem roundEven_le_iff :
    roundEven q ≤ n ↔ q < (n : ℚ) + 1 / 2 ∨ (q = (n : ℚ) + 1 / 2 ∧ Even n) := by
  obtain ⟨lower, upper⟩ := roundEven_bounds q
  constructor
  · intro le
    rcases le.eq_or_lt with same | less
    · rw [← same]
      rcases upper.eq_or_lt with tie | strict
      · exact .inr ⟨tie, roundEven_tie (.inr tie)⟩
      · exact .inl strict
    · have step : (roundEven q : ℚ) + 1 ≤ n := by exact_mod_cast less
      exact .inl (by linarith)
  · intro stays
    by_contra exceeds
    have step : (n : ℚ) + 1 ≤ roundEven q := by exact_mod_cast not_le.mp exceeds
    rcases stays with strict | ⟨tie, isEven⟩
    · linarith
    · have isTie : q = roundEven q - 1 / 2 := by linarith
      have isNext : (roundEven q : ℚ) = ((n + 1 : Int) : ℚ) := by
        push_cast
        linarith
      have nextEven := roundEven_tie (.inl isTie)
      rw [Int.cast_inj.mp isNext, Int.even_add_one] at nextEven
      exact nextEven isEven

/-! ## The binary exponent -/

theorem exponentOf_spec (positive : 0 < q) :
    (2 : ℚ) ^ exponentOf q ≤ q ∧ q < 2 ^ (exponentOf q + 1) := by
  have numPositive : 0 < q.num := Rat.num_pos.mpr positive
  have numNe : q.num.natAbs ≠ 0 := by omega
  set up : Nat := Nat.log2 q.num.natAbs with isUp
  set down : Nat := Nat.log2 q.den with isDown
  have numLow : 2 ^ up ≤ q.num.natAbs := Nat.log2_self_le numNe
  have numHigh : q.num.natAbs < 2 ^ (up + 1) := Nat.lt_log2_self
  have denLow : 2 ^ down ≤ q.den := Nat.log2_self_le q.den_ne_zero
  have denHigh : q.den < 2 ^ (down + 1) := Nat.lt_log2_self
  have denPositive : (0 : ℚ) < q.den := by exact_mod_cast q.den_pos
  have isNum : (q.num.natAbs : ℚ) = q * q.den := by
    have isNatAbs : (q.num.natAbs : Int) = q.num := Int.natAbs_of_nonneg numPositive.le
    rw [Rat.mul_den_eq_num]
    simpa only [Int.cast_natCast] using congrArg (fun k : Int => (k : ℚ)) isNatAbs
  have numLow : (2 : ℚ) ^ up ≤ q * q.den := by
    rw [← isNum]
    exact_mod_cast numLow
  have numHigh : q * q.den < 2 ^ (up + 1) := by
    rw [← isNum]
    exact_mod_cast numHigh
  have denLow : (2 : ℚ) ^ down ≤ q.den := by exact_mod_cast denLow
  have denHigh : (q.den : ℚ) < 2 ^ (down + 1) := by exact_mod_cast denHigh
  have power (k : Nat) : (0 : ℚ) < 2 ^ k := by positivity
  -- the quotient of the two leading powers is off by at most one
  have low : (2 : ℚ) ^ ((up : Int) - down - 1) ≤ q := by
    have split : (2 : ℚ) ^ ((up : Int) - down - 1) = 2 ^ up / 2 ^ (down + 1) := by
      rw [show (up : Int) - down - 1 = (up : Int) - ((down + 1 : Nat) : Int) by push_cast; ring,
        zpow_sub₀ (by norm_num), zpow_natCast, zpow_natCast]
    rw [split, div_le_iff₀ (power _)]
    calc (2 : ℚ) ^ up ≤ q * q.den := numLow
      _ ≤ q * 2 ^ (down + 1) := mul_le_mul_of_nonneg_left denHigh.le positive.le
  have high : q < 2 ^ ((up : Int) - down + 1) := by
    have split : (2 : ℚ) ^ ((up : Int) - down + 1) = 2 ^ (up + 1) / 2 ^ down := by
      rw [show (up : Int) - down + 1 = ((up + 1 : Nat) : Int) - (down : Int) by push_cast; ring,
        zpow_sub₀ (by norm_num), zpow_natCast, zpow_natCast]
    rw [split, lt_div_iff₀ (power _)]
    calc q * 2 ^ down ≤ q * q.den := mul_le_mul_of_nonneg_left denLow positive.le
      _ < 2 ^ (up + 1) := numHigh
  rw [exponentOf]
  simp only [← isUp, ← isDown]
  split_ifs with small
  · exact ⟨low, by rwa [sub_add_cancel]⟩
  · exact ⟨not_lt.mp small, high⟩

theorem exponentOf_mono (positive : 0 < q) (le : q ≤ r) : exponentOf q ≤ exponentOf r := by
  have low := (exponentOf_spec positive).1
  have high := (exponentOf_spec (lt_of_lt_of_le positive le)).2
  have powers : (2 : ℚ) ^ exponentOf q < 2 ^ (exponentOf r + 1) := lt_of_le_of_lt (low.trans le) high
  have := (zpow_lt_zpow_iff_right₀ (by norm_num : (1 : ℚ) < 2)).mp powers
  omega

/-! ## Floats -/

/-- The distance of the floats around a rational. -/
def unitOf (q : ℚ) : Int := max (exponentOf |q| - 52) (-1074)

/-- The nearest multiple of the unit. -/
def roundedTo (q : ℚ) : ℚ := roundEven (q / 2 ^ unitOf q) * 2 ^ unitOf q

theorem roundedTo_mono (positive : 0 < q) (le : q ≤ r) : roundedTo q ≤ roundedTo r := by
  have positive' : 0 < r := lt_of_lt_of_le positive le
  have exponents := exponentOf_mono positive le
  have isUnit : unitOf q = max (exponentOf q - 52) (-1074) := by rw [unitOf, abs_of_pos positive]
  have isUnit' : unitOf r = max (exponentOf r - 52) (-1074) := by rw [unitOf, abs_of_pos positive']
  have power (k : Int) : (0 : ℚ) < 2 ^ k := by positivity
  rcases eq_or_lt_of_le (show unitOf q ≤ unitOf r by omega) with same | finer
  · rw [roundedTo, roundedTo, ← same]
    have scaled : q / 2 ^ unitOf q ≤ r / 2 ^ unitOf q := div_le_div_of_nonneg_right le (power _).le
    have rounded : (roundEven (q / 2 ^ unitOf q) : ℚ) ≤ roundEven (r / 2 ^ unitOf q) := by
      exact_mod_cast roundEven_mono scaled
    exact mul_le_mul_of_nonneg_right rounded (power _).le
  · -- the power of two at the start of the coarser floats lies between them
    have scale (u : Int) (k : Nat) (sum : (k : Int) + u = exponentOf r) :
        ((2 ^ k : Nat) : ℚ) * 2 ^ u = 2 ^ exponentOf r := by
      rw [← sum, zpow_add₀ (by norm_num), zpow_natCast]
      push_cast
      rfl
    have below : q ≤ 2 ^ exponentOf r := by
      have strict : exponentOf q + 1 ≤ exponentOf r := by omega
      exact (exponentOf_spec positive).2.le.trans (zpow_le_zpow_right₀ (by norm_num) strict)
    have above : (2 : ℚ) ^ exponentOf r ≤ r := (exponentOf_spec positive').1
    obtain ⟨k, isK⟩ : ∃ k : Nat, (k : Int) + unitOf q = exponentOf r :=
      ⟨(exponentOf r - unitOf q).toNat, by omega⟩
    obtain ⟨k', isK'⟩ : ∃ k : Nat, (k : Int) + unitOf r = exponentOf r :=
      ⟨(exponentOf r - unitOf r).toNat, by omega⟩
    have first : roundedTo q ≤ 2 ^ exponentOf r := by
      have scaled : q / 2 ^ unitOf q ≤ ((2 ^ k : Nat) : Int) := by
        rw [div_le_iff₀ (power _), Int.cast_natCast, scale _ _ isK]
        exact below
      have rounded : (roundEven (q / 2 ^ unitOf q) : ℚ) ≤ ((2 ^ k : Nat) : ℚ) := by
        exact_mod_cast roundEven_le scaled
      rw [roundedTo, ← scale _ _ isK]
      exact mul_le_mul_of_nonneg_right rounded (power _).le
    have second : 2 ^ exponentOf r ≤ roundedTo r := by
      have scaled : (((2 ^ k' : Nat) : Int) : ℚ) ≤ r / 2 ^ unitOf r := by
        rw [le_div_iff₀ (power _), Int.cast_natCast, scale _ _ isK']
        exact above
      have rounded : ((2 ^ k' : Nat) : ℚ) ≤ (roundEven (r / 2 ^ unitOf r) : ℚ) := by
        exact_mod_cast le_roundEven scaled
      rw [roundedTo, ← scale _ _ isK']
      exact mul_le_mul_of_nonneg_right rounded (power _).le
    exact first.trans second

theorem binary64_zero : binary64 0 = .finite 0 := if_pos rfl

theorem roundedTo_nonneg (nonneg : 0 ≤ q) : 0 ≤ roundedTo q := by
  have scaled : (0 : ℚ) ≤ q / 2 ^ unitOf q := div_nonneg nonneg (by positivity)
  have rounded : (0 : ℚ) ≤ roundEven (q / 2 ^ unitOf q) := by
    exact_mod_cast le_roundEven (n := 0) (by exact_mod_cast scaled)
  exact mul_nonneg rounded (by positivity)

theorem binary64_positive (positive : 0 < q) :
    binary64 q = if 2 ^ (1024 : Int) ≤ roundedTo q then .inf else .finite (roundedTo q) := by
  have nonneg := roundedTo_nonneg positive.le
  have notBelow : ¬ roundedTo q ≤ -2 ^ (1024 : Int) := by
    have power : (0 : ℚ) < 2 ^ (1024 : Int) := by positivity
    exact not_le.mpr ((neg_lt_zero.mpr power).trans_le nonneg)
  have isRounded : (roundEven (q / 2 ^ max (exponentOf |q| - 52) (-1074)) : ℚ)
      * 2 ^ max (exponentOf |q| - 52) (-1074) = roundedTo q := rfl
  rw [binary64, if_neg positive.ne']
  simp only [isRounded, if_neg notBelow]

/-- **Rounding to floats keeps the order.** -/
theorem binary64_mono (nonneg : 0 ≤ q) (le : q ≤ r) : (binary64 q).leq (binary64 r) := by
  rcases nonneg.eq_or_lt with rfl | positive
  · rw [binary64_zero]
    rcases le.eq_or_lt with rfl | positive'
    · rw [binary64_zero]
      exact le_refl (0 : ℚ)
    · rw [binary64_positive positive']
      split_ifs
      · trivial
      · exact roundedTo_nonneg le
  · have mono := roundedTo_mono positive le
    rw [binary64_positive positive, binary64_positive (lt_of_lt_of_le positive le)]
    split_ifs with exceeds over'
    · trivial
    · exact absurd (exceeds.trans mono) over'
    · trivial
    · exact mono

/-- A float that is not negative, or infinite. -/
def PyFloat.IsNonneg : PyFloat → Prop
  | .finite value => 0 ≤ value
  | .inf => True
  | .negInf => False

theorem isNonneg_binary64 (nonneg : 0 ≤ q) : (binary64 q).IsNonneg := by
  have mono := binary64_mono le_rfl nonneg
  rw [binary64_zero] at mono
  cases isValue : binary64 q with
  | finite value =>
    rw [isValue] at mono
    exact mono
  | inf => trivial
  | negInf =>
    rw [isValue] at mono
    exact mono.elim

/-- **`round` keeps the order.** -/
theorem roundDigits_mono (digits : Nat) (nonneg : a.IsNonneg) (le : a.leq b) :
    (roundDigits digits a).leq (roundDigits digits b) := by
  cases a with
  | finite x =>
    cases b with
    | finite y =>
      have power : (0 : ℚ) < 10 ^ digits := by positivity
      have scaled : x * 10 ^ digits ≤ y * 10 ^ digits := mul_le_mul_of_nonneg_right le power.le
      have rounded : (roundEven (x * 10 ^ digits) : ℚ) ≤ roundEven (y * 10 ^ digits) := by
        exact_mod_cast roundEven_mono scaled
      have atZero : (0 : ℚ) ≤ roundEven (x * 10 ^ digits) := by
        have scaledNonneg : (0 : ℚ) ≤ x * 10 ^ digits := mul_nonneg nonneg power.le
        exact_mod_cast le_roundEven (n := 0) (by exact_mod_cast scaledNonneg)
      exact binary64_mono (div_nonneg atZero power.le) (div_le_div_of_nonneg_right rounded power.le)
    | inf =>
      cases isValue : roundDigits digits (.finite x) <;> trivial
    | negInf => exact le.elim
  | inf =>
    cases b with
    | inf => trivial
    | finite y => exact le.elim
    | negInf => exact le.elim
  | negInf => exact nonneg.elim

theorem PyFloat.leq_trans {c : PyFloat} (first : a.leq b) (second : b.leq c) : a.leq c := by
  cases a <;> cases b <;> cases c <;> first
    | trivial
    | exact first.elim
    | exact second.elim
    | exact le_trans first second

end Rounding

end AxiomEncode.Theory
