/-
# Theory.DecimalContext -- decimals in a context of a given precision

A finite `Decimal` is a coefficient with an exponent; an operation computes the exact result and rounds
it half-even to the digits of its context.  `roundEven_congr` is when a second rounding changes nothing:
no half of an integer may be reached or crossed by the first one.
-/
import AxiomEncode.Theory.Binary64
import Mathlib.Data.Int.Log
import Mathlib.Tactic.Ring
import Mathlib.Tactic.FieldSimp

namespace AxiomEncode.Theory

set_option autoImplicit false

/-- A finite `Decimal`.  The sign of a zero and the limits of the exponent are not kept. -/
@[ext] structure FiniteDecimal where
  coefficient : Int
  exponent : Int
  deriving DecidableEq

variable {d : FiniteDecimal}

namespace FiniteDecimal

def value (d : FiniteDecimal) : ℚ := d.coefficient * 10 ^ d.exponent

/-- `scaleb` -/
def scaleb (d : FiniteDecimal) (power : Int) : FiniteDecimal := ⟨d.coefficient, d.exponent + power⟩

def neg (d : FiniteDecimal) : FiniteDecimal := ⟨-d.coefficient, d.exponent⟩

/-- At most `count` trailing zeros of the coefficient go to the exponent. -/
def cutZeros : Nat → FiniteDecimal → FiniteDecimal
  | 0, d => d
  | count + 1, d => if 10 ∣ d.coefficient then cutZeros count ⟨d.coefficient / 10, d.exponent + 1⟩ else d

/-- The digits of a context: a longer coefficient is rounded half-even. -/
def fix (precision : Nat) (d : FiniteDecimal) : FiniteDecimal :=
  if |d.coefficient| < 10 ^ precision then d
  else
    let excess := Nat.log 10 d.coefficient.natAbs + 1 - precision
    let rounded := roundEven (d.coefficient / 10 ^ excess)
    if |rounded| < 10 ^ precision then ⟨rounded, d.exponent + excess⟩
    else ⟨rounded / 10, d.exponent + excess + 1⟩

/-- The sum, before the context rounds it. -/
def sum (a b : FiniteDecimal) : FiniteDecimal :=
  let exponent := min a.exponent b.exponent
  ⟨a.coefficient * 10 ^ (a.exponent - exponent).toNat
    + b.coefficient * 10 ^ (b.exponent - exponent).toNat, exponent⟩

def product (a b : FiniteDecimal) : FiniteDecimal :=
  ⟨a.coefficient * b.coefficient, a.exponent + b.exponent⟩

/-- The decimal of `precision` digits nearest to a rational. -/
def nearest (precision : Nat) (exact : ℚ) : FiniteDecimal :=
  let exponent := Int.log 10 |exact| + 1 - precision
  ⟨roundEven (exact / 10 ^ exponent), exponent⟩

/-- The quotient in a context: an exact one has the exponent closest to the difference of the exponents. -/
def quotient (precision : Nat) (a b : FiniteDecimal) : FiniteDecimal :=
  let ideal := a.exponent - b.exponent
  if a.coefficient = 0 then ⟨0, ideal⟩
  else
    let rounded := nearest precision (a.value / b.value)
    if rounded.value = a.value / b.value then cutZeros (ideal - rounded.exponent).toNat rounded else rounded

/-- `quantize`: the decimal at an exponent, `none` where it has more digits than the context. -/
def quantize (precision : Nat) (d : FiniteDecimal) (exponent : Int) : Option FiniteDecimal :=
  let rounded := roundEven (d.value / 10 ^ exponent)
  if |rounded| < 10 ^ precision then some ⟨rounded, exponent⟩ else none

/-! ## Values -/

@[simp] theorem value_neg (d : FiniteDecimal) : d.neg.value = -d.value := by
  simp [neg, value]

theorem value_cutZeros (count : Nat) (d : FiniteDecimal) : (cutZeros count d).value = d.value := by
  induction count generalizing d with
  | zero => rfl
  | succ count ih =>
    rw [cutZeros]
    split
    · rename_i divides
      obtain ⟨k, shape⟩ := divides
      have cut : d.coefficient / 10 = k := by omega
      rw [ih, cut, value, value, shape, zpow_add_one₀ (by norm_num)]
      push_cast
      ring
    · rfl

theorem value_sum (a b : FiniteDecimal) : (sum a b).value = a.value + b.value := by
  have shift (d : FiniteDecimal) (exponent : Int) (below : exponent ≤ d.exponent) :
      (d.coefficient : ℚ) * 10 ^ (d.exponent - exponent).toNat * 10 ^ exponent = d.value := by
    have split : d.exponent = ((d.exponent - exponent).toNat : Int) + exponent := by omega
    rw [value, mul_assoc, ← zpow_natCast, ← zpow_add₀ (by norm_num), ← split]
  rw [← shift a (min a.exponent b.exponent) (min_le_left _ _),
    ← shift b (min a.exponent b.exponent) (min_le_right _ _), sum, value]
  push_cast
  ring

theorem value_product (a b : FiniteDecimal) : (product a b).value = a.value * b.value := by
  rw [product, value, value, value, zpow_add₀ (by norm_num)]
  push_cast
  ring

theorem fix_of_lt {precision : Nat} (short : |d.coefficient| < 10 ^ precision) :
    fix precision d = d := if_pos short

/-! ## Trailing zeros -/

theorem cutZeros_exponent (count : Nat) (d : FiniteDecimal) : d.exponent ≤ (cutZeros count d).exponent := by
  induction count generalizing d with
  | zero => exact le_refl _
  | succ count ih =>
    rw [cutZeros]
    split
    · exact (Int.le_add_one (le_refl _)).trans (ih _)
    · exact le_refl _

theorem cutZeros_coefficient (count : Nat) (d : FiniteDecimal) :
    |(cutZeros count d).coefficient| ≤ |d.coefficient| := by
  induction count generalizing d with
  | zero => exact le_refl _
  | succ count ih =>
    rw [cutZeros]
    split
    · apply (ih _).trans
      rw [Int.abs_eq_natAbs, Int.abs_eq_natAbs]
      dsimp only
      omega
    · exact le_refl _

theorem cutZeros_of_not_dvd {count : Nat} (last : ¬ 10 ∣ d.coefficient) :
    cutZeros count d = d := by
  cases count with
  | zero => rfl
  | succ count => exact if_neg last

end FiniteDecimal

/-! ## Rounding twice -/

section rounding
variable {x y : ℚ}

theorem roundEven_neg (x : ℚ) : roundEven (-x) = -roundEven x := by
  have upper : roundEven (-x) ≤ -roundEven x := by
    rw [roundEven_le_iff]
    push_cast
    rcases le_roundEven_iff.mp (le_refl (roundEven x)) with strict | ⟨tie, isEven⟩
    · exact .inl (by linarith)
    · exact .inr ⟨by linarith, isEven.neg⟩
  have lower : -roundEven x ≤ roundEven (-x) := by
    rw [le_roundEven_iff]
    push_cast
    rcases roundEven_le_iff.mp (le_refl (roundEven x)) with strict | ⟨tie, isEven⟩
    · exact .inl (by linarith)
    · exact .inr ⟨by linarith, isEven.neg⟩
  exact le_antisymm upper lower

theorem abs_roundEven (x : ℚ) : |roundEven x| = roundEven |x| := by
  rcases abs_cases x with ⟨same, sign⟩ | ⟨same, sign⟩
  · rw [same, abs_of_nonneg (le_roundEven (by exact_mod_cast sign))]
  · rw [same, roundEven_neg, abs_of_nonpos (roundEven_le (by exact_mod_cast sign.le))]

theorem abs_roundEven_mono (le : |x| ≤ |y|) : |roundEven x| ≤ |roundEven y| := by
  rw [abs_roundEven, abs_roundEven]
  exact roundEven_mono le

/-- A rounding before changes nothing where it stays on its side of every half. -/
theorem roundEven_congr (below : ∀ k : Int, x < k + 1 / 2 → y < k + 1 / 2)
    (above : ∀ k : Int, k + 1 / 2 < x → k + 1 / 2 < y) (tie : ∀ k : Int, x = k + 1 / 2 → y = x) :
    roundEven y = roundEven x := by
  have upper : roundEven y ≤ roundEven x := by
    rw [roundEven_le_iff]
    rcases roundEven_le_iff.mp (le_refl (roundEven x)) with strict | ⟨half, isEven⟩
    · exact .inl (below _ strict)
    · exact .inr ⟨(tie _ half).trans half, isEven⟩
  have lower : roundEven x ≤ roundEven y := by
    rw [le_roundEven_iff]
    have shift : (roundEven x : ℚ) - 1 / 2 = ((roundEven x - 1 : Int) : ℚ) + 1 / 2 := by
      push_cast
      ring
    rw [shift]
    rcases le_roundEven_iff.mp (le_refl (roundEven x)) with strict | ⟨half, isEven⟩
    · exact .inl (above _ (shift ▸ strict))
    · have same := tie _ (shift ▸ half.symm)
      exact .inr ⟨by rw [same, ← shift, half], isEven⟩
  exact le_antisymm upper lower

/-- A quotient keeps a distance from the halves that it is not: a closer value rounds to the same integer. -/
theorem roundEven_quotient {numerator : Int} {denominator : Nat} {precision : Nat} (positive : 0 < denominator)
    (small : |numerator| < 10 ^ precision) (exact : x = numerator / denominator)
    (close : |y - x| ≤ |x| / (2 * 10 ^ precision)) (tie : ∀ k : Int, x = k + 1 / 2 → y = x) :
    roundEven y = roundEven x := by
  have positive : (0 : ℚ) < denominator := by exact_mod_cast positive
  have power : (0 : ℚ) < 10 ^ precision := by positivity
  have near : |y - x| < 1 / (2 * denominator) := by
    apply close.trans_lt
    rw [exact, abs_div, abs_of_pos positive, div_div, div_lt_div_iff₀ (by positivity) (by positivity)]
    have short : |(numerator : ℚ)| < 10 ^ precision := by exact_mod_cast small
    nlinarith
  obtain ⟨low, high⟩ := abs_lt.mp near
  -- twice the denominator makes the distance from a half an integer
  have scaled (k : Int) : (x - (k + 1 / 2)) * (2 * denominator) =
      ((2 * numerator - (2 * k + 1) * denominator : Int) : ℚ) := by
    rw [exact]
    push_cast
    field_simp
  have width : 1 / (2 * (denominator : ℚ)) * (2 * denominator) = 1 := by
    field_simp
  refine roundEven_congr (fun k less => ?_) (fun k greater => ?_) tie
  · have negative : (2 * numerator - (2 * k + 1) * denominator : Int) < 0 := by
      have := mul_neg_of_neg_of_pos (sub_neg.mpr less) (by positivity : (0 : ℚ) < 2 * denominator)
      rw [scaled] at this
      exact_mod_cast this
    have step : ((2 * numerator - (2 * k + 1) * denominator : Int) : ℚ) ≤ -1 := by
      exact_mod_cast Int.le_sub_one_of_lt negative
    rw [← scaled] at step
    nlinarith
  · have positive' : (0 : Int) < 2 * numerator - (2 * k + 1) * denominator := by
      have := mul_pos (sub_pos.mpr greater) (by positivity : (0 : ℚ) < 2 * denominator)
      rw [scaled] at this
      exact_mod_cast this
    have step : (1 : ℚ) ≤ ((2 * numerator - (2 * k + 1) * denominator : Int) : ℚ) := by
      exact_mod_cast positive'
    rw [← scaled] at step
    nlinarith

end rounding

/-! ## The nearest decimal -/

namespace FiniteDecimal

variable {precision : Nat} {exact : ℚ}

theorem nearest_error (digits : 0 < precision) (nonzero : exact ≠ 0) :
    |(nearest precision exact).value - exact| ≤ |exact| / (2 * 10 ^ (precision - 1)) := by
  have magnitude : 0 < |exact| := abs_pos.mpr nonzero
  set exponent := Int.log 10 |exact| + 1 - precision with isExponent
  have unit : (0 : ℚ) < 10 ^ exponent := by positivity
  have shape : (nearest precision exact).value - exact =
      (roundEven (exact / 10 ^ exponent) - exact / 10 ^ exponent) * 10 ^ exponent := by
    rw [sub_mul, div_mul_cancel₀ _ unit.ne']
    rfl
  have half : |(roundEven (exact / 10 ^ exponent) : ℚ) - exact / 10 ^ exponent| ≤ 1 / 2 := by
    obtain ⟨lower, upper⟩ := roundEven_bounds (exact / 10 ^ exponent)
    exact abs_le.mpr ⟨by linarith, by linarith⟩
  have leading : (10 : ℚ) ^ exponent * 10 ^ (precision - 1) ≤ |exact| := by
    have log := Int.zpow_log_le_self (b := 10) (by norm_num) magnitude
    have split : exponent + ((precision - 1 : Nat) : Int) = Int.log 10 |exact| := by omega
    rw [← zpow_natCast, ← zpow_add₀ (by norm_num), split]
    exact_mod_cast log
  have ten : (0 : ℚ) < 10 ^ (precision - 1) := by positivity
  rw [shape, abs_mul, abs_of_pos unit, le_div_iff₀ (by positivity)]
  nlinarith [mul_le_mul_of_nonneg_right half unit.le]

/-- A rational of few digits is its own nearest decimal. -/
theorem nearest_exact {coefficient exponent : Int} (short : |coefficient| < 10 ^ precision)
    (shape : exact = coefficient * 10 ^ exponent) : (nearest precision exact).value = exact := by
  by_cases zero : exact = 0
  · simp [zero, nearest, value, roundEven]
  have magnitude : 0 < |exact| := abs_pos.mpr zero
  have bound : |exact| < 10 ^ (precision + exponent) := by
    have unit : (0 : ℚ) < 10 ^ exponent := by positivity
    have short : |(coefficient : ℚ)| < 10 ^ precision := by exact_mod_cast short
    rw [shape, abs_mul, abs_of_pos unit, zpow_add₀ (by norm_num), zpow_natCast]
    exact mul_lt_mul_of_pos_right short unit
  have order : Int.log 10 |exact| < precision + exponent := by
    apply (Int.lt_zpow_iff_log_lt (by norm_num) magnitude).mp
    exact_mod_cast bound
  obtain ⟨k, split⟩ : ∃ k : Nat, exponent = k + (Int.log 10 |exact| + 1 - precision) :=
    ⟨(exponent - (Int.log 10 |exact| + 1 - precision)).toNat, by omega⟩
  have scaled : exact / 10 ^ (Int.log 10 |exact| + 1 - precision) = ((coefficient * 10 ^ k : Int) : ℚ) := by
    rw [div_eq_iff (by positivity)]
    conv_lhs => rw [shape, split, zpow_add₀ (by norm_num), zpow_natCast]
    push_cast
    ring
  rw [nearest, value]
  dsimp only
  rw [scaled, roundEven_int, ← scaled, div_mul_cancel₀ _ (by positivity)]

/-! ## The digits of a context -/

theorem scaled_coefficient (long : ¬ |d.coefficient| < 10 ^ precision) :
    |(d.coefficient : ℚ) / 10 ^ (Nat.log 10 d.coefficient.natAbs + 1 - precision)| ≤ 10 ^ precision := by
  have size : 10 ^ precision ≤ d.coefficient.natAbs := by
    rw [not_lt, Int.abs_eq_natAbs] at long
    exact_mod_cast long
  have nonzero : d.coefficient.natAbs ≠ 0 := (Nat.pos_of_ne_zero (by positivity)).trans_le size |>.ne'
  have order : precision ≤ Nat.log 10 d.coefficient.natAbs := Nat.le_log_of_pow_le (by norm_num) size
  have upper := Nat.lt_pow_succ_log_self (b := 10) (by norm_num) d.coefficient.natAbs
  have split : Nat.log 10 d.coefficient.natAbs + 1 =
      precision + (Nat.log 10 d.coefficient.natAbs + 1 - precision) := by omega
  rw [Nat.succ_eq_add_one, split, pow_add] at upper
  rw [abs_div, abs_of_pos (by positivity : (0 : ℚ) < 10 ^ (Nat.log 10 d.coefficient.natAbs + 1 - precision)),
    div_le_iff₀ (by positivity)]
  have same : |(d.coefficient : ℚ)| = (d.coefficient.natAbs : ℚ) := by
    rw [← Int.cast_abs, Int.abs_eq_natAbs, Int.cast_natCast]
  rw [same]
  exact_mod_cast upper.le

theorem rounded_coefficient (long : ¬ |d.coefficient| < 10 ^ precision) :
    |roundEven ((d.coefficient : ℚ) / 10 ^ (Nat.log 10 d.coefficient.natAbs + 1 - precision))|
      ≤ 10 ^ precision := by
  rw [abs_roundEven]
  apply roundEven_le
  exact_mod_cast scaled_coefficient long

/-- A coefficient that a rounding brought to one more digit. -/
theorem carried {c : Int} {digits : Nat} (within : |c| ≤ 10 ^ (digits + 1)) (exceeds : ¬ |c| < 10 ^ (digits + 1)) :
    c = 10 ^ digits * 10 ∨ c = -10 ^ digits * 10 := by
  have size : |c| = 10 ^ digits * 10 := by
    rw [← pow_succ]
    exact le_antisymm within (not_lt.mp exceeds)
  rcases abs_choice c with same | same
  · exact .inl (same ▸ size)
  · right
    linarith

theorem fix_digits (digits : 0 < precision) (d : FiniteDecimal) : |(d.fix precision).coefficient| < 10 ^ precision := by
  obtain ⟨before, rfl⟩ := Nat.exists_eq_succ_of_ne_zero digits.ne'
  rw [fix]
  split
  · assumption
  · rename_i long
    dsimp only
    split
    · assumption
    · rename_i exceeds
      have less : (10 : Int) ^ before < 10 ^ (before + 1) := pow_lt_pow_right₀ (by norm_num) (Nat.lt_succ_self _)
      rcases carried (rounded_coefficient long) exceeds with shape | shape
      · rw [shape, Int.mul_ediv_cancel _ (by norm_num), abs_of_pos (by positivity)]
        exact less
      · rw [shape, Int.mul_ediv_cancel _ (by norm_num), abs_neg, abs_of_pos (by positivity)]
        exact less

theorem fix_exponent (precision : Nat) (d : FiniteDecimal) : d.exponent ≤ (d.fix precision).exponent := by
  rw [fix]
  split
  · exact le_refl _
  · dsimp only
    split <;> dsimp only <;> omega

/-- The value of a coefficient that was too long. -/
theorem value_fix (digits : 0 < precision) (long : ¬ |d.coefficient| < 10 ^ precision) :
    (d.fix precision).value =
      roundEven ((d.coefficient : ℚ) / 10 ^ (Nat.log 10 d.coefficient.natAbs + 1 - precision)) *
        10 ^ (d.exponent + (Nat.log 10 d.coefficient.natAbs + 1 - precision : Nat)) := by
  obtain ⟨before, rfl⟩ := Nat.exists_eq_succ_of_ne_zero digits.ne'
  rw [fix, if_neg long]
  dsimp only
  split
  · rfl
  · rename_i exceeds
    have whole : (10 : Int) ∣ roundEven
        ((d.coefficient : ℚ) / 10 ^ (Nat.log 10 d.coefficient.natAbs + 1 - before.succ)) := by
      rcases carried (rounded_coefficient long) exceeds with shape | shape
      · exact ⟨10 ^ before, by rw [shape, mul_comm]⟩
      · exact ⟨-10 ^ before, by rw [shape, mul_comm]⟩
    obtain ⟨k, shape⟩ := whole
    rw [value, shape, Int.mul_ediv_cancel_left _ (by norm_num), zpow_add_one₀ (by norm_num)]
    push_cast
    ring

end FiniteDecimal

end AxiomEncode.Theory
