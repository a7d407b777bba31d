/-
# Formula.DecimalArithmeticSpec -- decimal arithmetic is correctly rounded

Sums and products of representable decimals are exact in 64 digits, and a quotient in 64 digits rounds at
every scale as the exact one does (`agrees_quotient`).  Only the minus sign, in 28 digits, is not exact.
-/
import AxiomEncode.Formula.DecimalArithmetic

namespace AxiomEncode.Formula.DecimalArithmetic

open Theory

set_option autoImplicit false

/-- A coefficient of at most 96 bits, at a scale between 0 and 28. -/
structure Representable (d : FiniteDecimal) : Prop where
  coefficient : |d.coefficient| ≤ maximum
  lowest : -28 ≤ d.exponent
  highest : d.exponent ≤ 0

/-- The coefficient of a rational, rounded half-even at a scale. -/
def coefficientAt (exact : ℚ) (scale : Nat) : Int := roundEven (exact * 10 ^ scale)

/-- The rounded coefficient fits 96 bits. -/
def Fits (exact : ℚ) (scale : Nat) : Prop := |coefficientAt exact scale| ≤ maximum

/-- The largest scale at which a rational fits. -/
structure LargestScale (exact : ℚ) (scale : Nat) : Prop where
  bound : scale ≤ 28
  fits : Fits exact scale
  largest : ∀ finer, scale < finer → finer ≤ 28 → ¬ Fits exact finer

/-! ## Fitting -/

/-- Two rationals that have the same coefficients, as far as these fit. -/
def Agrees (approximate exact : ℚ) : Prop :=
  ∀ scale ≤ 28, coefficientAt approximate scale = coefficientAt exact scale ∨
    ¬ Fits approximate scale ∧ ¬ Fits exact scale

theorem Agrees.rfl (exact : ℚ) : Agrees exact exact := fun _ _ => .inl (Eq.refl _)

variable {exact : ℚ} {scale : Nat} {d a b left right x : FiniteDecimal}

theorem Agrees.fits_iff {approximate : ℚ} (agrees : Agrees approximate exact) (bound : scale ≤ 28) :
    Fits approximate scale ↔ Fits exact scale := by
  rcases agrees scale bound with same | ⟨first, second⟩
  · rw [Fits, Fits, same]
  · exact iff_of_false first second

/-- A rational that fits at a scale fits at scale 0. -/
theorem Fits.whole (fits : Fits exact scale) : Fits exact 0 := by
  apply le_trans _ fits
  apply abs_roundEven_mono
  have power : (1 : ℚ) ≤ 10 ^ scale := one_le_pow₀ (by norm_num)
  rw [pow_zero, mul_one, abs_mul, abs_of_nonneg (zero_le_one.trans power)]
  exact le_mul_of_one_le_right (abs_nonneg _) power

/-- A rational that fits at scale 0 has few digits at every scale. -/
theorem Fits.digits {exact : ℚ} (fits : Fits exact 0) {scale : Nat} (bound : scale ≤ 28) :
    |coefficientAt exact scale| < 10 ^ 64 := by
  have small : |exact| ≤ 10 ^ 29 := by
    have upper := (roundEven_bounds |exact|).2
    have near : |coefficientAt exact 0| = roundEven |exact| := by
      rw [coefficientAt, abs_roundEven, pow_zero, mul_one]
    have within : (roundEven |exact| : ℚ) ≤ maximum := by
      rw [← near]
      exact_mod_cast fits
    have whole : (maximum : ℚ) + 1 / 2 ≤ 10 ^ 29 := by norm_num [maximum]
    linarith
  have power : (10 : ℚ) ^ scale ≤ 10 ^ 28 := pow_le_pow_right₀ (by norm_num) bound
  have scaled : |exact * 10 ^ scale| ≤ ((10 ^ 57 : Int) : ℚ) := by
    rw [abs_mul, abs_of_pos (by positivity : (0 : ℚ) < 10 ^ scale)]
    calc |exact| * 10 ^ scale ≤ 10 ^ 29 * 10 ^ 28 := mul_le_mul small power (by positivity) (by positivity)
      _ = ((10 ^ 57 : Int) : ℚ) := by norm_num
  rw [coefficientAt, abs_roundEven]
  exact (roundEven_le scaled).trans_lt (by norm_num)

theorem quantize_scale (d : FiniteDecimal) (scale : Nat) :
    d.quantize 64 (-scale) =
      if |coefficientAt d.value scale| < 10 ^ 64 then some ⟨coefficientAt d.value scale, -scale⟩ else none := by
  have shift : d.value / 10 ^ (-(scale : Int)) = d.value * 10 ^ scale := by
    rw [zpow_neg, zpow_natCast, div_inv_eq_mul]
  rw [FiniteDecimal.quantize, shift]
  rfl

theorem fitScale_eq (d : FiniteDecimal) (scale : Nat) :
    fitScale d scale =
      if |coefficientAt d.value scale| < 10 ^ 64 then
        if |coefficientAt d.value scale| ≤ maximum then
          some (.ok ⟨coefficientAt d.value scale, -scale⟩)
        else none
      else some (.error .invalidOperation) := by
  have scaled (c : Int) :
      |((FiniteDecimal.mk c (-scale)).scaleb scale).value| ≤ (maximum : ℚ) ↔ |c| ≤ maximum := by
    rw [FiniteDecimal.scaleb, FiniteDecimal.value, neg_add_cancel, zpow_zero, mul_one,
      ← Int.cast_abs, Int.cast_le]
  delta fitScale
  rw [quantize_scale]
  by_cases digits : |coefficientAt d.value scale| < 10 ^ 64
  · rw [if_pos digits, if_pos digits]
    exact if_congr (scaled _) rfl rfl
  · rw [if_neg digits, if_neg digits]

theorem fitScale_fits (fits : Fits d.value scale) :
    fitScale d scale = some (.ok ⟨coefficientAt d.value scale, -scale⟩) := by
  rw [fitScale_eq, if_pos (lt_of_le_of_lt fits (by norm_num [maximum]))]
  exact if_pos fits

/-- A scale that does not fit never gives a decimal. -/
theorem fitScale_over (exceeds : ¬ Fits d.value scale) :
    fitScale d scale = none ∨ fitScale d scale = some (.error .invalidOperation) := by
  rw [fitScale_eq]
  by_cases digits : |coefficientAt d.value scale| < 10 ^ 64
  · rw [if_pos digits]
    exact .inl (if_neg exceeds)
  · exact .inr (if_neg digits)

/-- Only a rational that fits at no scale has too many digits at one. -/
theorem fitScale_none (whole : Fits d.value 0) (bound : scale ≤ 28)
    (exceeds : ¬ Fits d.value scale) : fitScale d scale = none := by
  rw [fitScale_eq, if_pos (whole.digits bound)]
  exact if_neg exceeds

/-- The exact value at the largest scale that fits it, or an error if no scale does. -/
inductive Result (exact : ℚ) : Except ArithmeticError FiniteDecimal → Prop where
  | rounded (scale : Nat) (largest : LargestScale exact scale) :
      Result exact (.ok ⟨coefficientAt exact scale, -scale⟩)
  | exceeds (none : ¬ Fits exact 0) : Result exact (.error .invalidOperation)

theorem decimalResultValue_result (agrees : Agrees d.value exact) :
    Result exact (decimalResultValue d) := by
  have mem_scales {scale : Nat} : scale ∈ (List.range 29).reverse ↔ scale ≤ 28 := by
    rw [List.mem_reverse, List.mem_range]
    omega
  by_cases whole : Fits exact 0
  · have whole' : Fits d.value 0 := (agrees.fits_iff (Nat.zero_le _)).mpr whole
    cases found : (List.range 29).reverse.findSome? (fitScale d) with
    | none =>
      have none := List.findSome?_eq_none_iff.mp found 0 (mem_scales.mpr (Nat.zero_le _))
      rw [fitScale_fits whole'] at none
      cases none
    | some result =>
      obtain ⟨before, scale, after, split, here, coarser⟩ := List.findSome?_eq_some_iff.mp found
      have bound : scale ≤ 28 := mem_scales.mp (by simp [split])
      have fits : Fits d.value scale := by
        by_contra exceeds
        rw [fitScale_none whole' bound exceeds] at here
        cases here
      have shape : decimalResultValue d = .ok ⟨coefficientAt d.value scale, -scale⟩ := by
        rw [decimalResultValue, found, ← here, fitScale_fits fits]
        rfl
      have falling : (before ++ scale :: after).Pairwise (· > ·) := by
        rw [← split, List.pairwise_reverse]
        exact List.pairwise_lt_range
      rcases agrees scale bound with same | ⟨exceeds, _⟩
      · rw [shape, same]
        refine .rounded scale ⟨bound, (agrees.fits_iff bound).mp fits, ?_⟩
        intro finer order within fine
        have member : finer ∈ before ++ scale :: after := split ▸ mem_scales.mpr within
        rcases List.mem_append.mp member with member | member
        · have skipped := coarser finer member
          rw [fitScale_fits ((agrees.fits_iff within).mpr fine)] at skipped
          cases skipped
        · rcases List.mem_cons.mp member with rfl | member
          · omega
          · have := (List.pairwise_cons.mp (List.pairwise_append.mp falling).2.1).1 finer member
            omega
      · exact absurd fits exceeds
  · have never (scale : Nat) (bound : scale ≤ 28) : ¬ Fits d.value scale := by
      intro fits
      exact whole ((agrees.fits_iff bound).mp fits).whole
    have shape : decimalResultValue d = .error .invalidOperation := by
      rw [decimalResultValue]
      cases found : (List.range 29).reverse.findSome? (fitScale d) with
      | none => rfl
      | some result =>
        obtain ⟨scale, member, here⟩ := List.exists_of_findSome?_eq_some found
        rcases fitScale_over (never scale (mem_scales.mp member)) with none | error
        · rw [none] at here
          cases here
        · rw [error] at here
          exact (Option.some.inj here).symm
    rw [shape]
    exact .exceeds whole

/-! ## Operations -/

theorem agrees_fix (short : |d.coefficient| < 10 ^ 64) (same : d.value = exact) :
    Agrees (d.fix 64).value exact := by
  rw [FiniteDecimal.fix_of_lt short, same]
  exact Agrees.rfl exact

theorem sum_digits (first : Representable a) (second : Representable b) :
    |(a.sum b).coefficient| < 10 ^ 64 := by
  have bounded {d : FiniteDecimal} (representable : Representable d) {exponent : Int} (lowest : -28 ≤ exponent) :
      |d.coefficient * 10 ^ (d.exponent - exponent).toNat| ≤ maximum * 10 ^ 28 := by
    have highest := representable.highest
    have power : (10 : Int) ^ (d.exponent - exponent).toNat ≤ 10 ^ 28 :=
      pow_le_pow_right₀ (by norm_num) (by omega)
    rw [abs_mul, abs_of_pos (by positivity : (0 : Int) < 10 ^ (d.exponent - exponent).toNat)]
    exact mul_le_mul representable.coefficient power (by positivity) (by decide)
  have lowest : -28 ≤ min a.exponent b.exponent := le_min first.lowest second.lowest
  calc |(a.sum b).coefficient| ≤ maximum * 10 ^ 28 + maximum * 10 ^ 28 :=
        (abs_add_le _ _).trans (add_le_add (bounded first lowest) (bounded second lowest))
    _ < 10 ^ 64 := by norm_num [maximum]

theorem product_digits (first : Representable a) (second : Representable b) :
    |(a.product b).coefficient| < 10 ^ 64 := by
  calc |(a.product b).coefficient| = |a.coefficient| * |b.coefficient| := abs_mul _ _
    _ ≤ maximum * maximum := mul_le_mul first.coefficient second.coefficient (abs_nonneg _) (by decide)
    _ < 10 ^ 64 := by norm_num [maximum]

theorem Representable.neg (representable : Representable d) : Representable d.neg :=
  ⟨(abs_neg d.coefficient).trans_le representable.coefficient, representable.lowest, representable.highest⟩

/-- A rational of the size of the envelope, or one that no rounding brings back into it. -/
theorem roundings_over {x y : ℚ} (close : |y - x| ≤ |x| / (2 * 10 ^ 63)) (large : (maximum : ℚ) + 2 ≤ |x|) :
    maximum < |roundEven y| ∧ maximum < |roundEven x| := by
  have exceeds {z : ℚ} (bound : ((maximum + 1 : Int) : ℚ) ≤ |z|) : maximum < |roundEven z| := by
    rw [abs_roundEven]
    exact Int.lt_of_lt_of_le (Int.lt_succ _) (le_roundEven bound)
  have back : |x| ≤ |y| + |y - x| := by
    have := abs_sub_abs_le_abs_sub x y
    rw [abs_sub_comm] at this
    linarith
  have share : |x| / (2 * 10 ^ 63) ≤ |x| / 10 ^ 30 :=
    div_le_div_of_nonneg_left (abs_nonneg _) (by norm_num) (by norm_num)
  have size : (maximum : ℚ) + 1 ≤ (maximum + 2) * (1 - 1 / 10 ^ 30) := by norm_num [maximum]
  constructor
  · apply exceeds
    push_cast
    linarith
  · apply exceeds
    push_cast
    linarith

/-- The exact quotient at a scale, as a fraction with a small numerator. -/
theorem quotient_fraction (first : Representable a) (second : Representable b)
    (nonzero : b.coefficient ≠ 0) (small : |a.value / b.value * 10 ^ scale| < 10 ^ 29) :
    ∃ (numerator : Int) (denominator : Nat), 0 < denominator ∧
      a.value / b.value * 10 ^ scale = numerator / denominator ∧ |numerator| < 10 ^ 63 := by
  obtain ⟨n, d, positive, bound, size, ratio⟩ : ∃ (n : Int) (d : Nat), 0 < d ∧ (d : Int) ≤ maximum ∧
      |n| = |a.coefficient| ∧ (a.coefficient : ℚ) / b.coefficient = n / d := by
    have limit : ((b.coefficient.natAbs : Nat) : Int) ≤ maximum := by
      rw [← Int.abs_eq_natAbs]
      exact second.coefficient
    rcases lt_or_gt_of_ne nonzero with negative | positive
    · refine ⟨-a.coefficient, b.coefficient.natAbs, by omega, limit, abs_neg _, ?_⟩
      have same : (b.coefficient.natAbs : ℚ) = ((-b.coefficient : Int) : ℚ) := by
        rw [← Int.ofNat_natAbs_of_nonpos negative.le, Int.cast_natCast]
      rw [same]
      push_cast
      rw [neg_div_neg_eq]
    · refine ⟨a.coefficient, b.coefficient.natAbs, by omega, limit, rfl, ?_⟩
      have same : (b.coefficient.natAbs : ℚ) = (b.coefficient : ℚ) := by
        rw [← Int.cast_natCast, Int.natAbs_of_nonneg positive.le]
      rw [same]
  have positiveQ : (0 : ℚ) < d := by exact_mod_cast positive
  have limit : (d : ℚ) ≤ 10 ^ 29 := by
    have : ((d : Int) : ℚ) ≤ maximum := by exact_mod_cast bound
    have whole : (maximum : ℚ) ≤ 10 ^ 29 := by norm_num [maximum]
    exact this.trans whole
  have ten : (10 : ℚ) ≠ 0 := by norm_num
  have shape : a.value / b.value * 10 ^ scale = n / d * 10 ^ (a.exponent - b.exponent + scale) := by
    rw [FiniteDecimal.value, FiniteDecimal.value, mul_div_mul_comm, ratio, zpow_add₀ ten, zpow_sub₀ ten,
      zpow_natCast, mul_assoc]
  by_cases whole : 0 ≤ a.exponent - b.exponent + scale
  · obtain ⟨k, isK⟩ := Int.eq_ofNat_of_zero_le whole
    have fraction : a.value / b.value * 10 ^ scale = ((n * 10 ^ k : Int) : ℚ) / d := by
      rw [shape, isK, zpow_natCast]
      push_cast
      ring
    refine ⟨n * 10 ^ k, d, positive, fraction, ?_⟩
    have product : |((n * 10 ^ k : Int) : ℚ)| < 10 ^ 63 := by
      have split : ((n * 10 ^ k : Int) : ℚ) = a.value / b.value * 10 ^ scale * d := by
        rw [fraction, div_mul_cancel₀ _ positiveQ.ne']
      rw [split, abs_mul, abs_of_pos positiveQ]
      calc |a.value / b.value * 10 ^ scale| * d ≤ 10 ^ 29 * 10 ^ 29 :=
            mul_le_mul small.le limit positiveQ.le (by positivity)
        _ < 10 ^ 63 := by norm_num
    exact_mod_cast product
  · obtain ⟨k, isK⟩ : ∃ k : Nat, a.exponent - b.exponent + scale = -(k : Int) :=
      ⟨(-(a.exponent - b.exponent + scale)).toNat, by omega⟩
    refine ⟨n, d * 10 ^ k, by positivity, ?_, ?_⟩
    · rw [shape, isK, zpow_neg, zpow_natCast]
      push_cast
      rw [← div_eq_mul_inv, div_div]
    · rw [size]
      exact first.coefficient.trans_lt (by norm_num [maximum])

/-- A half at a scale has few digits, so a rational that has one is exact in 64 digits. -/
theorem nearest_half {k : Int} (half : exact * 10 ^ scale = k + 1 / 2)
    (small : |exact * 10 ^ scale| < 10 ^ 29) : (FiniteDecimal.nearest 64 exact).value = exact := by
  have ten : (10 : ℚ) ≠ 0 := by norm_num
  apply @FiniteDecimal.nearest_exact 64 exact ((2 * k + 1) * 5) (-(scale : Int) - 1)
  · have double : (((2 * k + 1) * 5 : Int) : ℚ) = 10 * (exact * 10 ^ scale) := by
      rw [half]
      push_cast
      ring
    have bound : |(((2 * k + 1) * 5 : Int) : ℚ)| < 10 ^ 64 := by
      rw [double, abs_mul, abs_of_pos (by norm_num : (0 : ℚ) < 10)]
      linarith
    exact_mod_cast bound
  · have power : (0 : ℚ) < 10 ^ scale := by positivity
    have scaled : exact = (k + 1 / 2) / 10 ^ scale := by
      rw [← half, mul_div_cancel_right₀ _ power.ne']
    rw [zpow_sub₀ ten, zpow_neg, zpow_natCast, zpow_one, scaled]
    push_cast
    field_simp
    ring

/-- **A quotient of 64 digits rounds as the exact one.**  The exact quotient at a scale has a small
denominator, so it is far from the halves that it is not; the halves themselves have few digits. -/
theorem agrees_quotient (first : Representable a) (second : Representable b)
    (nonzero : b.coefficient ≠ 0) : Agrees (a.quotient 64 b).value (a.value / b.value) := by
  by_cases zero : a.coefficient = 0
  · have same : (a.quotient 64 b).value = a.value / b.value := by
      rw [FiniteDecimal.quotient, if_pos zero]
      simp [FiniteDecimal.value, zero]
    rw [same]
    exact Agrees.rfl _
  have ten : (10 : ℚ) ≠ 0 := by norm_num
  have exactNonzero : a.value / b.value ≠ 0 := by
    apply div_ne_zero
    · exact mul_ne_zero (by exact_mod_cast zero) (zpow_ne_zero _ ten)
    · exact mul_ne_zero (by exact_mod_cast nonzero) (zpow_ne_zero _ ten)
  have rounded : (a.quotient 64 b).value = (FiniteDecimal.nearest 64 (a.value / b.value)).value := by
    rw [FiniteDecimal.quotient, if_neg zero]
    dsimp only
    split
    · exact FiniteDecimal.value_cutZeros _ _
    · rfl
  rw [rounded]
  intro scale _
  have power : (0 : ℚ) < 10 ^ scale := by positivity
  have close : |(FiniteDecimal.nearest 64 (a.value / b.value)).value * 10 ^ scale - a.value / b.value * 10 ^ scale| ≤
      |a.value / b.value * 10 ^ scale| / (2 * 10 ^ 63) := by
    have error := @FiniteDecimal.nearest_error 64 _ (by norm_num) exactNonzero
    rw [← sub_mul, abs_mul, abs_mul _ ((10 : ℚ) ^ scale), abs_of_pos power, mul_div_right_comm]
    exact mul_le_mul_of_nonneg_right error power.le
  by_cases large : (maximum : ℚ) + 2 ≤ |a.value / b.value * 10 ^ scale|
  · obtain ⟨exceeds, over'⟩ := roundings_over close large
    exact .inr ⟨not_le.mpr exceeds, not_le.mpr over'⟩
  · have small : |a.value / b.value * 10 ^ scale| < 10 ^ 29 := by
      have whole : (maximum : ℚ) + 2 ≤ 10 ^ 29 := by norm_num [maximum]
      linarith
    obtain ⟨numerator, denominator, positive, fraction, digits⟩ :=
      quotient_fraction first second nonzero small
    refine .inl (roundEven_quotient positive digits fraction close fun k tie => ?_)
    rw [nearest_half tie small]

/-- The exact result of an operation. -/
def exactResult (left right : ℚ) : Operator → ℚ
  | .plus => left + right
  | .minus => left - right
  | .star => left * right
  | .slash => left / right

/-- Every operation but a division by zero rounds its exact result once. -/
theorem decimalBinaryOperation_result (first : Representable left) (second : Representable right)
    (operator : Operator) (defined : operator = .slash → right.coefficient ≠ 0) :
    Result (exactResult left.value right.value operator) (decimalBinaryOperation left right operator) := by
  cases operator with
  | plus => exact decimalResultValue_result (agrees_fix (sum_digits first second) (FiniteDecimal.value_sum _ _))
  | minus =>
    apply decimalResultValue_result (agrees_fix (sum_digits first second.neg) _)
    rw [FiniteDecimal.value_sum, FiniteDecimal.value_neg, ← sub_eq_add_neg]
    rfl
  | star =>
    exact decimalResultValue_result (agrees_fix (product_digits first second) (FiniteDecimal.value_product _ _))
  | slash =>
    have nonzero := defined rfl
    rw [decimalBinaryOperation, if_neg nonzero]
    exact decimalResultValue_result (agrees_quotient first second nonzero)

/-! ## The envelope -/

/-- A decimal that the envelope holds. -/
structure Admissible (d : FiniteDecimal) : Prop where
  size : |d.value| ≤ maximum
  lowest : -28 ≤ d.exponent
  coefficient : d.exponent < 0 → |d.coefficient| ≤ maximum

theorem Representable.admissible (representable : Representable d) : Admissible d := by
  refine ⟨?_, representable.lowest, fun _ => representable.coefficient⟩
  have power : (10 : ℚ) ^ d.exponent ≤ 1 := zpow_le_one_of_nonpos₀ (by norm_num) representable.highest
  have coefficient : |(d.coefficient : ℚ)| ≤ maximum := by exact_mod_cast representable.coefficient
  rw [FiniteDecimal.value, abs_mul, abs_of_pos (by positivity : (0 : ℚ) < 10 ^ d.exponent)]
  exact (mul_le_of_le_one_right (abs_nonneg _) power).trans coefficient

theorem Admissible.neg (admissible : Admissible d) : Admissible d.neg := by
  refine ⟨?_, admissible.lowest, fun negative => ?_⟩
  · rw [FiniteDecimal.value_neg, abs_neg]
    exact admissible.size
  · exact (abs_neg d.coefficient).trans_le (admissible.coefficient negative)

/-- A decimal as the envelope gives it back. -/
def trimmed (d : FiniteDecimal) : FiniteDecimal :=
  if d.coefficient = 0 then ⟨0, 0⟩
  else if d.exponent < 0 then d.cutZeros (Nat.log 10 d.coefficient.natAbs + 1)
  else d

theorem value_trimmed (d : FiniteDecimal) : (trimmed d).value = d.value := by
  rw [trimmed]
  split_ifs with zero fraction
  · simp [FiniteDecimal.value, zero]
  · exact FiniteDecimal.value_cutZeros _ _
  · rfl

theorem trimmed_coefficient (d : FiniteDecimal) : |(trimmed d).coefficient| ≤ |d.coefficient| := by
  rw [trimmed]
  split_ifs
  · simp
  · exact FiniteDecimal.cutZeros_coefficient _ _
  · exact le_refl _

theorem Admissible.trimmed (admissible : Admissible d) :
    Admissible (DecimalArithmetic.trimmed d) := by
  refine ⟨(value_trimmed d).symm ▸ admissible.size, ?_, fun negative => ?_⟩
  · rw [DecimalArithmetic.trimmed]
    split_ifs
    · decide
    · exact admissible.lowest.trans (FiniteDecimal.cutZeros_exponent _ _)
    · exact admissible.lowest
  · apply (trimmed_coefficient d).trans
    apply admissible.coefficient
    rw [DecimalArithmetic.trimmed] at negative
    split_ifs at negative with zero fraction
    · exact absurd negative (by decide)
    · exact fraction
    · exact negative

/-- Without its trailing zeros an admissible decimal is accepted. -/
theorem envelope_admissible (admissible : Admissible d) : envelope d = some (trimmed d) := by
  by_cases zero : d.coefficient = 0
  · rw [envelope, if_pos zero, trimmed, if_pos zero]
  · have shape : trimmed d =
        if d.exponent < 0 then d.cutZeros (Nat.log 10 d.coefficient.natAbs + 1) else d := if_neg zero
    have held := admissible.trimmed
    rw [shape] at held
    rw [envelope, if_neg zero, shape]
    dsimp only
    rw [if_neg (not_lt.mpr held.lowest), if_neg (not_lt.mpr held.size), if_neg]
    rintro ⟨negative, exceeds⟩
    exact absurd (held.coefficient negative) (not_le.mpr exceeds)

/-! ## The minus sign -/

def Value.number? : Value → Option ℚ
  | .decimal d => some d.value
  | _ => none

theorem evaluateMinus_decimal (admissible : Admissible d) :
    evaluateMinus (.decimal d) = .decimal ((trimmed d).neg.fix 28) := by
  rw [evaluateMinus, runtimeDecimal, envelope_admissible admissible]

/-- A negation in 28 digits that is exact. -/
structure Negated (d z : FiniteDecimal) : Prop where
  evaluates : evaluateMinus (.decimal d) = .decimal z
  value : z.value = -d.value
  admissible : Admissible z
  short : |z.coefficient| < 10 ^ 28

theorem Negated.of_value (admissible : Admissible d)
    (value : ((trimmed d).neg.fix 28).value = -d.value) : Negated d ((trimmed d).neg.fix 28) := by
  have short := @FiniteDecimal.fix_digits 28 (by norm_num) (trimmed d).neg
  refine ⟨evaluateMinus_decimal admissible, value, ⟨?_, ?_, fun _ => ?_⟩, short⟩
  · rw [value, abs_neg]
    exact admissible.size
  · exact admissible.trimmed.neg.lowest.trans (FiniteDecimal.fix_exponent _ _)
  · exact short.le.trans (by norm_num [maximum])

theorem negated_short (admissible : Admissible d) (short : |(trimmed d).coefficient| < 10 ^ 28) :
    ∃ z, Negated d z := by
  have kept : |(trimmed d).neg.coefficient| < 10 ^ 28 := (abs_neg _).trans_lt short
  refine ⟨_, Negated.of_value admissible ?_⟩
  rw [FiniteDecimal.fix_of_lt kept, FiniteDecimal.value_neg, value_trimmed]

/-- The digits that a context of 28 cuts from a representable coefficient. -/
theorem excess_digit {c : Int} (long : ¬ |c| < 10 ^ 28) (bound : |c| ≤ maximum) :
    Nat.log 10 (-c).natAbs + 1 - 28 = 1 := by
  rw [Int.natAbs_neg]
  rw [Int.abs_eq_natAbs] at long bound
  have upper : c.natAbs < 10 ^ 29 := by
    have : maximum < 10 ^ 29 := by norm_num [maximum]
    have := bound.trans_lt this
    exact_mod_cast this
  have lower : 10 ^ 28 ≤ c.natAbs := by exact_mod_cast not_lt.mp long
  have log : Nat.log 10 c.natAbs = 28 := Nat.log_eq_of_pow_le_of_lt_pow lower upper
  rw [log]

/-- The minus sign is exact on a coefficient of 28 digits, or on one that ends in a zero. -/
theorem negated_of_fits (representable : Representable d)
    (fits : |d.coefficient| < 10 ^ 28 ∨ 10 ∣ d.coefficient) : ∃ z, Negated d z := by
  by_cases short : |(trimmed d).coefficient| < 10 ^ 28
  · exact negated_short representable.admissible short
  have long : ¬ |d.coefficient| < 10 ^ 28 := fun less => short ((trimmed_coefficient d).trans_lt less)
  obtain ⟨k, shape⟩ := fits.resolve_left long
  have nonzero : d.coefficient ≠ 0 := by
    intro zero
    simp [zero] at long
  by_cases fraction : d.exponent < 0
  · exfalso
    apply short
    rw [trimmed, if_neg nonzero, if_pos fraction, FiniteDecimal.cutZeros, if_pos ⟨k, shape⟩]
    apply (FiniteDecimal.cutZeros_coefficient _ _).trans_lt
    have bound := representable.coefficient
    rw [shape, abs_mul, abs_of_pos (by norm_num : (0 : Int) < 10)] at bound
    rw [shape, Int.mul_ediv_cancel_left _ (by norm_num)]
    dsimp only
    have envelope : maximum < 10 * 10 ^ 28 := by norm_num [maximum]
    omega
  · have same : trimmed d = d := by rw [trimmed, if_neg nonzero, if_neg fraction]
    refine ⟨_, Negated.of_value representable.admissible ?_⟩
    have long' : ¬ |d.neg.coefficient| < 10 ^ 28 := by
      rw [FiniteDecimal.neg, abs_neg]
      exact long
    rw [same, FiniteDecimal.value_fix (by norm_num) long', FiniteDecimal.neg,
      excess_digit long representable.coefficient]
    have tenth : (((-d.coefficient : Int) : ℚ) / 10 ^ 1) = ((-k : Int) : ℚ) := by
      rw [shape]
      push_cast
      ring
    rw [tenth, roundEven_int, FiniteDecimal.value, shape, Nat.cast_one, zpow_add_one₀ (by norm_num)]
    push_cast
    ring

/-- A longer coefficient that does not end in a zero loses its last digit. -/
theorem fits_of_exact (representable : Representable d)
    (exact : (evaluateMinus (.decimal d)).number? = some (-d.value)) :
    |d.coefficient| < 10 ^ 28 ∨ 10 ∣ d.coefficient := by
  by_contra neither
  obtain ⟨long, last⟩ := not_or.mp neither
  have nonzero : d.coefficient ≠ 0 := by
    intro zero
    simp [zero] at long
  have same : trimmed d = d := by
    rw [trimmed, if_neg nonzero, FiniteDecimal.cutZeros_of_not_dvd last, ite_self]
  have long' : ¬ |d.neg.coefficient| < 10 ^ 28 := by
    rw [FiniteDecimal.neg, abs_neg]
    exact long
  rw [evaluateMinus_decimal representable.admissible, same, Value.number?, Option.some_inj,
    FiniteDecimal.value_fix (by norm_num) long', FiniteDecimal.neg,
    excess_digit long representable.coefficient, FiniteDecimal.value, Nat.cast_one,
    zpow_add_one₀ (by norm_num)] at exact
  have power : (10 : ℚ) ^ d.exponent ≠ 0 := by positivity
  have cut : ((roundEven (((-d.coefficient : Int) : ℚ) / 10 ^ 1) * 10 : Int) : ℚ)
      = ((-d.coefficient : Int) : ℚ) := by
    apply mul_right_cancel₀ power
    push_cast at exact ⊢
    linarith
  have whole : roundEven (((-d.coefficient : Int) : ℚ) / 10 ^ 1) * 10 = -d.coefficient := by exact_mod_cast cut
  exact last ((dvd_neg).mp (whole ▸ dvd_mul_left _ _))

/-! ## Decimal arithmetic -/

/-- The result is the exact one, rounded once at the largest scale that fits it and accepted at that
value; an error is a division by zero, or a result that fits at no scale. -/
def CorrectlyRounded (left right : FiniteDecimal) (operator : Operator) : Prop :=
  let exact := exactResult left.value right.value operator
  match decimalBinaryOperation left right operator with
  | .ok z => ¬ (operator = .slash ∧ right.value = 0) ∧ Fits exact 0 ∧
      (∃ scale, LargestScale exact scale ∧ z.value = coefficientAt exact scale / 10 ^ scale) ∧
      ∃ accepted, runtimeDecimal (.decimal z) = some accepted ∧ accepted.value = z.value
  | .error _ => (operator = .slash ∧ right.value = 0) ∨ ¬ Fits exact 0

/-- The minus sign changes the sign and nothing else. -/
structure MinusExact (x : FiniteDecimal) : Prop where
  exact : (evaluateMinus (.decimal x)).number? = some (-x.value)
  involutive : (evaluateMinus (evaluateMinus (.decimal x))).number? = some x.value
  cancels : (evaluateBinary (.decimal x) (evaluateMinus (.decimal x)) .plus).number? = some 0

theorem LargestScale.representable (largest : LargestScale exact scale) :
    Representable ⟨coefficientAt exact scale, -scale⟩ := by
  have bound := largest.bound
  exact ⟨largest.fits, by dsimp only; omega, by dsimp only; omega⟩

theorem correctlyRounded (first : Representable left) (second : Representable right)
    (operator : Operator) : CorrectlyRounded left right operator := by
  have zero_iff : right.value = 0 ↔ right.coefficient = 0 := by
    have power : (10 : ℚ) ^ right.exponent ≠ 0 := by positivity
    rw [FiniteDecimal.value, mul_eq_zero_iff_right power, Int.cast_eq_zero]
  rw [CorrectlyRounded]
  by_cases undefined : operator = .slash ∧ right.value = 0
  · obtain ⟨rfl, zero⟩ := undefined
    simp only [decimalBinaryOperation, if_pos (zero_iff.mp zero)]
    exact .inl ⟨trivial, zero⟩
  · have defined : operator = .slash → right.coefficient ≠ 0 :=
      fun division zero => undefined ⟨division, zero_iff.mpr zero⟩
    have result := decimalBinaryOperation_result first second operator defined
    generalize decimalBinaryOperation left right operator = outcome at result
    cases result with
    | rounded scale largest =>
      refine ⟨undefined, largest.fits.whole, ⟨scale, largest, ?_⟩, trimmed _,
        envelope_admissible largest.representable.admissible, value_trimmed _⟩
      rw [FiniteDecimal.value, zpow_neg, zpow_natCast, div_eq_mul_inv]
    | exceeds none => exact .inr none

theorem Negated.cancels {z : FiniteDecimal} (admissible : Admissible x) (negated : Negated x z) :
    (evaluateBinary (.decimal x) (.decimal z) .plus).number? = some 0 := by
  have zero : ((trimmed x).sum (trimmed z)).value = 0 := by
    rw [FiniteDecimal.value_sum, value_trimmed, value_trimmed, negated.value, add_neg_cancel]
  have short : |((trimmed x).sum (trimmed z)).coefficient| < 10 ^ 64 := by
    have power : (10 : ℚ) ^ ((trimmed x).sum (trimmed z)).exponent ≠ 0 := by positivity
    rw [FiniteDecimal.value, mul_eq_zero_iff_right power, Int.cast_eq_zero] at zero
    rw [zero]
    norm_num
  have nothing (scale : Nat) : coefficientAt 0 scale = 0 := by
    rw [coefficientAt, zero_mul]
    exact roundEven_int 0
  have result := decimalResultValue_result (agrees_fix short zero)
  rw [evaluateBinary, runtimeDecimal, runtimeDecimal, envelope_admissible admissible,
    envelope_admissible negated.admissible]
  dsimp only [decimalBinaryOperation]
  generalize decimalResultValue (((trimmed x).sum (trimmed z)).fix 64) = outcome at result
  cases result with
  | rounded scale largest => simp [Value.number?, FiniteDecimal.value, nothing]
  | exceeds none =>
    apply absurd _ none
    rw [Fits, nothing]
    decide

theorem minusExact_iff (representable : Representable x) :
    MinusExact x ↔ |x.coefficient| < 10 ^ 28 ∨ 10 ∣ x.coefficient := by
  refine ⟨fun minus => fits_of_exact representable minus.exact, fun fits => ?_⟩
  obtain ⟨z, negated⟩ := negated_of_fits representable fits
  obtain ⟨w, again⟩ := negated_short negated.admissible ((trimmed_coefficient z).trans_lt negated.short)
  refine ⟨?_, ?_, ?_⟩
  · rw [negated.evaluates, Value.number?, negated.value]
  · rw [negated.evaluates, again.evaluates, Value.number?, again.value, negated.value, neg_neg]
  · rw [negated.evaluates]
    exact negated.cancels representable.admissible

/-- **Decimal arithmetic is correctly rounded, but for the minus sign.**  Every operation rounds its exact
result once; the minus sign is exact on the decimals whose coefficient fits 28 digits or ends in a zero. -/
theorem decimalArithmetic_correct_iff (x y : FiniteDecimal) (first : Representable x) (second : Representable y) :
    (∀ operator, CorrectlyRounded x y operator) ∧
      ((∀ operator, CorrectlyRounded x y operator) ∧ MinusExact x ↔
        |x.coefficient| < 10 ^ 28 ∨ 10 ∣ x.coefficient) := by
  have rounded : ∀ operator, CorrectlyRounded x y operator := correctlyRounded first second
  exact ⟨rounded, (and_iff_right rounded).trans (minusExact_iff first)⟩

theorem decimalArithmetic_correct_iff_thirds :
    (∀ operator, CorrectlyRounded ⟨1, 0⟩ ⟨3, 0⟩ operator) ∧
      ((∀ operator, CorrectlyRounded ⟨1, 0⟩ ⟨3, 0⟩ operator) ∧ MinusExact ⟨1, 0⟩ ↔
        |(1 : Int)| < 10 ^ 28 ∨ 10 ∣ (1 : Int)) :=
  decimalArithmetic_correct_iff ⟨1, 0⟩ ⟨3, 0⟩ ⟨by decide, by decide, by decide⟩
    ⟨by decide, by decide, by decide⟩

/-- The largest decimal loses its last digit: the formula
`-79228162514264337593543950335.0` (as an integer literal it is beyond 64 bits and refused). -/
theorem minus_maximum_inexact :
    ¬ ∀ x y, Representable x → Representable y →
      (∀ operator, CorrectlyRounded x y operator) ∧ MinusExact x := by
  intro claimed
  have representable : Representable ⟨79228162514264337593543950335, 0⟩ := ⟨by decide, by decide, by decide⟩
  have minus := (claimed _ _ representable representable).2.exact
  have shape : evaluateMinus (.decimal ⟨79228162514264337593543950335, 0⟩) =
      .decimal ⟨-7922816251426433759354395034, 1⟩ := by decide +kernel
  rw [shape] at minus
  simp only [Value.number?, FiniteDecimal.value, Option.some_inj] at minus
  norm_num at minus

end AxiomEncode.Formula.DecimalArithmetic
