/-
# Readiness.GatesSpec -- rounded rates and exact rates

A gate compares a rate of six digits with the float of a threshold.  `decidesExactly_iff`: the
gates decide the exact rates if and only if no threshold lies within the half millionth by which
a rate is rounded, and an empty suite meets a positive success threshold.  The other laws hold
always: the order of the results has no part in the answer (`summarizeReadiness_perm`), and a
passing artifact does not turn a rate gate (`passes_cons`).
-/
import AxiomEncode.Readiness.Gates

namespace AxiomEncode.Readiness

open Theory

set_option autoImplicit false

/-- A declared rate gate: which results it counts, and which of them as passed. -/
structure RateGate where
  name : String
  select : EvalResult → Option Bool
  /-- The rate where nothing is counted. -/
  whenEmpty : Option PyFloat
  threshold : Threshold

namespace RateGate

variable (gate : RateGate)

def numerator (results : List EvalResult) : Nat := results.countP fun result => gate.select result = some true

def denominator (results : List EvalResult) : Nat := results.countP fun result => (gate.select result).isSome

/-- The exact rate. -/
def rate (results : List EvalResult) : ℚ := gate.numerator results / gate.denominator results

/-- The rate that the gate is given. -/
def actual (results : List EvalResult) : Option PyFloat :=
  if gate.denominator results = 0 then gate.whenEmpty else some (roundedQuotient (gate.rate results))

def passes (results : List EvalResult) : Bool :=
  (gate.actual results).any fun actual => (PyFloat.finite gate.threshold.held).leq actual

/-- The decision on the exact rate. -/
def meets (results : List EvalResult) : Bool :=
  0 < gate.denominator results && gate.threshold.exact ≤ gate.rate results

/-- What is reported of the gate. -/
def outcome (results : List EvalResult) : EvalReadinessGateResult :=
  minGate gate.name ((gate.actual results).map .real) gate.threshold.measure

end RateGate

/-- The gate on all results. -/
def successGate (threshold : Threshold) : RateGate where
  name := "min_success_rate"
  select result := some result.success
  whenEmpty := some (.finite 0)
  threshold

/-- A gate on the artifacts. -/
def artifactGate (name : String) (passed : EvalArtifactMetrics → Bool) (threshold : Threshold) :
    RateGate where
  name
  select result := result.metrics.map passed
  whenEmpty := none
  threshold

/-- The artifacts that an oracle has looked at. -/
def oracleVerdict (metrics : EvalArtifactMetrics) : Option Bool :=
  if metrics.policyenginePass.isSome || metrics.policyengineScore.isSome then
    some (metrics.policyenginePass = some true)
  else none

/-- The gate on the artifacts of the oracle. -/
def oracleGate (threshold : Threshold) : RateGate where
  name := "min_policyengine_pass_rate"
  select result := result.metrics.bind oracleVerdict
  whenEmpty := none
  threshold

def EvalReadinessGates.rateGates (gates : EvalReadinessGates) : List RateGate :=
  (gates.minSuccessRate.map successGate).toList
    ++ (gates.minCompilePassRate.map
        (artifactGate "min_compile_pass_rate" EvalArtifactMetrics.compilePass)).toList
    ++ (gates.minCiPassRate.map (artifactGate "min_ci_pass_rate" EvalArtifactMetrics.ciPass)).toList
    ++ (gates.minZeroUngroundedRate.map
        (artifactGate "min_zero_ungrounded_rate" fun metrics => metrics.ungroundedNumericCount = 0)).toList
    ++ (gates.minGeneralistReviewPassRate.map
        (artifactGate "min_generalist_review_pass_rate" fun metrics =>
          metrics.generalistReviewPass = some true)).toList
    ++ (gates.minPolicyenginePassRate.map oracleGate).toList

/-- The finite estimates that are not negative, as they were written. -/
def writtenCosts (results : List EvalResult) : List ℚ :=
  results.filterMap fun result =>
    match result.estimatedCostUsd with
    | .finite written _ _ => if 0 ≤ written then some written else none
    | _ => none

/-- Every result has an estimate. -/
def everyCost (results : List EvalResult) : Bool := (costs results).length = results.length

/-- The mean of the estimates as they were written. -/
def meanCost (results : List EvalResult) : ℚ := (writtenCosts results).sum / (writtenCosts results).length

/-- The mean of the floats. -/
def heldMean (results : List EvalResult) : ℚ := (costs results).sum / (costs results).length

/-- The decision on the exact mean; no results have no mean. -/
def meetsCost (threshold : Threshold) (results : List EvalResult) : Bool :=
  results ≠ [] && everyCost results && meanCost results ≤ threshold.exact

/-- The decisions on the exact numbers, in the order of the gates. -/
def exactVerdicts (results : List EvalResult) (gates : EvalReadinessGates) : List (String × Bool) :=
  ("min_cases", decide (gates.minCases ≤ results.length))
    :: (gates.rateGates.map (fun gate => (gate.name, gate.meets results))
      ++ (gates.maxMeanEstimatedCostUsd.map fun threshold =>
          ("max_mean_estimated_cost_usd", meetsCost threshold results)).toList)

/-- A result that no rate gate counts against the suite. -/
structure PassingArtifact (result : EvalResult) : Prop where
  success : result.success = true
  artifact : ∃ metrics, result.metrics = some metrics ∧ metrics.compilePass = true
    ∧ metrics.ciPass = true ∧ metrics.ungroundedNumericCount = 0
    ∧ metrics.generalistReviewPass = some true ∧ oracleVerdict metrics ≠ some false

/-- The gates decide the exact rates. -/
structure DecidesExactly (results : List EvalResult) (gates : EvalReadinessGates) : Prop where
  verdicts : (summarizeReadiness results gates).gateResults.map (fun gate => (gate.name, gate.passed))
    = exactVerdicts results gates
  ready : (summarizeReadiness results gates).ready = true
    ↔ ∀ verdict ∈ exactVerdicts results gates, verdict.2 = true
  permuted : ∀ others, results.Perm others → summarizeReadiness others gates = summarizeReadiness results gates
  added : ∀ result, PassingArtifact result → ∀ gate ∈ (summarizeReadiness results gates).gateResults,
    gate.comparator = .min → gate.passed = true →
    ∃ later ∈ (summarizeReadiness (result :: results) gates).gateResults,
      later.name = gate.name ∧ later.passed = true

/-- The float nearest to a rate is above the middle below `k` millionths, or on it for an even `k`. -/
def ReachesMillionth (k : Nat) (rate : ℚ) : Prop :=
  ∃ x, binary64 rate = .finite x
    ∧ ((k : ℚ) - 1 / 2 < x * 10 ^ 6 ∨ ((k : ℚ) - 1 / 2 = x * 10 ^ 6 ∧ Even k))

/-- The float nearest to a mean is below the middle above `k` millionths, or on it for an even `k`. -/
def StaysAtMillionth (k : Nat) (mean : ℚ) : Prop :=
  ∃ x, binary64 mean = .finite x
    ∧ (x * 10 ^ 6 < (k : ℚ) + 1 / 2 ∨ (x * 10 ^ 6 = (k : ℚ) + 1 / 2 ∧ Even k))

/-- A rate reaches some millionths that are not below the threshold. -/
def Reaches (threshold : Threshold) (rate : ℚ) : Prop :=
  ∃ k : Nat, (PyFloat.finite threshold.held).leq (binary64 ((k : ℚ) / 10 ^ 6)) ∧ ReachesMillionth k rate

/-- A mean stays at some millionths that are not above the threshold. -/
def StaysAt (threshold : Threshold) (mean : ℚ) : Prop :=
  ∃ k : Nat, (binary64 ((k : ℚ) / 10 ^ 6)).leq (.finite threshold.held) ∧ StaysAtMillionth k mean

/-- A rate is closer to the threshold than half a millionth, on the other side of it. -/
def Separates (threshold : Threshold) (rate : ℚ) : Prop :=
  (rate < threshold.exact ∧ Reaches threshold rate)
    ∨ (threshold.exact ≤ rate ∧ ¬ Reaches threshold rate)

/-- The same of a mean, the mean of the floats for it, and the most that it may be. -/
def SeparatesAbove (threshold : Threshold) (mean held : ℚ) : Prop :=
  (mean ≤ threshold.exact ∧ ¬ StaysAt threshold held)
    ∨ (threshold.exact < mean ∧ StaysAt threshold held)

/-- No threshold lies within the half millionth that a rate or the mean is rounded by. -/
structure Unseparated (results : List EvalResult) (gates : EvalReadinessGates) : Prop where
  rates : ∀ gate ∈ gates.rateGates, 0 < gate.denominator results →
    ¬ Separates gate.threshold (gate.rate results)
  success : results = [] → ∀ threshold, gates.minSuccessRate = some threshold → 0 < threshold.held
  cost : ∀ threshold, gates.maxMeanEstimatedCostUsd = some threshold → results ≠ [] →
    everyCost results = true → ¬ SeparatesAbove threshold (meanCost results) (heldMean results)

section Gates

variable {results others : List EvalResult} {gates : EvalReadinessGates} {gate : RateGate}
  {threshold : Threshold} {result : EvalResult} {name : String}

/-! ## The gates that are declared -/

theorem fraction_of_gate (whenEmpty : gate.whenEmpty = some (.finite 0)) {numerator denominator : Nat}
    (isNumerator : numerator = gate.numerator results)
    (isDenominator : denominator = gate.denominator results) :
    some (fraction numerator denominator) = gate.actual results := by
  rw [RateGate.actual, fraction, whenEmpty, ← isDenominator]
  split_ifs
  · rfl
  · rw [RateGate.rate, isNumerator, isDenominator]

theorem optionalFraction_of_gate (whenEmpty : gate.whenEmpty = none) {numerator denominator : Nat}
    (isNumerator : numerator = gate.numerator results)
    (isDenominator : denominator = gate.denominator results) :
    optionalFraction numerator denominator = gate.actual results := by
  rw [RateGate.actual, optionalFraction, whenEmpty, ← isDenominator]
  split_ifs with empty
  · rfl
  · rw [fraction, if_neg empty, RateGate.rate, isNumerator, isDenominator]

theorem countP_artifacts (passed : EvalArtifactMetrics → Bool) :
    (results.filterMap EvalResult.metrics).countP passed
      = results.countP fun result => result.metrics.map passed = some true := by
  rw [List.countP_filterMap]
  refine List.countP_congr fun result _ => ?_
  cases result.metrics <;> simp

theorem length_artifacts (passed : EvalArtifactMetrics → Bool) :
    (results.filterMap EvalResult.metrics).length
      = results.countP fun result => (result.metrics.map passed).isSome := by
  rw [List.length_filterMap_eq_countP]
  refine List.countP_congr fun result _ => ?_
  cases result.metrics <;> simp

theorem oracle_counts : ∀ artifacts : List EvalArtifactMetrics,
    ((artifacts.filter fun metrics => metrics.policyenginePass.isSome || metrics.policyengineScore.isSome).countP
        fun metrics => metrics.policyenginePass = some true)
      = artifacts.countP (fun metrics => oracleVerdict metrics = some true)
    ∧ (artifacts.filter fun metrics => metrics.policyenginePass.isSome || metrics.policyengineScore.isSome).length
      = artifacts.countP fun metrics => (oracleVerdict metrics).isSome := by
  intro artifacts
  rw [List.countP_filter, ← List.countP_eq_length_filter]
  refine ⟨List.countP_congr fun metrics _ => ?_, List.countP_congr fun metrics _ => ?_⟩
  · rw [oracleVerdict]
    split_ifs with looked
    · simp [looked]
    · simp [looked]
  · rw [oracleVerdict]
    split_ifs with looked <;> simp [looked]

theorem countP_oracle (results : List EvalResult) :
    (results.filterMap EvalResult.metrics).countP (fun metrics => oracleVerdict metrics = some true)
        = results.countP (fun result => result.metrics.bind oracleVerdict = some true)
      ∧ (results.filterMap EvalResult.metrics).countP (fun metrics => (oracleVerdict metrics).isSome)
        = results.countP fun result => (result.metrics.bind oracleVerdict).isSome := by
  rw [List.countP_filterMap, List.countP_filterMap]
  refine ⟨List.countP_congr fun result _ => ?_, List.countP_congr fun result _ => ?_⟩ <;>
    cases result.metrics <;> simp

theorem declaredMin_of_gate (results : List EvalResult) (build : Threshold → RateGate) {declared : Option Threshold}
    {actual : Option PyFloat}
    (isGate : ∀ threshold, (build threshold).name = name ∧ (build threshold).threshold = threshold
      ∧ actual = (build threshold).actual results) :
    declaredMin name actual declared
      = (declared.map build).toList.map fun gate => gate.outcome results := by
  cases declared with
  | none => rfl
  | some threshold =>
    obtain ⟨isName, isThreshold, isActual⟩ := isGate threshold
    simp [declaredMin, RateGate.outcome, isName, isThreshold, isActual]

/-- **The gate results are those of the rate gates.** -/
theorem gateResults_eq (results : List EvalResult) (gates : EvalReadinessGates) :
    (summarizeReadiness results gates).gateResults
      = minGate "min_cases" (some (.count results.length)) (.count gates.minCases)
        :: (gates.rateGates.map (fun gate => gate.outcome results)
          ++ (gates.maxMeanEstimatedCostUsd.map fun threshold =>
              maxGate "max_mean_estimated_cost_usd"
                ((if everyCost results then roundedMean (costs results) else none).map .real)
                threshold.measure).toList) := by
  have artifact (name : String) (passed : EvalArtifactMetrics → Bool) (declared : Option Threshold) :
      declaredMin name (optionalFraction ((results.filterMap EvalResult.metrics).countP passed)
          (results.filterMap EvalResult.metrics).length) declared
        = (declared.map (artifactGate name passed)).toList.map fun gate => gate.outcome results := by
    refine declaredMin_of_gate results _ fun threshold => ⟨rfl, rfl, ?_⟩
    exact optionalFraction_of_gate rfl (countP_artifacts passed) (length_artifacts passed)
  have success : declaredMin "min_success_rate"
      (some (fraction (results.countP fun result => result.success) results.length))
      gates.minSuccessRate
      = (gates.minSuccessRate.map successGate).toList.map fun gate => gate.outcome results := by
    refine declaredMin_of_gate results successGate fun threshold => ⟨rfl, rfl, ?_⟩
    refine fraction_of_gate rfl ?_ ?_
    · exact List.countP_congr fun result _ => by simp [successGate]
    · simp [RateGate.denominator, successGate]
  have oracle : declaredMin "min_policyengine_pass_rate"
      (optionalFraction
        (((results.filterMap EvalResult.metrics).filter fun metrics =>
          metrics.policyenginePass.isSome || metrics.policyengineScore.isSome).countP
            fun metrics => metrics.policyenginePass = some true)
        ((results.filterMap EvalResult.metrics).filter fun metrics =>
          metrics.policyenginePass.isSome || metrics.policyengineScore.isSome).length)
      gates.minPolicyenginePassRate
      = (gates.minPolicyenginePassRate.map oracleGate).toList.map fun gate => gate.outcome results := by
    refine declaredMin_of_gate results oracleGate fun threshold => ⟨rfl, rfl, ?_⟩
    have artifacts := oracle_counts (results.filterMap EvalResult.metrics)
    have counted := countP_oracle results
    exact optionalFraction_of_gate rfl (artifacts.1.trans counted.1) (artifacts.2.trans counted.2)
  simp only [summarizeReadiness, success, artifact, oracle, EvalReadinessGates.rateGates,
    List.map_append]
  congr 2
  cases gates.maxMeanEstimatedCostUsd <;> simp [everyCost]

/-! ## One gate -/

/-- What holds of each kind of gate; a passing artifact passes the artifact gates. -/
theorem forall_rateGates {holds : RateGate → Prop}
    (success : ∀ threshold, gates.minSuccessRate = some threshold → holds (successGate threshold))
    (artifact : ∀ name passed threshold,
      (∀ result, PassingArtifact result → result.metrics.map passed = some true) →
      holds (artifactGate name passed threshold))
    (oracle : ∀ threshold, holds (oracleGate threshold)) : ∀ gate ∈ gates.rateGates, holds gate := by
  intro gate declared
  simp only [EvalReadinessGates.rateGates, List.mem_append, Option.mem_toList, Option.map_eq_some_iff]
    at declared
  rcases declared with ((((declared | declared) | declared) | declared) | declared) | declared
  · obtain ⟨threshold, isDeclared, rfl⟩ := declared
    exact success threshold isDeclared
  all_goals obtain ⟨threshold, -, rfl⟩ := declared
  · refine artifact _ _ threshold fun result passing => ?_
    obtain ⟨metrics, isMetrics, compiled, -⟩ := passing.artifact
    simp [isMetrics, compiled]
  · refine artifact _ _ threshold fun result passing => ?_
    obtain ⟨metrics, isMetrics, -, passedCi, -⟩ := passing.artifact
    simp [isMetrics, passedCi]
  · refine artifact _ _ threshold fun result passing => ?_
    obtain ⟨metrics, isMetrics, -, -, grounded, -⟩ := passing.artifact
    simp [isMetrics, grounded]
  · refine artifact _ _ threshold fun result passing => ?_
    obtain ⟨metrics, isMetrics, -, -, -, reviewed, -⟩ := passing.artifact
    simp [isMetrics, reviewed]
  · exact oracle threshold

theorem outcome_passed : (gate.outcome results).passed = gate.passes results := by
  rw [RateGate.outcome, RateGate.passes]
  cases gate.actual results <;> rfl

/-! ### Millionths -/

theorem numerator_le_denominator : gate.numerator results ≤ gate.denominator results :=
  List.countP_mono_left fun result _ passed => by simp_all

theorem rate_nonneg : 0 ≤ gate.rate results := by
  rw [RateGate.rate]
  positivity

theorem rate_le_one : gate.rate results ≤ 1 :=
  div_le_one_of_le₀ (by exact_mod_cast numerator_le_denominator) (Nat.cast_nonneg _)

theorem binary64_finite_of_le_one {q : ℚ} (nonneg : 0 ≤ q) (le : q ≤ 1) :
    ∃ x, binary64 q = .finite x := by
  have mono := binary64_mono nonneg le
  have isOne : binary64 1 = .finite 1 := by decide +kernel
  have atLeast := isNonneg_binary64 nonneg
  rw [isOne] at mono
  cases isValue : binary64 q with
  | finite x => exact ⟨x, rfl⟩
  | inf =>
    rw [isValue] at mono
    exact mono.elim
  | negInf =>
    rw [isValue] at atLeast
    exact atLeast.elim

section Millionths

variable {q x : ℚ}

theorem roundedQuotient_of_finite (isFinite : binary64 q = .finite x) :
    roundedQuotient q = binary64 ((roundEven (x * 10 ^ 6) : ℚ) / 10 ^ 6) := by
  rw [roundedQuotient, isFinite, roundDigits]

theorem millionths_nonneg (nonneg : 0 ≤ q) (isFinite : binary64 q = .finite x) :
    0 ≤ roundEven (x * 10 ^ 6) := by
  have atLeast := isNonneg_binary64 nonneg
  rw [isFinite] at atLeast
  have atLeast : 0 ≤ x := atLeast
  exact le_roundEven (n := 0) (by push_cast; positivity)

theorem cast_millionths (nonneg : 0 ≤ q) (isFinite : binary64 q = .finite x) :
    (((roundEven (x * 10 ^ 6)).toNat : Nat) : ℚ) = roundEven (x * 10 ^ 6) := by
  have cast := Int.toNat_of_nonneg (millionths_nonneg nonneg isFinite)
  exact_mod_cast congrArg (fun n : Int => (n : ℚ)) cast

theorem leq_roundedQuotient_iff (nonneg : 0 ≤ q) (isFinite : binary64 q = .finite x) :
    (PyFloat.finite threshold.held).leq (roundedQuotient q) ↔ Reaches threshold q := by
  rw [roundedQuotient_of_finite isFinite]
  constructor
  · intro above
    refine ⟨(roundEven (x * 10 ^ 6)).toNat, ?_, x, isFinite, ?_⟩
    · rwa [cast_millionths nonneg isFinite]
    · have reaches := le_roundEven_iff.mp (le_refl (roundEven (x * 10 ^ 6)))
      have isEven : Even (roundEven (x * 10 ^ 6)).toNat ↔ Even (roundEven (x * 10 ^ 6)) := by
        rw [← Int.even_coe_nat, Int.toNat_of_nonneg (millionths_nonneg nonneg isFinite)]
      rwa [cast_millionths nonneg isFinite, isEven]
  · rintro ⟨k, above, y, isFinite', reaches⟩
    have same : y = x := PyFloat.finite.inj (isFinite'.symm.trans isFinite)
    subst same
    have le : (k : Int) ≤ roundEven (y * 10 ^ 6) := by
      refine le_roundEven_iff.mpr ?_
      simpa using reaches
    have le : (k : ℚ) ≤ roundEven (y * 10 ^ 6) := by exact_mod_cast le
    refine PyFloat.leq_trans above (binary64_mono (by positivity) ?_)
    exact div_le_div_of_nonneg_right le (by positivity)

theorem roundedQuotient_leq_iff (nonneg : 0 ≤ q) :
    (roundedQuotient q).leq (.finite threshold.held) ↔ StaysAt threshold q := by
  have atLeast := isNonneg_binary64 nonneg
  cases isFinite : binary64 q with
  | finite x =>
    rw [roundedQuotient_of_finite isFinite]
    constructor
    · intro below
      refine ⟨(roundEven (x * 10 ^ 6)).toNat, ?_, x, isFinite, ?_⟩
      · rwa [cast_millionths nonneg isFinite]
      · have stays := roundEven_le_iff.mp (le_refl (roundEven (x * 10 ^ 6)))
        have isEven : Even (roundEven (x * 10 ^ 6)).toNat ↔ Even (roundEven (x * 10 ^ 6)) := by
          rw [← Int.even_coe_nat, Int.toNat_of_nonneg (millionths_nonneg nonneg isFinite)]
        rwa [cast_millionths nonneg isFinite, isEven]
    · rintro ⟨k, below, y, isFinite', stays⟩
      have same : y = x := PyFloat.finite.inj (isFinite'.symm.trans isFinite)
      subst same
      have le : roundEven (y * 10 ^ 6) ≤ (k : Int) := by
        refine roundEven_le_iff.mpr ?_
        simpa using stays
      have le : (roundEven (y * 10 ^ 6) : ℚ) ≤ k := by exact_mod_cast le
      have least : (0 : ℚ) ≤ roundEven (y * 10 ^ 6) := by
        exact_mod_cast millionths_nonneg nonneg isFinite
      refine PyFloat.leq_trans (binary64_mono (by positivity) ?_) below
      exact div_le_div_of_nonneg_right le (by positivity)
  | inf =>
    refine ⟨fun below => ?_, fun ⟨k, _, y, isFinite', _⟩ => ?_⟩
    · rw [roundedQuotient, isFinite] at below
      exact below.elim
    · rw [isFinite] at isFinite'
      cases isFinite'
  | negInf =>
    rw [isFinite] at atLeast
    exact atLeast.elim

end Millionths

theorem passes_eq_meets_iff :
    gate.passes results = gate.meets results
      ↔ (0 < gate.denominator results → ¬ Separates gate.threshold (gate.rate results))
        ∧ (gate.denominator results = 0 → ∀ rate, gate.whenEmpty = some rate →
          ¬ (PyFloat.finite gate.threshold.held).leq rate) := by
  rcases Nat.eq_zero_or_pos (gate.denominator results) with empty | counted
  · rw [RateGate.passes, RateGate.actual, RateGate.meets, if_pos empty]
    cases gate.whenEmpty <;> simp [empty]
  · rw [RateGate.passes, RateGate.actual, RateGate.meets, if_neg counted.ne', Separates]
    simp only [Option.any_some, counted, decide_true, Bool.true_and, decide_eq_decide, forall_const,
      counted.ne', false_implies, and_true]
    have nonneg : 0 ≤ gate.rate results := rate_nonneg
    obtain ⟨x, isFinite⟩ := binary64_finite_of_le_one nonneg rate_le_one
    rw [leq_roundedQuotient_iff rate_nonneg isFinite]
    constructor
    · rintro same (⟨below, passed⟩ | ⟨above, failed⟩)
      · exact not_le.mpr below (same.mp passed)
      · exact failed (same.mpr above)
    · intro unseparated
      constructor
      · intro passed
        by_contra below
        exact unseparated (.inl ⟨not_le.mp below, passed⟩)
      · intro above
        by_contra failed
        exact unseparated (.inr ⟨above, failed⟩)

theorem denominator_success (threshold : Threshold) :
    (successGate threshold).denominator results = results.length := by
  simp [RateGate.denominator, successGate]

theorem rateGates_decide_iff :
    (∀ gate ∈ gates.rateGates, gate.passes results = gate.meets results)
      ↔ (∀ gate ∈ gates.rateGates, 0 < gate.denominator results →
          ¬ Separates gate.threshold (gate.rate results))
        ∧ (results = [] → ∀ threshold, gates.minSuccessRate = some threshold → 0 < threshold.held) := by
  constructor
  · intro decided
    refine ⟨fun gate declared => (passes_eq_meets_iff.mp (decided gate declared)).1, ?_⟩
    intro empty threshold isDeclared
    have declared : successGate threshold ∈ gates.rateGates := by
      simp [EvalReadinessGates.rateGates, isDeclared]
    have counted : (successGate threshold).denominator results = 0 := by
      rw [denominator_success, empty, List.length_nil]
    exact not_le.mp ((passes_eq_meets_iff.mp (decided _ declared)).2 counted _ rfl)
  · rintro ⟨unseparated, positive⟩ gate declared
    refine passes_eq_meets_iff.mpr ⟨unseparated gate declared, ?_⟩
    clear unseparated
    revert gate
    refine forall_rateGates ?_ ?_ ?_
    · intro threshold isDeclared counted rate isRate
      rw [denominator_success, List.length_eq_zero_iff] at counted
      cases isRate
      exact not_le.mpr (positive counted threshold isDeclared)
    · intro name passed threshold passes counted rate isRate
      cases isRate
    · intro threshold counted rate isRate
      cases isRate

/-! ## The cost -/

theorem costs_nil_of_everyCost (every : everyCost results = true) : costs results = [] ↔ results = [] := by
  have lengths : (costs results).length = results.length := of_decide_eq_true every
  rw [← List.length_eq_zero_iff, lengths, List.length_eq_zero_iff]

/-- The cost gate passes. -/
def passesCost (threshold : Threshold) (results : List EvalResult) : Bool :=
  ((if everyCost results then roundedMean (costs results) else none).map Measure.real).any fun actual =>
    actual.value.leq threshold.measure.value

theorem passesCost_of_ne_nil (every : everyCost results = true) (nonempty : results ≠ []) :
    passesCost threshold results
      = decide ((roundedQuotient (heldMean results)).leq (.finite threshold.held)) := by
  rw [passesCost, if_pos every, roundedMean, if_neg (mt (costs_nil_of_everyCost every).mp nonempty)]
  rfl

theorem heldMean_nonneg : 0 ≤ heldMean results := by
  refine div_nonneg (List.sum_nonneg fun value declared => ?_) (Nat.cast_nonneg _)
  obtain ⟨result, -, isCost⟩ := List.mem_filterMap.mp declared
  split at isCost
  · next written held rounds _ =>
      obtain ⟨nonneg, isValue⟩ := Option.ite_none_right_eq_some.mp isCost
      have isNonneg := isNonneg_binary64 nonneg
      rw [rounds] at isNonneg
      exact Option.some.inj isValue ▸ isNonneg
  · cases isCost

theorem passesCost_eq_meetsCost_iff :
    passesCost threshold results = meetsCost threshold results
      ↔ (results ≠ [] → everyCost results = true →
        ¬ SeparatesAbove threshold (meanCost results) (heldMean results)) := by
  cases every : everyCost results with
  | false => simp [passesCost, meetsCost, every]
  | true =>
    by_cases empty : results = []
    · rw [passesCost, if_pos every, roundedMean, if_pos ((costs_nil_of_everyCost every).mpr empty)]
      simp [meetsCost, empty]
    · rw [passesCost_of_ne_nil every empty, meetsCost, every]
      simp only [ne_eq, empty, not_false_eq_true, decide_true, Bool.true_and, forall_const,
        decide_eq_decide, SeparatesAbove]
      rw [roundedQuotient_leq_iff heldMean_nonneg]
      constructor
      · rintro same (⟨below, failed⟩ | ⟨above, passed⟩)
        · exact failed (same.mpr below)
        · exact not_le.mpr above (same.mp passed)
      · intro unseparated
        constructor
        · intro passed
          by_contra above
          exact unseparated (.inr ⟨not_le.mp above, passed⟩)
        · intro below
          by_contra failed
          exact unseparated (.inl ⟨below, failed⟩)

/-- What each gate decides. -/
theorem verdicts_eq (results : List EvalResult) (gates : EvalReadinessGates) :
    (summarizeReadiness results gates).gateResults.map (fun gate => (gate.name, gate.passed))
      = ("min_cases", decide (gates.minCases ≤ results.length))
        :: (gates.rateGates.map (fun gate => (gate.name, gate.passes results))
          ++ (gates.maxMeanEstimatedCostUsd.map fun threshold =>
              ("max_mean_estimated_cost_usd", passesCost threshold results)).toList) := by
  rw [gateResults_eq, List.map_cons, List.map_append, List.map_map]
  have cases : decide ((Measure.count gates.minCases).value.leq (Measure.count results.length).value)
      = decide (gates.minCases ≤ results.length) := by
    refine decide_eq_decide.mpr ?_
    exact Int.cast_le (R := ℚ)
  have rate : (fun gate : EvalReadinessGateResult => (gate.name, gate.passed))
      ∘ (fun gate : RateGate => gate.outcome results) = fun gate => (gate.name, gate.passes results) := by
    funext gate
    exact congrArg (Prod.mk gate.name) outcome_passed
  rw [rate]
  refine congrArg₂ List.cons ?_ (congrArg _ ?_)
  · exact congrArg (Prod.mk "min_cases") cases
  · cases gates.maxMeanEstimatedCostUsd <;> rfl

theorem verdicts_eq_iff :
    (summarizeReadiness results gates).gateResults.map (fun gate => (gate.name, gate.passed))
        = exactVerdicts results gates
      ↔ Unseparated results gates := by
  rw [verdicts_eq, exactVerdicts, List.cons_inj_right]
  have lengths : (gates.rateGates.map fun gate => (gate.name, gate.passes results)).length
      = (gates.rateGates.map fun gate => (gate.name, gate.meets results)).length := by
    rw [List.length_map, List.length_map]
  constructor
  · intro same
    obtain ⟨rates, cost⟩ := List.append_inj same lengths
    have decided : ∀ gate ∈ gates.rateGates, gate.passes results = gate.meets results :=
      fun gate declared => congrArg Prod.snd (List.map_inj_left.mp rates gate declared)
    obtain ⟨unseparated, positive⟩ := rateGates_decide_iff.mp decided
    refine ⟨unseparated, positive, fun threshold isDeclared => ?_⟩
    rw [isDeclared] at cost
    refine passesCost_eq_meetsCost_iff.mp ?_
    simpa using cost
  · rintro ⟨unseparated, positive, cost⟩
    refine congrArg₂ List.append (List.map_congr_left fun gate declared => ?_) ?_
    · exact congrArg (Prod.mk gate.name)
        (rateGates_decide_iff.mpr ⟨unseparated, positive⟩ gate declared)
    · cases isDeclared : gates.maxMeanEstimatedCostUsd with
      | none => rfl
      | some threshold => simp [passesCost_eq_meetsCost_iff.mpr (cost threshold isDeclared)]

theorem ready_iff :
    (summarizeReadiness results gates).ready = true
      ↔ ∀ verdict ∈ (summarizeReadiness results gates).gateResults.map
          (fun gate => (gate.name, gate.passed)), verdict.2 = true := by
  have isReady : (summarizeReadiness results gates).ready
      = (summarizeReadiness results gates).gateResults.all EvalReadinessGateResult.passed := rfl
  rw [isReady, List.all_eq_true, List.forall_mem_map]

/-! ## The order of the results -/

theorem roundedMean_perm {values values' : List ℚ} (perm : values.Perm values') :
    roundedMean values = roundedMean values' := by
  have isNil : (values = []) = (values' = []) := by
    rw [← List.length_eq_zero_iff, ← List.length_eq_zero_iff, perm.length_eq]
  simp only [roundedMean, isNil, perm.sum_eq, perm.length_eq]

/-- **The order of the results does not matter.** -/
theorem summarizeReadiness_perm (perm : results.Perm others) :
    summarizeReadiness results gates = summarizeReadiness others gates := by
  have artifacts := perm.filterMap EvalResult.metrics
  have looked := artifacts.filter fun metrics =>
    metrics.policyenginePass.isSome || metrics.policyengineScore.isSome
  have estimates : (costs results).Perm (costs others) := perm.filterMap _
  simp only [summarizeReadiness, perm.length_eq, perm.countP_eq, artifacts.length_eq,
    artifacts.countP_eq, looked.length_eq, looked.countP_eq, estimates.length_eq,
    roundedMean_perm estimates, roundedMean_perm (artifacts.filterMap _)]

/-! ## One more result -/

theorem roundedQuotient_mono {q r : ℚ} (nonneg : 0 ≤ q) (le : q ≤ r) :
    (roundedQuotient q).leq (roundedQuotient r) :=
  roundDigits_mono 6 (isNonneg_binary64 nonneg) (binary64_mono nonneg le)

theorem roundedQuotient_zero : roundedQuotient 0 = .finite 0 := by
  have atZero : roundEven 0 = 0 := roundEven_int 0
  simp [roundedQuotient, binary64_zero, roundDigits, atZero]

theorem quotient_le_succ {n d : Nat} (le : n ≤ d) (positive : 0 < d) :
    (n : ℚ) / d ≤ ((n + 1 : Nat) : ℚ) / ((d + 1 : Nat) : ℚ) := by
  have positive : (0 : ℚ) < d := by exact_mod_cast positive
  have le : (n : ℚ) ≤ d := by exact_mod_cast le
  push_cast
  rw [div_le_div_iff₀ positive (by linarith)]
  linarith

theorem passes_cons (whenEmpty : ∀ rate, gate.whenEmpty = some rate → rate = .finite 0)
    (counts : gate.select result ≠ some false) (passes : gate.passes results = true) :
    gate.passes (result :: results) = true := by
  cases isVerdict : gate.select result with
  | none =>
    have numerators : gate.numerator (result :: results) = gate.numerator results := by
      simp [RateGate.numerator, isVerdict]
    have denominators : gate.denominator (result :: results) = gate.denominator results := by
      simp [RateGate.denominator, isVerdict]
    rw [RateGate.passes, RateGate.actual, RateGate.rate, numerators, denominators]
    exact passes
  | some verdict =>
    have isTrue : verdict = true := by
      cases verdict
      · exact absurd isVerdict counts
      · rfl
    have numerators : gate.numerator (result :: results) = gate.numerator results + 1 := by
      simp [RateGate.numerator, isVerdict, isTrue]
    have denominators : gate.denominator (result :: results) = gate.denominator results + 1 := by
      simp [RateGate.denominator, isVerdict]
    have isActual : gate.actual (result :: results)
        = some (roundedQuotient (gate.rate (result :: results))) := by
      rw [RateGate.actual, if_neg (by omega)]
    rw [RateGate.passes, isActual, Option.any_some, decide_eq_true_eq]
    rw [RateGate.passes, RateGate.actual] at passes
    by_cases empty : gate.denominator results = 0
    · rw [if_pos empty] at passes
      cases isRate : gate.whenEmpty with
      | none => simp [isRate] at passes
      | some rate =>
        rw [isRate, Option.any_some, decide_eq_true_eq, whenEmpty rate isRate,
          ← roundedQuotient_zero] at passes
        exact PyFloat.leq_trans passes (roundedQuotient_mono le_rfl rate_nonneg)
    · rw [if_neg empty, Option.any_some, decide_eq_true_eq] at passes
      refine PyFloat.leq_trans passes (roundedQuotient_mono rate_nonneg ?_)
      rw [RateGate.rate, RateGate.rate, numerators, denominators]
      exact quotient_le_succ numerator_le_denominator (Nat.pos_of_ne_zero empty)

theorem counts_of_passing (passing : PassingArtifact result) : ∀ gate ∈ gates.rateGates,
    (∀ rate, gate.whenEmpty = some rate → rate = .finite 0) ∧ gate.select result ≠ some false := by
  refine forall_rateGates ?_ ?_ ?_
  · intro threshold _
    refine ⟨fun rate isRate => (Option.some.inj isRate).symm, ?_⟩
    simp [successGate, passing.success]
  · intro name passed threshold passes
    refine ⟨fun rate isRate => (nomatch isRate), ?_⟩
    simp [artifactGate, passes result passing]
  · intro threshold
    refine ⟨fun rate isRate => (nomatch isRate), ?_⟩
    obtain ⟨metrics, isMetrics, -, -, -, -, notFailed⟩ := passing.artifact
    simpa [oracleGate, isMetrics] using notFailed

theorem added_keeps {later : EvalReadinessGateResult}
    (passing : PassingArtifact result) (declared : later ∈ (summarizeReadiness results gates).gateResults)
    (isMin : later.comparator = .min) (passed : later.passed = true) :
    ∃ next ∈ (summarizeReadiness (result :: results) gates).gateResults,
      next.name = later.name ∧ next.passed = true := by
  rw [gateResults_eq, List.mem_cons, List.mem_append] at declared
  rw [gateResults_eq]
  rcases declared with rfl | declared | declared
  · refine ⟨_, List.mem_cons_self, rfl, ?_⟩
    have enough : (gates.minCases : ℚ) ≤ (results.length : Int) := of_decide_eq_true passed
    have enough : gates.minCases ≤ results.length := by exact_mod_cast enough
    refine decide_eq_true (show (gates.minCases : ℚ) ≤ ((result :: results).length : Int) from ?_)
    rw [Int.cast_le, List.length_cons]
    push_cast
    omega
  · obtain ⟨gate, isDeclared, rfl⟩ := List.mem_map.mp declared
    refine ⟨gate.outcome (result :: results),
      List.mem_cons_of_mem _ (List.mem_append_left _ (List.mem_map_of_mem isDeclared)), rfl, ?_⟩
    rw [outcome_passed] at passed ⊢
    obtain ⟨whenEmpty, counts⟩ := counts_of_passing passing gate isDeclared
    exact passes_cons whenEmpty counts passed
  · rw [Option.mem_toList, Option.map_eq_some_iff] at declared
    obtain ⟨threshold, -, rfl⟩ := declared
    cases isMin

/-- **The gates decide the exact rates if and only if no threshold lies between a rate and its
rounding, and no empty suite has a threshold of zero.** -/
theorem decidesExactly_iff (results : List EvalResult) (gates : EvalReadinessGates) :
    DecidesExactly results gates ↔ Unseparated results gates := by
  constructor
  · intro decides
    exact verdicts_eq_iff.mp decides.verdicts
  · intro unseparated
    have verdicts := verdicts_eq_iff.mpr unseparated
    exact {
      verdicts
      ready := by rw [ready_iff, verdicts]
      permuted := fun others perm => (summarizeReadiness_perm perm).symm
      added := fun result passing gate declared isMin passed =>
        added_keeps passing declared isMin passed }

end Gates

/-! ## Two thirds -/

theorem finite?_int {value : Int} {held : ℚ} (rounds : binary64 value = .finite held) :
    (GateValue.int value).finite? = some ⟨value, held, rounds⟩ := by
  rw [GateValue.finite?]
  split
  · next held' rounds' =>
      have same : held' = held := PyFloat.finite.inj (rounds'.symm.trans rounds)
      subst same
      rfl
  · next other => exact absurd rounds (other held)

theorem finite?_float {value held : ℚ} (rounds : binary64 value = .finite held) :
    (GateValue.float value).finite? = some ⟨value, held, rounds⟩ := by
  rw [GateValue.finite?]
  split
  · next held' rounds' =>
      have same : held' = held := PyFloat.finite.inj (rounds'.symm.trans rounds)
      subst same
      rfl
  · next other => exact absurd rounds (other held)

theorem strictEvalGateRate_of_finite {raw : RawGates} {name : String} {value : GateValue}
    {threshold : Threshold} (required : Bool) (isValue : raw.lookup name = some value)
    (isFinite : value.finite? = some threshold) (bounded : 0 ≤ threshold.held ∧ threshold.held ≤ 1) :
    strictEvalGateRate raw name required = .ok (some threshold) := by
  simp only [strictEvalGateRate, isValue, isFinite, if_pos bounded]

/-- Thresholds of zero but for the rate of successes. -/
def sampleRaw : RawGates :=
  [("min_cases", .int 1), ("min_success_rate", .float (666667 / 1000000)),
    ("min_compile_pass_rate", .int 0), ("min_ci_pass_rate", .int 0),
    ("min_zero_ungrounded_rate", .int 0), ("min_generalist_review_pass_rate", .int 0)]

/-- A result without an artifact. -/
def sampleResult (success : Bool) : EvalResult := ⟨success, false, none, .absent⟩

def sampleZero : Threshold := ⟨0, 0, by decide⟩

def sampleThreshold : Threshold :=
  ⟨666667 / 1000000, 6004802505560413 / 9007199254740992, by decide +kernel⟩

def sampleGates : EvalReadinessGates :=
  ⟨1, sampleThreshold, sampleZero, sampleZero, sampleZero, sampleZero, none, none⟩

/-- Two successes of three pass a threshold that is above two thirds. -/
theorem decidesExactly_two_thirds :
    parseEvalReadinessGates (fun _ => "") (some sampleRaw) false = .ok sampleGates
      ∧ ¬ DecidesExactly [sampleResult true, sampleResult true, sampleResult false] sampleGates := by
  constructor
  · have expected : unexpectedMappingKeys sampleRaw evalSuiteGateKeys = [] := by
      simp [unexpectedMappingKeys, sampleRaw, evalSuiteGateKeys]
    have success : strictEvalGateRate sampleRaw "min_success_rate" true = .ok (some sampleThreshold) :=
      strictEvalGateRate_of_finite true rfl (finite?_float sampleThreshold.rounds) (by decide +kernel)
    have zero (name : String) (isValue : sampleRaw.lookup name = some (.int 0)) :
        strictEvalGateRate sampleRaw name true = .ok (some sampleZero) :=
      strictEvalGateRate_of_finite true isValue (finite?_int binary64_zero) (by decide +kernel)
    simp only [parseEvalReadinessGates, expected, success, zero "min_compile_pass_rate" rfl,
      zero "min_ci_pass_rate" rfl, zero "min_zero_ungrounded_rate" rfl,
      zero "min_generalist_review_pass_rate" rfl]
    rfl
  · intro decides
    have unseparated := (verdicts_eq_iff.mp decides.verdicts).rates (successGate sampleThreshold)
      (by simp [EvalReadinessGates.rateGates, sampleGates]) (by decide)
    have isRate : (successGate sampleThreshold).rate
        [sampleResult true, sampleResult true, sampleResult false] = 2 / 3 := by
      decide +kernel
    rw [isRate] at unseparated
    refine unseparated (.inl ⟨by decide +kernel, ?_⟩)
    exact ⟨666667, by decide +kernel, 6004799503160661 / 9007199254740992, by decide +kernel,
      .inl (by norm_num)⟩

end AxiomEncode.Readiness
