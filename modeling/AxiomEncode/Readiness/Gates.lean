/-
# Readiness.Gates -- when a suite is ready

`_parse_eval_readiness_gates` reads the thresholds of a manifest, and `summarize_readiness`
compares them with the rates of the results.  A threshold keeps the number that the manifest
writes beside the float that the gate holds; a rate is a quotient of two counts, rounded to a
float and then to six digits.
-/
import AxiomEncode.Theory.Binary64

namespace AxiomEncode.Readiness

open Theory

set_option autoImplicit false

/-- A number as it was written, and the float that holds it. -/
structure Threshold where
  exact : ℚ
  held : ℚ
  rounds : binary64 exact = .finite held

/-- `EvalReadinessGates` -/
structure EvalReadinessGates where
  minCases : Int
  minSuccessRate : Option Threshold
  minCompilePassRate : Option Threshold
  minCiPassRate : Option Threshold
  minZeroUngroundedRate : Option Threshold
  minGeneralistReviewPassRate : Option Threshold
  minPolicyenginePassRate : Option Threshold
  maxMeanEstimatedCostUsd : Option Threshold

/-! ## The manifest -/

/-- A value under a key of the gates. -/
inductive GateValue where
  | int (value : Int)
  | float (value : ℚ)
  /-- An infinity or a NaN. -/
  | notFinite
  /-- No number, or a truth value. -/
  | other

abbrev RawGates := List (String × GateValue)

/-- `float(value)` of a finite number. -/
def GateValue.finite? : GateValue → Option Threshold
  | .int value =>
    match rounds : binary64 value with
    | .finite held => some ⟨value, held, rounds⟩
    | _ => none
  | .float value =>
    match rounds : binary64 value with
    | .finite held => some ⟨value, held, rounds⟩
    | _ => none
  | _ => none

/-- `_EVAL_SUITE_GATE_KEYS` -/
def evalSuiteGateKeys : List String :=
  ["min_cases", "min_success_rate", "min_compile_pass_rate", "min_ci_pass_rate",
    "min_zero_ungrounded_rate", "min_generalist_review_pass_rate", "min_policyengine_pass_rate",
    "max_mean_estimated_cost_usd"]

/-- `_unexpected_mapping_keys` -/
def unexpectedMappingKeys (raw : RawGates) (allowed : List String) : List String :=
  ((raw.map Prod.fst).filter fun key => !allowed.contains key).mergeSort fun a b => a ≤ b

/-- `_strict_eval_gate_rate` -/
def strictEvalGateRate (raw : RawGates) (name : String) (required : Bool) :
    Except String (Option Threshold) :=
  match raw.lookup name with
  | none =>
    if required then .error ("Eval suite gates must declare non-null '" ++ name ++ "'")
    else .ok none
  | some value =>
    match value.finite? with
    | none => .error ("Eval suite gate '" ++ name ++ "' must be a finite number")
    | some threshold =>
      if 0 ≤ threshold.held ∧ threshold.held ≤ 1 then .ok (some threshold)
      else .error ("Eval suite gate '" ++ name ++ "' must be between 0 and 1")

/-- `_parse_eval_readiness_gates`, of a mapping; `shown` is the text of a list. -/
def parseEvalReadinessGates (shown : List String → String) (raw : Option RawGates)
    (requiresPolicyengine : Bool) : Except String EvalReadinessGates := do
  match raw with
  | none => .error "Eval suite gates must be a mapping"
  | some raw =>
    let unexpected := unexpectedMappingKeys raw evalSuiteGateKeys
    if unexpected ≠ [] then
      .error ("Eval suite gates contain unsupported keys: " ++ shown unexpected)
    else
      match raw.lookup "min_cases" with
      | some (.int minCases) =>
        if minCases < 1 then .error "Eval suite gate 'min_cases' must be an integer >= 1"
        else do
          let success ← strictEvalGateRate raw "min_success_rate" true
          let compile ← strictEvalGateRate raw "min_compile_pass_rate" true
          let ci ← strictEvalGateRate raw "min_ci_pass_rate" true
          let zeroUngrounded ← strictEvalGateRate raw "min_zero_ungrounded_rate" true
          let review ← strictEvalGateRate raw "min_generalist_review_pass_rate" true
          let policyengine ←
            strictEvalGateRate raw "min_policyengine_pass_rate" requiresPolicyengine
          let maxCost ←
            match raw.lookup "max_mean_estimated_cost_usd" with
            | none => pure none
            | some value =>
              match value.finite? with
              | some threshold =>
                if threshold.held < 0 then
                  .error ("Eval suite gate 'max_mean_estimated_cost_usd' must be a finite "
                    ++ "nonnegative number")
                else pure (some threshold)
              | none =>
                .error ("Eval suite gate 'max_mean_estimated_cost_usd' must be a finite "
                  ++ "nonnegative number")
          pure ⟨minCases, success, compile, ci, zeroUngrounded, review, policyengine, maxCost⟩
      | _ => .error "Eval suite gate 'min_cases' must be an integer >= 1"

/-! ## The results -/

/-- What the gates read of `EvalArtifactMetrics`. -/
structure EvalArtifactMetrics where
  compilePass : Bool
  ciPass : Bool
  ungroundedNumericCount : Int
  generalistReviewPass : Option Bool
  generalistReviewScore : Option ℚ
  policyenginePass : Option Bool
  policyengineScore : Option ℚ
  deriving DecidableEq

/-- An estimate of the cost, if it is a number: as it was written, and the float of it.  An integer
that is beyond every float is an error. -/
inductive EstimatedCost where
  | absent
  | finite (written held : ℚ) (rounds : binary64 written = .finite held)
  | notFinite
  deriving DecidableEq

/-- What the gates read of `EvalResult`. -/
structure EvalResult where
  success : Bool
  timedOut : Bool
  metrics : Option EvalArtifactMetrics
  estimatedCostUsd : EstimatedCost
  deriving DecidableEq

/-- A count or a float. -/
inductive Measure where
  | count (n : Int)
  | real (x : PyFloat)
  deriving DecidableEq

def Measure.value : Measure → PyFloat
  | count n => .finite n
  | real x => x

inductive Comparator where
  | min | max
  deriving DecidableEq

/-- `EvalReadinessGateResult` -/
structure EvalReadinessGateResult where
  name : String
  comparator : Comparator
  threshold : Measure
  actual : Option Measure
  passed : Bool
  deriving DecidableEq

/-- `EvalReadinessSummary` -/
structure EvalReadinessSummary where
  totalCases : Nat
  artifactCaseCount : Nat
  timeoutCount : Nat
  successRate : PyFloat
  compilePassRate : Option PyFloat
  ciPassRate : Option PyFloat
  zeroUngroundedRate : Option PyFloat
  generalistReviewPassRate : Option PyFloat
  meanGeneralistReviewScore : Option PyFloat
  policyengineCaseCount : Nat
  policyenginePassRate : Option PyFloat
  meanPolicyengineScore : Option PyFloat
  meanEstimatedCostUsd : Option PyFloat
  gateResults : List EvalReadinessGateResult
  ready : Bool
  deriving DecidableEq

/-! ## The rates and the gates -/

/-- `round(x, 6)` of the float that is nearest to a quotient. -/
def roundedQuotient (q : ℚ) : PyFloat := roundDigits 6 (binary64 q)

/-- `_fraction` -/
def fraction (numerator denominator : Nat) : PyFloat :=
  if denominator = 0 then .finite 0 else roundedQuotient (numerator / denominator)

/-- `_optional_fraction` -/
def optionalFraction (numerator denominator : Nat) : Option PyFloat :=
  if denominator = 0 then none else some (fraction numerator denominator)

/-- `_min_gate` -/
def minGate (name : String) (actual : Option Measure) (threshold : Measure) :
    EvalReadinessGateResult :=
  { name, comparator := .min, threshold, actual,
    passed := actual.any fun actual => threshold.value.leq actual.value }

/-- `_max_gate` -/
def maxGate (name : String) (actual : Option Measure) (threshold : Measure) :
    EvalReadinessGateResult :=
  { name, comparator := .max, threshold, actual,
    passed := actual.any fun actual => actual.value.leq threshold.value }

/-- `statistics.mean`, rounded to six digits, of a list that is not empty. -/
def roundedMean (values : List ℚ) : Option PyFloat :=
  if values = [] then none else some (roundedQuotient (values.sum / values.length))

/-- The finite estimates that are not negative, as floats. -/
def costs (results : List EvalResult) : List ℚ :=
  results.filterMap fun result =>
    match result.estimatedCostUsd with
    | .finite written held _ => if 0 ≤ written then some held else none
    | _ => none

def Threshold.measure (threshold : Threshold) : Measure := .real (.finite threshold.held)

/-- A minimum gate that is declared. -/
def declaredMin (name : String) (actual : Option PyFloat) (threshold : Option Threshold) :
    List EvalReadinessGateResult :=
  (threshold.map fun threshold => minGate name (actual.map .real) threshold.measure).toList

/-- `summarize_readiness` -/
def summarizeReadiness (results : List EvalResult) (gates : EvalReadinessGates) :
    EvalReadinessSummary :=
  let totalCases := results.length
  let artifacts := results.filterMap EvalResult.metrics
  let artifactCaseCount := artifacts.length
  let successRate := fraction (results.countP fun result => result.success) totalCases
  let compilePassRate :=
    optionalFraction (artifacts.countP fun metrics => metrics.compilePass) artifactCaseCount
  let ciPassRate := optionalFraction (artifacts.countP fun metrics => metrics.ciPass) artifactCaseCount
  let zeroUngroundedRate :=
    optionalFraction (artifacts.countP fun metrics => metrics.ungroundedNumericCount = 0)
      artifactCaseCount
  let generalistReviewPassRate :=
    optionalFraction (artifacts.countP fun metrics => metrics.generalistReviewPass = some true)
      artifactCaseCount
  let policyengineResults := artifacts.filter fun metrics =>
    metrics.policyenginePass.isSome || metrics.policyengineScore.isSome
  let policyengineCaseCount := policyengineResults.length
  let policyenginePassRate :=
    optionalFraction (policyengineResults.countP fun metrics => metrics.policyenginePass = some true)
      policyengineCaseCount
  let costs := costs results
  let completeCostEvidence := costs.length = totalCases
  let meanEstimatedCostUsd :=
    if gates.maxMeanEstimatedCostUsd.isNone ∨ completeCostEvidence then roundedMean costs else none
  let gateResults :=
    minGate "min_cases" (some (.count totalCases)) (.count gates.minCases)
      :: (declaredMin "min_success_rate" (some successRate) gates.minSuccessRate
        ++ declaredMin "min_compile_pass_rate" compilePassRate gates.minCompilePassRate
        ++ declaredMin "min_ci_pass_rate" ciPassRate gates.minCiPassRate
        ++ declaredMin "min_zero_ungrounded_rate" zeroUngroundedRate gates.minZeroUngroundedRate
        ++ declaredMin "min_generalist_review_pass_rate" generalistReviewPassRate
            gates.minGeneralistReviewPassRate
        ++ declaredMin "min_policyengine_pass_rate" policyenginePassRate
            gates.minPolicyenginePassRate
        ++ (gates.maxMeanEstimatedCostUsd.map fun threshold =>
            maxGate "max_mean_estimated_cost_usd" (meanEstimatedCostUsd.map .real)
              threshold.measure).toList)
  { totalCases, artifactCaseCount
    timeoutCount := results.countP fun result => result.timedOut
    successRate, compilePassRate, ciPassRate, zeroUngroundedRate, generalistReviewPassRate
    meanGeneralistReviewScore := roundedMean (artifacts.filterMap EvalArtifactMetrics.generalistReviewScore)
    policyengineCaseCount, policyenginePassRate
    meanPolicyengineScore := roundedMean (artifacts.filterMap EvalArtifactMetrics.policyengineScore)
    meanEstimatedCostUsd, gateResults
    ready := gateResults.all EvalReadinessGateResult.passed }

end AxiomEncode.Readiness
