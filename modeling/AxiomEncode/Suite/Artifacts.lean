/-
# Suite.Artifacts -- where the results of a suite lie

The roots that a runner owns in a case, the path of its signed verdict, and the checks that
every result keeps to them.  An artifact path is given by the names on it.
-/
import AxiomEncode.Suite.Manifest
import AxiomEncode.Theory.PurePath

namespace AxiomEncode.Suite

open Theory

set_option autoImplicit false

/-- `_slugify` -/
def slugify (value : Text) : Text :=
  let slug := stripChars (· == '-') (hyphenate value)
  if slug = [] then "eval".toList else slug

/-- A case of a suite and a runner. -/
structure Slot where
  caseIndex : Nat
  caseName : Text
  runner : Text
  deriving DecidableEq

/-- The cases from `index` on, each with every runner. -/
def slotsFrom (runners : List Text) : Nat → List Text → List Slot
  | _, [] => []
  | index, caseName :: cases =>
    runners.map (fun runner => ⟨index, caseName, runner⟩) ++ slotsFrom runners (index + 1) cases

def EvalSuite.slots (suite : EvalSuite) : List Slot :=
  slotsFrom (suite.runners.map EvalRunnerSpec.name) 1 suite.cases

/-- The artifacts of a result that its runner owns. -/
inductive Role where
  | output | trace | context
  deriving DecidableEq

def Role.fieldName : Role → Text
  | .output => "output_file".toList
  | .trace => "trace_file".toList
  | .context => "context_manifest_file".toList

def roles : List Role := [.output, .trace, .context]

section Paths

variable (outputRoot : PurePath)

/-- `case_root` -/
def caseRoot (caseIndex : Nat) (caseName : Text) : PurePath :=
  outputRoot.abspath.join (Date.padded 2 caseIndex ++ '-' :: slugify caseName)

/-- `owned_roots` -/
def ownedRoot (slot : Slot) : Role → PurePath
  | .output => (caseRoot outputRoot slot.caseIndex slot.caseName).join slot.runner
  | .trace => ((caseRoot outputRoot slot.caseIndex slot.caseName).join "traces".toList).join slot.runner
  | .context =>
    ((caseRoot outputRoot slot.caseIndex slot.caseName).join "_eval_workspaces".toList).join slot.runner

/-- The path of `_render_eval_result_verdict_evidence`. -/
def verdictPath (slot : Slot) : PurePath :=
  ((outputRoot.join "verdicts".toList).join
    (Date.padded 4 slot.caseIndex ++ '-' :: slugify slot.caseName)).join
      (slugify slot.runner ++ ".json".toList)

end Paths

/-! ## Ownership -/

/-- `EvalResult`, as far as its artifacts are checked; a path that is not recorded is none. -/
structure EvalResult where
  runner : Text
  artifact : Role → Option PurePath
  verdictFile : PurePath

def shownPath (path : PurePath) : Text := '/' :: ['/'].intercalate path

section Checks

variable (outputRoot : PurePath) (caseIndex : Nat) (caseName : Text)

/-- The artifacts of these roles, after the paths that are seen. -/
def validateRoles (result : EvalResult) : List Role → List PurePath → Except Text (List PurePath)
  | [], seen => .ok seen
  | role :: rest, seen =>
    match result.artifact role with
    | none => validateRoles result rest seen
    | some rawPath =>
      let artifactPath := rawPath.abspath
      if !(ownedRoot outputRoot ⟨caseIndex, caseName, result.runner⟩ role).isPrefixOf artifactPath then
        .error ("Eval suite result for case '".toList ++ caseName ++ "' runner '".toList
          ++ result.runner ++ "' uses ".toList ++ role.fieldName
          ++ " outside its runner-owned artifact directory".toList)
      else if artifactPath ∈ seen then
        .error ("Eval suite result for case '".toList ++ caseName ++ "' reuses artifact path ".toList
          ++ shownPath artifactPath ++ " across runners or artifact roles".toList)
      else validateRoles result rest (artifactPath :: seen)

/-- `_validate_eval_suite_result_generation_artifact_ownership` -/
def validateGenerationOwnership (result : EvalResult) (seen : List PurePath) :
    Except Text (List PurePath) :=
  validateRoles outputRoot caseIndex caseName result roles seen

/-- `_validate_eval_suite_result_verdict_artifact_ownership` -/
def validateVerdictOwnership (result : EvalResult) (seen : List PurePath) :
    Except Text (List PurePath) :=
  let path := result.verdictFile.abspath
  if path ≠ verdictPath outputRoot.abspath ⟨caseIndex, caseName, result.runner⟩ then
    .error ("Eval suite result for case '".toList ++ caseName ++ "' runner '".toList ++ result.runner
      ++ "' uses a non-canonical verdict artifact path".toList)
  else if path ∈ seen then
    .error ("Eval suite result for case '".toList ++ caseName ++ "' reuses verdict artifact path ".toList
      ++ shownPath path)
  else .ok (path :: seen)

/-- `_validate_eval_suite_result_artifact_ownership` of the results of a case, one after the other. -/
def validateOwnership : List EvalResult → List PurePath → Except Text (List PurePath)
  | [], seen => .ok seen
  | result :: results, seen => do
    let seen ← validateGenerationOwnership outputRoot caseIndex caseName result seen
    let seen ← validateVerdictOwnership outputRoot caseIndex caseName result seen
    validateOwnership results seen

end Checks

end AxiomEncode.Suite
