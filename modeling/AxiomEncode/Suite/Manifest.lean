/-
# Suite.Manifest -- the runners and the cases of an eval suite

The runner specs of a suite manifest and the names of its cases, as
`load_eval_suite_manifest` accepts them.  The fields that no artifact path is made of are left
out with their checks, which refuse further manifests.  An error is its message.
-/
import AxiomEncode.Theory.Checks
import AxiomEncode.Theory.TypedYaml

namespace AxiomEncode.Suite

open Theory Theory.Typed Value

set_option autoImplicit false

abbrev Text := List Char

/-- The characters of `[a-zA-Z0-9._-]`. -/
def isNameChar (c : Char) : Bool := c.isAlphanum || c == '.' || c == '_' || c == '-'

/-- `re.sub(r"[^a-zA-Z0-9._-]+", "-", value)`, in a run of other characters or outside of one. -/
def hyphenateFrom : Bool → Text → Text
  | _, [] => []
  | inRun, c :: rest =>
    if isNameChar c then c :: hyphenateFrom false rest
    else if inRun then hyphenateFrom true rest
    else '-' :: hyphenateFrom true rest

def hyphenate (value : Text) : Text := hyphenateFrom false value

/-- `EvalRunnerSpec` -/
structure EvalRunnerSpec where
  name : Text
  backend : Text
  model : Text
  deriving DecidableEq

/-- `re.fullmatch(r"[A-Za-z0-9][A-Za-z0-9._-]*", name)`, which also keeps out `.` and `..`. -/
def isRunnerName : Text → Bool
  | [] => false
  | c :: rest => c.isAlphanum && rest.all isNameChar

def backends : List Text := ["claude".toList, "codex".toList, "openai".toList]

/-- `text.split(mark, 1)`, if the text has the mark. -/
def splitOnce (mark : Char) (text : Text) : Option (Text × Text) :=
  if mark ∈ text then some (text.takeWhile (· ≠ mark), (text.dropWhile (· ≠ mark)).tail) else none

def invalidSpec (spec : Text) : Text :=
  "Invalid runner spec '".toList ++ spec ++ "'. Expected canonical [name=]backend:model.".toList

/-- `[name=]`, and what follows it. -/
def splitAlias (spec : Text) : Except Text (Text × Text) :=
  match splitOnce '=' spec with
  | none => .ok ([], spec)
  | some (alias', target) =>
    if alias' = [] ∨ alias' ≠ strip alias' then .error (invalidSpec spec) else .ok (alias', target)

/-- `parse_runner_spec` -/
def parseRunnerSpec (spec : Text) : Except Text EvalRunnerSpec :=
  if spec = [] ∨ spec ≠ strip spec then .error (invalidSpec spec)
  else do
    let (alias', target) ← splitAlias spec
    match splitOnce ':' target with
    | none =>
      .error ("Invalid runner spec '".toList ++ spec ++ "'. Expected [name=]backend:model.".toList)
    | some (backend, model) =>
      if backend = [] ∨ model = [] ∨ backend ≠ strip backend ∨ model ≠ strip model
          ∨ model.any (fun c => isSpace c || c.toNat < 32) then .error (invalidSpec spec)
      else
        let name := if alias' = [] then hyphenate (backend ++ '-' :: model) else alias'
        if backend ∉ backends then
          .error ("Unsupported backend '".toList ++ backend ++ "' in runner spec '".toList ++ spec
            ++ "'".toList)
        else if !isRunnerName name then
          .error ("Unsafe runner name '".toList ++ name ++ "' in runner spec '".toList ++ spec
            ++ "'".toList)
        else .ok ⟨name, backend, model⟩

/-- `_expected_eval_suite_runners`, after the names that are seen. -/
def expectedEvalSuiteRunners : List Text → List EvalRunnerSpec → Except Text (List EvalRunnerSpec)
  | _, [] => .ok []
  | seen, runner :: runners =>
    if runner.name ∈ seen then
      .error ("Eval suite effective runner names must be unique; duplicate runner '".toList
        ++ runner.name ++ "'".toList)
    else do
      let expected ← expectedEvalSuiteRunners (runner.name :: seen) runners
      pure (runner :: expected)

/-- A text that is not empty and has no blank around it. -/
def canonicalText : Value → Option Text
  | .scalar (.text chars) => if chars = [] ∨ chars ≠ strip chars then none else some chars
  | _ => none

/-- The runners of a manifest. -/
def loadRunners (manifest : Members) : Except Text (List EvalRunnerSpec) :=
  let refused : Text := "Eval suite runners must be a nonempty list of canonical nonempty strings".toList
  match field manifest "runners" with
  | .seq items =>
    if items = [] then .error refused
    else
      match items.mapM canonicalText with
      | none => .error refused
      | some specs => do
        let runners ← specs.mapM parseRunnerSpec
        expectedEvalSuiteRunners [] runners
  | _ => .error refused

/-- `bool` of a value -/
def isTruthy : Value → Bool
  | .scalar .null => false
  | .scalar (.bool value) => value
  | .scalar (.int value) => value ≠ 0
  | .scalar (.float value) => value ≠ .finite 0 && value ≠ .negZero
  | .scalar (.text chars) => chars ≠ []
  | .scalar (.bytes octets) => octets ≠ []
  | .scalar (.date _) => true
  | .scalar (.time _ _ _) => true
  | .seq items => !items.isEmpty
  | .map members => !members.isEmpty
  | .set members => !members.isEmpty
  | .tuple _ _ => true

/-- A member that is there and is not a canonical text. -/
def isMalformed (item : Members) (name : String) : Bool :=
  (get? item name).any fun value => (canonicalText value).isNone

def caseTextFields : List String := ["citation", "corpus_citation_path", "policyengine_rule_hint", "oracle"]

/-- The name of the case at `index`. -/
def loadCaseName (index : Nat) (raw : Value) : Except Text Text :=
  let place : Text := "Eval suite case #".toList ++ (toString index).toList
  match raw with
  | .map item =>
    if isMalformed item "name" then
      .error (place ++ " name must be a canonical nonempty string".toList)
    else
      let named := [field item "name", field item "citation", field item "corpus_citation_path"]
      match (named.find? isTruthy).getD (.scalar (.text ("case-".toList ++ (toString index).toList))) with
      | .scalar (.text name) =>
        match caseTextFields.find? (isMalformed item) with
        | some fieldName =>
          .error (place ++ " field '".toList ++ fieldName.toList
            ++ "' must be a canonical nonempty string".toList)
        | none => .ok name
      | _ => .error (place ++ " identity must be a nonempty string".toList)
  | _ => .error (place ++ " must be a mapping".toList)

/-- The names of the cases, the first at `index`. -/
def loadCaseNames : Nat → List Value → Except Text (List Text)
  | _, [] => .ok []
  | index, raw :: raws => do
    let name ← loadCaseName index raw
    let names ← loadCaseNames (index + 1) raws
    pure (name :: names)

/-- `EvalSuiteManifest`, as far as artifacts are named after it. -/
structure EvalSuite where
  runners : List EvalRunnerSpec
  cases : List Text
  deriving DecidableEq

/-- `load_eval_suite_manifest` -/
def loadEvalSuiteManifest (path : Text) (document : Value) : Except Text EvalSuite :=
  match document with
  | .scalar .null => .error "Eval suite runners must be a nonempty list of canonical nonempty strings".toList
  | .map manifest => do
    let runners ← loadRunners manifest
    match field manifest "cases" with
    | .seq [] => .error ("Eval suite manifest has no cases: ".toList ++ path)
    | .seq raws => do
      let cases ← loadCaseNames 1 raws
      pure ⟨runners, cases⟩
    | _ => .error ("Eval suite manifest has no cases: ".toList ++ path)
  | _ => .error ("Eval suite manifest must be a mapping: ".toList ++ path)

/-! ## What is accepted -/

/-- A suite with cases whose runner names are safe and distinct. -/
structure EvalSuite.Accepted (suite : EvalSuite) : Prop where
  named : ∀ runner ∈ suite.runners, isRunnerName runner.name = true
  distinct : (suite.runners.map EvalRunnerSpec.name).Nodup
  cases : suite.cases ≠ []

section Accepted

variable {spec : Text} {seen : List Text} {runner : EvalRunnerSpec}
  {runners expected : List EvalRunnerSpec} {path : Text} {document : Value} {suite : EvalSuite}

theorem isRunnerName_of_parse (parsed : parseRunnerSpec spec = .ok runner) :
    isRunnerName runner.name = true := by
  rw [parseRunnerSpec] at parsed
  split_ifs at parsed
  obtain ⟨⟨alias', target⟩, -, parsed⟩ := bind_eq_ok_iff.mp parsed
  dsimp only at parsed
  split at parsed
  · cases parsed
  · split_ifs at parsed with malformed supported bare safe safe
    · cases parsed
      simpa [bare] using safe
    · cases parsed
      simpa [bare] using safe

theorem expected_spec : ∀ {runners : List EvalRunnerSpec} {seen : List Text} {expected : List EvalRunnerSpec},
    expectedEvalSuiteRunners seen runners = .ok expected →
      expected = runners ∧ (runners.map EvalRunnerSpec.name).Nodup
        ∧ ∀ runner ∈ runners, runner.name ∉ seen
  | [], _, _, checked => by
    cases checked
    exact ⟨rfl, List.nodup_nil, by simp⟩
  | runner :: runners, seen, expected, checked => by
    rw [expectedEvalSuiteRunners] at checked
    split_ifs at checked with isSeen
    obtain ⟨rest, isRest, same⟩ := bind_eq_ok_iff.mp checked
    cases same
    obtain ⟨rfl, distinct, fresh⟩ := expected_spec isRest
    refine ⟨rfl, ?_, ?_⟩
    · rw [List.map_cons, List.nodup_cons]
      refine ⟨?_, distinct⟩
      intro repeated
      obtain ⟨other, isOther, same⟩ := List.mem_map.mp repeated
      exact fresh other isOther (by rw [same]; exact List.mem_cons_self)
    · rw [List.forall_mem_cons]
      exact ⟨isSeen, fun other isOther inSeen => fresh other isOther (List.mem_cons_of_mem _ inSeen)⟩

theorem loadRunners_spec {manifest : Members} (loaded : loadRunners manifest = .ok runners) :
    (∀ runner ∈ runners, isRunnerName runner.name = true)
      ∧ (runners.map EvalRunnerSpec.name).Nodup := by
  rw [loadRunners] at loaded
  split at loaded
  swap
  · cases loaded
  next items _ =>
  by_cases empty : items = []
  · rw [if_pos empty] at loaded
    cases loaded
  rw [if_neg empty] at loaded
  split at loaded
  · cases loaded
  next specs isSpecs =>
  obtain ⟨parsed, isParsed, checked⟩ := bind_eq_ok_iff.mp loaded
  obtain ⟨rfl, distinct, -⟩ := expected_spec checked
  refine ⟨fun runner isRunner => ?_, distinct⟩
  obtain ⟨spec, -, isSpec⟩ := (mapM_answers isParsed).2 runner isRunner
  exact isRunnerName_of_parse isSpec

/-- **What the loader accepts has safe, distinct runner names.** -/
theorem accepted_of_load (loaded : loadEvalSuiteManifest path document = .ok suite) :
    suite.Accepted := by
  unfold loadEvalSuiteManifest at loaded
  split at loaded
  · cases loaded
  · obtain ⟨runners, isRunners, loaded⟩ := bind_eq_ok_iff.mp loaded
    obtain ⟨named, distinct⟩ := loadRunners_spec isRunners
    split at loaded
    · cases loaded
    · next raws nonempty _ =>
        obtain ⟨names, isNames, same⟩ := bind_eq_ok_iff.mp loaded
        cases same
        refine ⟨named, distinct, ?_⟩
        rintro rfl
        rcases raws with _ | ⟨raw, raws⟩
        · exact nonempty rfl
        · obtain ⟨name, -, isNames⟩ := bind_eq_ok_iff.mp isNames
          obtain ⟨rest, -, same⟩ := bind_eq_ok_iff.mp isNames
          cases same
    · cases loaded
  · cases loaded

end Accepted

end AxiomEncode.Suite
