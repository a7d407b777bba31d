/-
# Cascade.Plan -- the hash scalars a cascade replaces, and its report

An occurrence is one hash scalar of one importer, by the place of the scalar in the
importer's text.  `updatedImporter` is what the importer is rewritten to: its eligible
occurrences, the last one first, so that the places before stay where they are.
-/
import AxiomEncode.Cascade.Disk
import AxiomEncode.Theory.Checks
import AxiomEncode.Theory.JsonCanonical

namespace AxiomEncode.Cascade

open Theory

set_option autoImplicit false

/-- A JSON object. -/
abbrev Record := List (Text × Json)

def reportSchema : String := "axiom-encode/proof-hash-cascade/v1"

/-- `if not condition: raise ValueError(message)` -/
def check (condition : Bool) (message : Text) : Except CascadeError Unit :=
  require condition (.value message)

inductive OccurrenceStatus where
  | eligible
  | preexistingMismatch
  | baseTargetMissing
  | currentTargetMissing
  deriving DecidableEq

def OccurrenceStatus.text : OccurrenceStatus → String
  | .eligible => "eligible"
  | .preexistingMismatch => "preexisting_mismatch"
  | .baseTargetMissing => "base_target_missing"
  | .currentTargetMissing => "current_target_missing"

structure HashOccurrence where
  importerPath : Text
  target : Text
  targetPath : Text
  line : Int
  declaredHash : Text
  baseTargetHash : Option Text
  currentTargetHash : Option Text
  replacementHash : Option Text
  status : OccurrenceStatus
  startIndex : Nat
  endIndex : Nat
  scalarStyle : Option Char
  deriving DecidableEq

structure CascadePlan where
  baseCommit : Text
  headCommit : Text
  occurrences : List HashOccurrence
  importerSha256 : List (Text × Text)
  deriving DecidableEq

def CascadePlan.eligible (plan : CascadePlan) : List HashOccurrence :=
  plan.occurrences.filter fun item => item.status = .eligible

def CascadePlan.ignored (plan : CascadePlan) : List HashOccurrence :=
  plan.occurrences.filter fun item => item.status ≠ .eligible

/-- `sorted(grouped)`: the importers of eligible occurrences. -/
def CascadePlan.importers (plan : CascadePlan) : List Text :=
  (plan.eligible.map HashOccurrence.importerPath).dedup.insertionSort (· ≤ ·)

/-! ## Rewriting a text -/

/-- `_render_scalar` -/
def renderScalar (value : Text) (style : Option Char) : Except CascadeError Text :=
  match style with
  | none => .ok value
  | some '\'' => .ok ('\'' :: (value.flatMap fun c => if c = '\'' then ['\'', '\''] else [c]) ++ ['\''])
  | some '"' => .ok (Json.printString value)
  | some style =>
    .error (.value ("unsupported proof hash scalar style: '".toList ++ [style, '\'']))

/-- `text[:start] + rendered + text[end:]` -/
def spliceText (text : Text) (start stop : Nat) (rendered : Text) : Text :=
  text.take start ++ rendered ++ text.drop stop

/-- One turn of the loop over the occurrences of an importer. -/
def replaceOccurrence (text : Text) (item : HashOccurrence) : Except CascadeError Text :=
  match item.replacementHash with
  | none =>
    .error (.value ("eligible target unexpectedly has no replacement hash: ".toList ++
      item.targetPath))
  | some hash => do
    let replacement ← renderScalar hash item.scalarStyle
    pure (spliceText text item.startIndex item.endIndex replacement)

/-- `sorted(items, key=lambda value: value.start_index, reverse=True)` -/
def lastFirst (items : List HashOccurrence) : List HashOccurrence :=
  items.insertionSort fun a b => b.startIndex ≤ a.startIndex

def CascadePlan.itemsOf (plan : CascadePlan) (path : Text) : List HashOccurrence :=
  plan.eligible.filter fun item => item.importerPath = path

structure Host where
  /-- `hashlib.sha256(raw).hexdigest()` -/
  sha256 : Bytes → Text
  /-- `f"{type(exc).__name__}: {exc}"` -/
  describe : CascadeError → Text
  /-- `git rev-parse --verify HEAD^{commit}` -/
  gitHead : Except CascadeError Text
  /-- `git status --porcelain` -/
  gitStatus : Except CascadeError Text
  /-- `build_proof_hash_cascade_plan`, given the base commit and the bytes it expects. -/
  buildPlan : Text → List (Text × Bytes) → Disk → Except CascadeError CascadePlan

/-- An importer with the bytes it has and those it is given. -/
structure Update where
  path : Text
  original : Bytes
  updated : Bytes
  count : Nat

section

variable (host : Host) (plan : CascadePlan)

/-- What an importer of the plan is rewritten to. -/
def updatedImporter (path : Text) (original : Bytes) : Except CascadeError Bytes := do
  let planned := plan.importerSha256.reverse.lookup path
  check (planned = some (host.sha256 original))
    ("planned importer bytes changed before apply: ".toList ++ path)
  match decodeUtf8 original with
  | none => .error (.value "UnicodeDecodeError".toList)
  | some text => do
    let updated ← (lastFirst (plan.itemsOf path)).foldlM replaceOccurrence text
    check (updated ≠ text)
      ("eligible proof hash cascade produced no change: ".toList ++ path)
    pure (utf8 updated)

/-! ## The report -/

def str (text : String) : Json := .str text.toList

def optionalText (text : Option Text) : Json := (text.map Json.str).getD .null

/-- `public_record` -/
def HashOccurrence.publicRecord (item : HashOccurrence) : Record :=
  [("importer_path".toList, .str item.importerPath), ("target".toList, .str item.target),
    ("target_path".toList, .str item.targetPath), ("line".toList, .int item.line),
    ("declared_hash".toList, .str item.declaredHash),
    ("base_target_hash".toList, optionalText item.baseTargetHash),
    ("current_target_hash".toList, optionalText item.currentTargetHash),
    ("replacement_hash".toList, optionalText item.replacementHash),
    ("status".toList, str item.status.text)]

def appliedFile (update : Update) : Json :=
  .obj [("path".toList, .str update.path),
    ("before_sha256".toList, .str (host.sha256 update.original)),
    ("after_sha256".toList, .str (host.sha256 update.updated)),
    ("replacements".toList, .int update.count)]

/-- The report, without what a rollback adds to it. -/
def reportPayload (updates : List Update) (status : String) : Record :=
  [("schema".toList, str reportSchema), ("status".toList, str status),
    ("base_commit".toList, .str plan.baseCommit),
    ("head_commit_before_apply".toList, .str plan.headCommit),
    ("eligible_replacements".toList, .int plan.eligible.length),
    ("ignored_mismatches".toList, .int plan.ignored.length),
    ("applied_files".toList, .arr (updates.map (appliedFile host))),
    ("replacements".toList, .arr (plan.eligible.map fun item => .obj item.publicRecord)),
    ("ignored".toList, .arr (plan.ignored.map fun item => .obj item.publicRecord))]

def rollbackPayload (updates : List Update) (failure : CascadeError) (failures : List Text) :
    Record :=
  reportPayload host plan updates (if failures.isEmpty then "rolled_back" else "rollback_failed") ++
    [("failure".toList, .str (host.describe failure)),
      ("rollback_failures".toList, .arr (failures.map Json.str))]

/-- `_json_bytes` -/
def jsonBytes (payload : Record) : Bytes :=
  utf8 (Json.dumps (Json.sortKeys (.obj payload)) ++ ['\n'])

end

end AxiomEncode.Cascade
