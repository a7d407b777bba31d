/-
# Cascade.Apply -- applying a cascade, and taking it back

`applyProofHashCascade` writes a report that says what is about to happen, replaces the
importers one by one, plans again and completes the report.  Whatever is raised after the
first report is there puts the importers back that may have been replaced.
-/
import AxiomEncode.Cascade.Plan

namespace AxiomEncode.Cascade

open Theory Crash

set_option autoImplicit false

def migrationsDirectory : Text := ".axiom/migrations".toList

/-- Where the report goes, as the checkout resolves it. -/
structure ReportPath where
  parent : Text
  name : Text

def ReportPath.path (report : ReportPath) : Text := joinPath report.parent report.name

/-- `_validate_report_path` -/
def validateReportPath (report : ReportPath) (disk : Disk) : Except CascadeError Unit := do
  check (report.parent = migrationsDirectory)
    "report must be written directly under .axiom/migrations".toList
  check (".json".toList.isSuffixOf report.name && 5 < report.name.length)
    "report path must end in .json".toList
  check (!report.name.contains '/') "report must be written directly under .axiom/migrations".toList
  check (!disk.holds report.path) "report path must not already exist".toList

/-- `_read_regular_worktree_file` -/
def readRegularWorktreeFile (path : Text) (label : String) (disk : Disk) :
    Except CascadeError Bytes :=
  match disk.file path with
  | some file => .ok file.raw
  | none =>
    if disk.isDirectory path then
      .error (.value (label.toList ++ " must be a regular file: ".toList ++ path))
    else .error (.value (label.toList ++ " does not exist: ".toList ++ path))

/-- `stat.S_IMODE(path.stat(follow_symlinks=False).st_mode)` -/
def statMode (path : Text) (disk : Disk) : Except CascadeError Nat :=
  match disk.file path with
  | some file => .ok file.mode
  | none => .error (.os "FileNotFoundError" path)

/-! ## Writing -/

/-- `path.unlink(missing_ok=True)` -/
def unlinkMissingOk (path : Text) : Run Unit :=
  Prog.tryCatch (step (.unlink path)) fun
    | .os "FileNotFoundError" _ => pure ()
    | error => Prog.raise error

/-- What is done with a temporary file. -/
def replaceWith (path : Text) (content : Bytes) (mode : Nat) (temporary : Text) : Run Unit := do
  step (.chmod temporary mode)
  step (.writeSome .temporary temporary content)
  step (.write .temporary temporary content)
  step (.fsync .temporary temporary)
  step (.replace temporary path)
  step (.fsyncDirectory .replaced (parentOf path))

/-- `_atomic_replace_bytes` -/
def atomicReplaceBytes (path : Text) (content : Bytes) (mode : Nat) : Run Unit := do
  let temporary ← Prog.perform (.mkstemp path)
  Prog.tryFinally (replaceWith path content mode temporary.made) (unlinkMissingOk temporary.made)

/-- `_write_json_exclusive` -/
def writeJsonExclusive (path : Text) (content : Bytes) : Run Unit := do
  step (.create path 0o644)
  step (.writeSome .created path content)
  step (.write .created path content)
  step (.fsync .created path)
  step (.fsyncDirectory .created (parentOf path))

def CascadeError.isOs : CascadeError → Bool
  | .os _ _ | .injected => true
  | _ => false

/-- `_remove_empty_directories`: up to the first that cannot be removed. -/
def removeEmptyDirectories : List Text → Run Unit
  | [] => pure ()
  | directory :: rest => do
    let removed ← attempt do
      step (.rmdir directory)
      step (.fsyncDirectory .removed (parentOf directory))
    match removed with
    | .ok () => removeEmptyDirectories rest
    | .error error => if error.isOs then pure () else Prog.raise error

/-- The directories to make, each with what was made before it, latest first. -/
def makeDirectories (created : List Text) : List Text → Run (List Text)
  | [] => pure created
  | directory :: rest => do
    match ← attempt (step (.mkdir directory)) with
    | .error error => do
      removeEmptyDirectories created
      Prog.raise error
    | .ok () => do
      match ← attempt (step (.fsyncDirectory .made (parentOf directory))) with
      | .error error => do
        removeEmptyDirectories (directory :: created)
        Prog.raise error
      | .ok () => makeDirectories (directory :: created) rest

/-- The missing directories on the way up, deepest first. -/
def missingDirectories (disk : Disk) (directories : List Text) : List Text :=
  directories.takeWhile fun directory => !disk.holds directory

/-- `_create_report_parent`: what was made, deepest first. -/
def createReportParent (report : ReportPath) : Run (List Text) := do
  let missing ← reading "report directory" fun disk =>
    .ok (missingDirectories disk [report.parent, parentOf report.parent])
  makeDirectories [] missing.reverse

/-! ## The cascade -/

section

variable (host : Host) (plan : CascadePlan)

/-- Read the importers, in order, with what they are rewritten to. -/
def planUpdates : List Text → Run (List Update)
  | [] => pure []
  | path :: rest => do
    let update ← reading "importer" fun disk => do
      let original ← readRegularWorktreeFile path "importer" disk
      let updated ← updatedImporter host plan path original
      pure ⟨path, original, updated, (plan.itemsOf path).length⟩
    let later ← planUpdates rest
    pure (update :: later)

/-- The target of an occurrence is as it was planned. -/
def verifyTarget (item : HashOccurrence) (disk : Disk) : Except CascadeError Unit := do
  let raw ← readRegularWorktreeFile item.targetPath "proof import target" disk
  check (item.currentTargetHash = some ("sha256:".toList ++ host.sha256 raw))
    ("planned target bytes changed before apply: ".toList ++ item.targetPath)

/-- Replace the importers; the paths that may have been replaced, latest first. -/
def installFiles (written : List Update) :
    List Update → Run (List Update × Except CascadeError Unit)
  | [] => pure (written, .ok ())
  | update :: rest => do
    match ← attempt (reading "stat" (statMode update.path)) with
    | .error error => pure (written, .error error)
    | .ok mode => do
      match ← attempt (atomicReplaceBytes update.path update.updated mode) with
      | .error error => pure (update :: written, .error error)
      | .ok () => installFiles (update :: written) rest

/-- What the set of ignored mismatches is compared by. -/
def ignoredIdentity (plan : CascadePlan) : List (Text × Int × Text × OccurrenceStatus) :=
  plan.ignored.map fun item => (item.importerPath, item.line, item.targetPath, item.status)

/-- Plan again over what was written. -/
def verifyApplied (updates : List Update) (disk : Disk) : Except CascadeError Unit := do
  let expected := updates.map fun update => (update.path, update.updated)
  let after ← host.buildPlan plan.baseCommit expected disk
  check after.eligible.isEmpty
    "proof hash cascade left eligible migration-induced hashes".toList
  check ((ignoredIdentity after).all (ignoredIdentity plan).contains &&
      (ignoredIdentity plan).all (ignoredIdentity after).contains)
    "proof hash cascade changed the ignored mismatch set".toList

/-- What follows the replacements. -/
def finishCascade (report : ReportPath) (updates : List Update) : Run Unit := do
  reading "plan" (verifyApplied host plan updates)
  atomicReplaceBytes report.path (jsonBytes (reportPayload host plan updates "complete")) 0o644

/-- Put the importers back; what could not be put back. -/
def restoreFiles : List Update → Run (List Text)
  | [] => pure []
  | update :: rest => do
    let restored ← attempt do
      let mode ← reading "stat" (statMode update.path)
      atomicReplaceBytes update.path update.original mode
    let later ← restoreFiles rest
    match restored with
    | .ok () => pure later
    | .error error => pure ((update.path ++ ": ".toList ++ host.describe error) :: later)

/-- The handler: put everything back, say so in the report, and raise. -/
def rollBack (report : ReportPath) (updates written : List Update) (failure : CascadeError) :
    Run Record := do
  let failures ← restoreFiles host written
  let reported ← attempt (atomicReplaceBytes report.path
    (jsonBytes (rollbackPayload host plan updates failure failures)) 0o644)
  match failures, reported with
  | [], .ok () => Prog.raise failure
  | failures, reported =>
    let reportFailure :=
      match reported with
      | .ok () => []
      | .error error => ["audit report: ".toList ++ host.describe error]
    Prog.raise (.rollbackFailed ("; ".toList.intercalate (failures ++ reportFailure)))

/-- The body of the `try`, with its handler. -/
def applyUpdates (report : ReportPath) (updates : List Update) : Run Record := do
  let (written, installed) ← installFiles [] updates
  match installed with
  | .error failure => rollBack host plan report updates written failure
  | .ok () => do
    match ← attempt (finishCascade host plan report updates) with
    | .error failure => rollBack host plan report updates written failure
    | .ok () => pure (reportPayload host plan updates "complete")

/-- What is checked before anything is written. -/
def prepareUpdates (report : ReportPath) : Run (List Update) := do
  reading "git rev-parse" fun _ => do
    let head ← host.gitHead
    check (head = plan.headCommit) "proof hash cascade plan HEAD changed before apply".toList
  reading "git status" fun _ => do
    let status ← host.gitStatus
    check status.isEmpty "proof hash cascade apply requires a clean Git checkout".toList
  reading "report path" (validateReportPath report)
  let updates ← planUpdates host plan plan.importers
  Prog.forEach plan.eligible fun item => reading "target" (verifyTarget host item)
  pure updates

/-- `apply_proof_hash_cascade` -/
def applyProofHashCascade (report : ReportPath) : Run Record := do
  let updates ← prepareUpdates host plan report
  let created ← createReportParent report
  match ← attempt (writeJsonExclusive report.path
      (jsonBytes (reportPayload host plan updates "prepared"))) with
  | .error error => do
    removeEmptyDirectories created
    Prog.raise error
  | .ok () => applyUpdates host plan report updates

end

end AxiomEncode.Cascade
