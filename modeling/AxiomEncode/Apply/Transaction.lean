/-
# Apply.Transaction -- installing a set of files, and recovering a killed install

The programs of the transaction over the steps of `fileMachine`.  Calls that only
read are functions of the tree (`reading`): between two writes nobody changes it.
-/
import AxiomEncode.Apply.Journal
import Mathlib.Data.Char
import Mathlib.Data.List.Lex

namespace AxiomEncode.Apply

open Theory Crash

set_option autoImplicit false

abbrev Run (α : Type) := Prog fileMachine α

def step (op : FileOp) : Run Unit := Prog.bind (Prog.perform op) fun _ => Prog.pure ()

/-- Call a function that reads. -/
def reading {α : Type} (what : String) (read : Checkout → Except ApplyError α) : Run α :=
  Prog.bind (Prog.perform (.inspect what)) fun res =>
    match read res.seen with
    | .ok value => Prog.pure value
    | .error error => Prog.raise error

def transactionDirectory : Path := [".axiom".toList, ".apply-transaction".toList]
def journalPath : Path := transactionDirectory ++ ["journal.json".toList]
def backupsDirectory : Path := transactionDirectory ++ ["backups".toList]

/-! ## Reading the tree -/

def isPrivate (mode : Nat) : Bool := mode &&& 0o077 == 0

def requirePrivateOwnedDirectory (path : Path) (label : String) (checkout : Checkout) :
    Except ApplyError Unit :=
  match checkout.lookup path with
  | .error _ | .ok none => .error (.runtime (label ++ " is unavailable") path)
  | .ok (some (.file _ _)) => .error (.runtime (label ++ " is not a regular directory") path)
  | .ok (some (.directory mode)) =>
    require (isPrivate mode)
      (.runtime (label ++ " must not be accessible by group or other") path)

def readBoundedNofollowRegularFile (path : Path) (label : String) (maxBytes : Nat)
    (requirePrivate : Bool) (checkout : Checkout) : Except ApplyError (Bytes × Nat) :=
  match checkout.node path with
  | none => .error (.runtime (label ++ " cannot be opened safely") path)
  | some (.directory _) => .error (.runtime (label ++ " is not a regular file") path)
  | some (.file raw mode) => do
    require (!requirePrivate || isPrivate mode)
      (.runtime (label ++ " must not be accessible by group or other") path)
    require (raw.length ≤ maxBytes) (.runtime (label ++ " exceeds the byte safety limit") path)
    pure (raw, mode)

structure Snapshot where
  raw : Bytes
  digest : Text
  mode : Nat
  deriving DecidableEq

section Tree

variable (host : Host)

def applyTransactionFileSnapshot (path : Path) (checkout : Checkout) :
    Except ApplyError (Option Snapshot) :=
  match checkout.lookup path with
  | .error _ => .error (.runtime "Cannot inspect apply transaction target" path)
  | .ok none => .ok none
  | .ok (some _) => do
    let (raw, mode) ← readBoundedNofollowRegularFile path "Apply transaction target"
      maxApplyTransactionFileBytes false checkout
    require (mode ≤ 0o777)
      (.runtime "Apply transaction target has unsupported special mode bits" path)
    pure (some { raw, digest := host.sha256 raw, mode })

def snapshotMatches (snapshot : Option Snapshot) (digest : Option Text) (mode : Nat) : Bool :=
  match digest with
  | none => snapshot.isNone
  | some digest => snapshot.any fun found => found.digest == digest && found.mode == mode

def ensureSafeApplyTarget (target : Path) (checkout : Checkout) : Except ApplyError Unit :=
  require (!(checkout.node target).any Node.isDirectory)
    (.runtime "Apply target is not a regular file" target)

def readApplyTransactionBackup (entry : Entry) (checkout : Checkout) : Except ApplyError Bytes := do
  let path := backupsDirectory ++ [entry.backup.getD "None".toList]
  let (raw, _) ← readBoundedNofollowRegularFile path "Apply transaction backup"
    maxApplyTransactionFileBytes true checkout
  require (some (host.sha256 raw) == entry.oldSha256)
    (.runtime "Apply transaction backup is corrupt" path)
  pure raw

def loadApplyTransactionJournal (checkout : Checkout) : Except ApplyError Journal := do
  let (raw, _) ← readBoundedNofollowRegularFile journalPath "Apply transaction journal"
    maxApplyTransactionJournalBytes true checkout
  readJournal host checkout raw

/-- The missing directories on the way up, deepest first. -/
def missingFrom (complaint : String) (checkout : Checkout) (names : List Text) :
    Except ApplyError (List Path) :=
  match names with
  | [] => .ok []
  | name :: parents =>
    let path := (name :: parents).reverse
    match checkout.lookup path with
    | .error error => .error error
    | .ok none => (missingFrom complaint checkout parents).map (path :: ·)
    | .ok (some (.directory _)) => .ok []
    | .ok (some (.file _ _)) => .error (.runtime complaint path)

def missingDirectories (complaint : String) (directory : Path) (checkout : Checkout) :
    Except ApplyError (List Path) :=
  missingFrom complaint checkout directory.reverse

/-- `key=lambda item: (len(item.parts), item.as_posix())` -/
def shallowPath (a b : Path) : Bool :=
  a.length < b.length || (a.length == b.length && decide (posix a ≤ posix b))

/-- The absent parent directories that successful writes need. -/
def plannedApplyTransactionDirectories (files : List (Path × Option Bytes))
    (checkout : Checkout) : Except ApplyError (List Path) := do
  let missing ← files.mapM fun file =>
    match file.2 with
    | none => .ok []
    | some _ =>
      missingDirectories "Apply target path contains a non-directory" file.1.dropLast checkout
  let planned := missing.flatten.dedup
  require (planned.length ≤ maxApplyTransactionDirectories)
    (.runtime "RuleSpec apply transaction creates too many directories" none)
  pure (planned.mergeSort shallowPath)

end Tree

/-! ## Writing -/

def fsyncDirectory (path : Path) : Run Unit := step (.fsyncDirectory path)

/-- Make one missing directory; one that appeared meanwhile will do. -/
def ensureDirectory (mode : Nat) (candidate : Path) : Run Unit := do
  let created ← Prog.tryCatch
    (do
      step (.mkdir candidate mode)
      pure true)
    fun
      | .os .fileExists _ => do
        reading "candidate" fun checkout =>
          require (checkout.isDirectory candidate)
            (.runtime "Directory path changed while it was being created" candidate)
        pure false
      | error => Prog.raise error
  if created then fsyncDirectory candidate.dropLast

def ensureDurableDirectory (directory : Path) (mode : Nat) : Run Unit := do
  let missing ← reading "ancestors"
    (missingDirectories "Directory path contains a non-directory" directory)
  Prog.forEach missing.reverse (ensureDirectory mode)

/-- `path.unlink(missing_ok=True)` -/
def unlinkMissingOk (path : Path) : Run Unit :=
  Prog.tryCatch (step (.unlink path)) fun
    | .os .fileNotFound _ => pure ()
    | error => Prog.raise error

def atomicReplaceBytes (target : Path) (raw : Bytes) (mode : Nat) : Run Unit := do
  ensureDurableDirectory target.dropLast 0o755
  let temporary ← Prog.perform
    (.mkstemp target.dropLast ('.' :: fileName target ++ ".apply-".toList))
  Prog.tryFinally
    (do
      step (.writeSome temporary.made raw)
      step (.write temporary.made raw)
      step (.chmod temporary.made mode)
      step (.fsync temporary.made)
      step (.replace temporary.made target)
      fsyncDirectory target.dropLast)
    (unlinkMissingOk temporary.made)

def createPlannedDirectory (directory : Path) : Run Unit := do
  reading "planned directory" fun checkout => do
    require (checkout.node directory).isNone
      (.runtime "Apply target directory changed after validation" directory)
    require (checkout.isDirectory directory.dropLast)
      (.runtime "Apply target directory parent is unsafe" directory.dropLast)
  step (.mkdir directory 0o755)
  fsyncDirectory directory.dropLast

def createPlannedApplyTransactionDirectories (directories : List Text) : Run Unit :=
  Prog.forEach directories fun directory => createPlannedDirectory (pathParts directory)

def removePlannedDirectory (directory : Path) : Run Unit := do
  let found ← reading "planned directory" fun checkout =>
    match checkout.node directory with
    | none => .ok false
    | some (.directory _) => .ok true
    | some (.file _ _) =>
      .error (.runtime "Cannot clean non-directory apply transaction path" directory)
  if found then
    Prog.tryCatch (step (.rmdir directory)) fun
      | .os _ _ =>
        Prog.raise (.runtime "Cannot clean non-empty apply transaction directory" directory)
      | error => Prog.raise error
    fsyncDirectory directory.dropLast

def removePlannedApplyTransactionDirectories (directories : List Text) : Run Unit :=
  Prog.forEach directories.reverse fun directory => removePlannedDirectory (pathParts directory)

def writeApplyTransactionJournal (journal : Journal) : Run Unit :=
  atomicReplaceBytes journalPath journal.bytes 0o600

/-- `shutil.rmtree` -/
def removeTree (root : Path) : Run Unit := do
  let count ← reading "listing" fun checkout => .ok (checkout.below root).length
  Prog.forEach (List.range count) fun _ => step (.removeBelow root)

def removeApplyTransactionDirectory : Run Unit := do
  reading "transaction directory"
    (requirePrivateOwnedDirectory transactionDirectory "Apply transaction directory")
  removeTree transactionDirectory
  fsyncDirectory transactionDirectory.dropLast

/-! ## Recovery -/

section

variable (host : Host)

/-- Every target of a committed journal is as the journal says. -/
def checkTargets (state : Entry → Option Text) (complaint : String) :
    List Entry → Checkout → Except ApplyError Unit
  | [], _ => .ok ()
  | entry :: entries, checkout => do
    let target := pathParts entry.path
    ensureSafeApplyTarget target checkout
    let current ← applyTransactionFileSnapshot host target checkout
    require (snapshotMatches current (state entry) entry.mode) (.runtime complaint target)
    checkTargets state complaint entries checkout

structure PendingAction where
  entry : Entry
  current : Option Snapshot
  raw : Option Bytes

def withinRecoveryLimit (recoveryBytes : Nat) : Except ApplyError Unit :=
  require (recoveryBytes ≤ maxApplyTransactionRecoveryBytes)
    (.runtime "Apply transaction recovery exceeds its cumulative byte limit" none)

/-- Which targets have to be put back: admission, before anything is changed. -/
def admitEntries (state : JournalState) (recoveryBytes : Nat) :
    List Entry → Checkout → Except ApplyError (Nat × List PendingAction)
  | [], _ => .ok (recoveryBytes, [])
  | entry :: entries, checkout => do
    let target := pathParts entry.path
    ensureSafeApplyTarget target checkout
    let current ← applyTransactionFileSnapshot host target checkout
    let recoveryBytes := recoveryBytes + (current.map fun found => found.raw.length).getD 0
    withinRecoveryLimit (if current.isSome then recoveryBytes else 0)
    if snapshotMatches current entry.oldSha256 entry.mode then
      admitEntries state recoveryBytes entries checkout
    else do
      require (state != .prepared && snapshotMatches current entry.newSha256 entry.mode)
        (.runtime "Cannot safely recover externally changed apply target" target)
      let (total, pending) ← admitEntries state recoveryBytes entries checkout
      pure (total, { entry, current, raw := none } :: pending)

/-- The pending actions with the backups they need. -/
def materializeActions (recoveryBytes : Nat) :
    List PendingAction → Checkout → Except ApplyError (List PendingAction)
  | [], _ => .ok []
  | action :: pending, checkout =>
    if action.entry.existed then do
      let raw ← readApplyTransactionBackup host action.entry checkout
      withinRecoveryLimit (recoveryBytes + raw.length)
      let actions ← materializeActions (recoveryBytes + raw.length) pending checkout
      pure ({ action with raw := some raw } :: actions)
    else do
      let actions ← materializeActions recoveryBytes pending checkout
      pure ({ action with raw := none } :: actions)

/-- The backup goes to the place of the target, or a target that is new goes. -/
def writeBack (action : PendingAction) (target : Path) : Run Unit :=
  match action.entry.existed, action.raw with
  | true, some raw => atomicReplaceBytes target raw action.entry.mode
  | true, none => Prog.raise (.runtime "AssertionError" none)
  | false, _ => do
    step (.unlink target)
    fsyncDirectory target.dropLast

/-- Put one target back. -/
def restoreTarget (action : PendingAction) : Run Unit := do
  let target := pathParts action.entry.path
  reading "target" (ensureSafeApplyTarget target)
  reading "target" fun checkout => do
    let current ← applyTransactionFileSnapshot host target checkout
    require (current == action.current)
      (.runtime "Apply target changed during transaction recovery" target)
  writeBack action target
  reading "target" fun checkout => do
    let restored ← applyTransactionFileSnapshot host target checkout
    require (snapshotMatches restored action.entry.oldSha256 action.entry.mode)
      (.runtime "Apply transaction rollback did not restore" target)

def rollBack (journal : Journal) : Run Unit := do
  reading "backup directory"
    (requirePrivateOwnedDirectory backupsDirectory "Apply transaction backup directory")
  let (recoveryBytes, pending) ← reading "targets"
    (admitEntries host journal.state 0 journal.entries.reverse)
  let actions ← reading "backups" (materializeActions host recoveryBytes pending)
  Prog.forEach actions (restoreTarget host)
  removePlannedApplyTransactionDirectories journal.createdDirectories
  removeApplyTransactionDirectory

def recoverApplyTransactionLocked : Run Unit := do
  let interrupted ← reading "transaction directory" fun checkout =>
    .ok (checkout.node transactionDirectory).isSome
  if interrupted then
    reading "transaction directory"
      (requirePrivateOwnedDirectory transactionDirectory "Apply transaction directory")
    let begun ← reading "journal" fun checkout => .ok (checkout.node journalPath).isSome
    -- no live target is touched before the durable journal exists
    if !begun then removeApplyTransactionDirectory
    else
      let journal ← reading "journal" (loadApplyTransactionJournal host)
      match journal.state with
      | .committed => do
        reading "targets" (checkTargets host Entry.newSha256
          "Committed apply transaction target changed before cleanup" journal.entries)
        removeApplyTransactionDirectory
      | _ => rollBack host journal

/-- The exclusive lock of the checkout around a body. -/
def exclusiveApplyTransactionLock {α : Type} (body : Run α) : Run α := do
  ensureDurableDirectory axiomDirectory 0o755
  step .lock
  Prog.tryFinally body (step .unlock)

def recoverApplyTransaction : Run Unit :=
  exclusiveApplyTransactionLock (recoverApplyTransactionLocked host)

end

/-! ## Installation -/

/-- What the caller hands over. -/
structure Request where
  /-- Absolute targets with their new bytes, nothing for a deletion. -/
  files : List (Text × Option Bytes)
  expectedOriginals : List (Text × Option Text)
  preInstallCheck : Option (Checkout → Except ApplyError Unit)
  postInstallCheck : Option (Checkout → Except ApplyError Unit)

/-- The parts of `os.path.abspath(text)`. -/
def absoluteParts (text : Text) : Path :=
  (text.splitOn '/').foldl (fun parts part =>
    if part.isEmpty || part == ['.'] then parts
    else if part == ['.', '.'] then parts.dropLast
    else parts ++ [part]) []

section

variable (host : Host)

def targetRelativePath (target : Path) (checkout : Checkout) : Except ApplyError Path :=
  if !(host.root.isPrefixOf target) then
    .error (.runtime "Apply transaction target escapes checkout" target)
  else
    let relative := target.drop host.root.length
    if relative.isEmpty then
      .error (.runtime "Apply transaction target is not canonical" target)
    else if !isCanonicalApplyTransactionTarget host checkout relative then
      .error (.runtime ("Apply transaction target is outside the canonical RuleSpec/manifest " ++
        "mutation surface") relative)
    else .ok relative

/-- The targets below the checkout root, admitted before anything is locked. -/
def admitTargets (request : Request) (checkout : Checkout) :
    Except ApplyError (List (Path × Option Bytes)) := do
  let targets := request.files.map fun file => absoluteParts file.1
  require (!request.files.isEmpty) (.runtime "RuleSpec apply transaction has no files" none)
  require (request.files.length ≤ maxApplyTransactionEntries)
    (.runtime "RuleSpec apply transaction contains too many files" none)
  require targets.Nodup (.runtime "RuleSpec apply transaction contains duplicate targets" none)
  let relative ← targets.mapM fun target => targetRelativePath host target checkout
  pure (relative.zip (request.files.map Prod.snd))

/-- What was expected of a target's original, if anything. -/
def expectedOriginal (request : Request) (target : Path) : Option (Option Text) :=
  (request.expectedOriginals.reverse.map fun file => (absoluteParts file.1, file.2)).lookup
    (host.root ++ target)

/-- The entry of a target that was found as `old`. -/
def entryOf (index : Nat) (target : Path) (raw : Option Bytes) (old : Option Snapshot) : Entry where
  path := posix target
  existed := old.isSome
  mode := (old.map Snapshot.mode).getD 0o644
  oldSha256 := old.map Snapshot.digest
  backup := if old.isSome then some (backupName index) else none
  delete := raw.isNone
  newSha256 := raw.map host.sha256

/-- The backup of a target that is there. -/
def writeBackup (index : Nat) (old : Option Snapshot) : Run Unit :=
  match old with
  | some found => atomicReplaceBytes (backupsDirectory ++ [backupName index]) found.raw 0o600
  | none => pure ()

/-- Take the snapshot of a target and back it up. -/
def backUpTarget (request : Request) (index : Nat) (target : Path) (raw : Option Bytes) :
    Run Entry := do
  reading "original" (ensureSafeApplyTarget target)
  let old ← reading "original" fun checkout => do
    let old ← applyTransactionFileSnapshot host target checkout
    require ((expectedOriginal host request target).all fun digest =>
        old.map Snapshot.digest == digest)
      (.runtime "Apply target changed after validation" target)
    require (!(raw.isNone && old.isNone)) (.runtime "Cannot delete missing apply target" target)
    pure old
  writeBackup index old
  pure (entryOf host index target raw old)

def backUpTargets (request : Request) (index : Nat) :
    List (Path × Option Bytes) → Run (List Entry)
  | [] => pure []
  | (target, raw) :: files => do
    let entry ← backUpTarget host request index target raw
    let entries ← backUpTargets request (index + 1) files
    pure (entry :: entries)

/-- The new bytes go to the place of the target, or the target goes. -/
def writeTarget (target : Path) (raw : Option Bytes) (mode : Nat) : Run Unit :=
  match raw with
  | none => do
    step (.unlink target)
    fsyncDirectory target.dropLast
  | some raw => atomicReplaceBytes target raw mode

/-- Replace or remove one live target. -/
def applyTarget (entry : Entry) (target : Path) (raw : Option Bytes) : Run Unit := do
  reading "target" (ensureSafeApplyTarget target)
  reading "target" fun checkout => do
    let current ← applyTransactionFileSnapshot host target checkout
    require (snapshotMatches current entry.oldSha256 entry.mode)
      (.runtime "Apply target changed immediately before mutation" target)
  writeTarget target raw entry.mode

def runCheck (what : String) (check : Option (Checkout → Except ApplyError Unit)) : Run Unit :=
  match check with
  | some check => reading what check
  | none => pure ()

/-- The body of the `try`: back up, write the journal, apply, commit, clean up. -/
def applyFiles (request : Request) (files : List (Path × Option Bytes))
    (directories : List Path) : Run Unit := do
  let entries ← backUpTargets host request 0 files
  let journal : Journal :=
    { state := .prepared, entries, createdDirectories := directories.map posix }
  writeApplyTransactionJournal journal
  writeApplyTransactionJournal { journal with state := .applying }
  createPlannedApplyTransactionDirectories journal.createdDirectories
  -- the targets are distinct, so that the entry of a target is the one made for it
  Prog.forEach (entries.zip files) fun (entry, target, raw) => applyTarget host entry target raw
  runCheck "post-install check" request.postInstallCheck
  reading "targets" (checkTargets host Entry.newSha256
    "Apply transaction final state changed before commit" entries)
  writeApplyTransactionJournal { journal with state := .committed }
  removeApplyTransactionDirectory

/-- The handler of the `try`: recover, and say what failed. -/
def failApply (error : ApplyError) : Run Unit := do
  let recovery ← Prog.tryCatch
    (do
      let interrupted ← reading "transaction directory" fun checkout =>
        .ok (checkout.node transactionDirectory).isSome
      if interrupted then recoverApplyTransactionLocked host
      pure none)
    fun recovery => pure (some recovery)
  Prog.raise (.transactionFailed error recovery)

/-- The transaction directories, made before the `try`. -/
def makeTransactionDirectories : Run Unit := do
  step (.mkdir transactionDirectory 0o700)
  fsyncDirectory transactionDirectory.dropLast
  reading "transaction directory"
    (requirePrivateOwnedDirectory transactionDirectory "Apply transaction directory")
  step (.mkdir backupsDirectory 0o700)
  fsyncDirectory transactionDirectory
  reading "backup directory"
    (requirePrivateOwnedDirectory backupsDirectory "Apply transaction backup directory")

/-- What is done once no interrupted transaction is left. -/
def runTransaction (request : Request) (files : List (Path × Option Bytes)) : Run Unit := do
  let directories ← reading "plan" (plannedApplyTransactionDirectories files)
  makeTransactionDirectories
  Prog.tryCatch (applyFiles host request files directories) (failApply host)

def installApplyTransaction (request : Request) : Run Unit := do
  let files ← reading "request" (admitTargets host request)
  exclusiveApplyTransactionLock do
    recoverApplyTransactionLocked host
    runCheck "pre-install check" request.preInstallCheck
    runTransaction host request files

end

end AxiomEncode.Apply
