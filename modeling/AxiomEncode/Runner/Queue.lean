/-
# Runner.Queue -- the queue runner, one iteration at a time

The queue is a list of items.  Before each iteration the runner compares it with
the manifests of the checkout (`syncQueueWithManifests`), then it polls the process
table, takes items left in `running` for orphaned if nothing runs
(`reconcileStaleRunningItems`), and waits, stops or launches the first item that is
queued or retryable (`iterate`).  A finished evaluation is written to the ledger
under the digests its item holds (`buildRunRecord`).

A `Turn` is what one iteration meets: the manifests and sources of its sync, which
stay as they are until the next, the process table, the clock, the outputs on disk
and how an evaluation ends.  `processQueue` is the list of the iterations a runner
makes; every change of the queue is saved before the file is read again, so the
queue in memory is the queue of the file.
-/
import AxiomEncode.Runner.Processes

namespace AxiomEncode.Runner

open Theory

set_option autoImplicit false

/-! ## The data -/

inductive Status where
  | queued
  | running
  | done
  | blocked
  | retryable
  | retired
  /-- Any other text, or no status. -/
  | other (text : Option Text)
  deriving DecidableEq

/-- One item of `queue.json`.  A field is `none` where the key is absent or null;
`corpusSourceSha256`, which is also read by subscript, tells the two apart. -/
structure QueueItem where
  name : Option Text
  status : Status
  manifest : Option Text
  corpusCitationPath : Option Text
  manifestSha256 : Option Text
  corpusSourceSha256 : Option (Option Text)
  sourceTrackingVersion : Option Int
  startedAt : Option Text
  finishedAt : Option Text
  outputDir : Option Text
  archivePath : Option Text
  note : Option Text
  deriving DecidableEq

/-- One case of a manifest.  Names and paths are not empty. -/
structure Candidate where
  name : Text
  manifest : Text
  corpusCitationPath : Text
  corpusSourceSha256 : Text
  named : name ≠ []
  located : manifest ≠ []

/-- The checkout at one sync: its candidates, and the files under their paths. -/
structure Sources where
  candidates : List Candidate
  sha256File : Text → Option Text
  fileExists : Text → Bool

/-- A text field that is present and not empty. -/
def truthy (field : Option Text) : Option Text := field.filter (· ≠ [])

def sourceTrackingVersion : Int := 2

/-! ## `sync_queue_with_manifests` -/

def identityChanged (sources : Sources) (item : QueueItem) (candidate : Candidate) : Bool :=
  item.sourceTrackingVersion ≠ some sourceTrackingVersion ||
    item.manifestSha256 ≠ sources.sha256File candidate.manifest ||
    item.corpusSourceSha256.join ≠ some candidate.corpusSourceSha256

def queuedFrom (sources : Sources) (candidate : Candidate) : QueueItem :=
  { name := some candidate.name
    status := .queued
    manifest := some candidate.manifest
    corpusCitationPath := some candidate.corpusCitationPath
    manifestSha256 := sources.sha256File candidate.manifest
    corpusSourceSha256 := some (some candidate.corpusSourceSha256)
    sourceTrackingVersion := some sourceTrackingVersion
    startedAt := none
    finishedAt := none
    outputDir := none
    archivePath := none
    note := some "queued from manifest sync".toList }

/-- The identity of the candidate, written into the item. -/
def adopt (sources : Sources) (item : QueueItem) (candidate : Candidate) : QueueItem :=
  { item with
    manifest := some candidate.manifest
    corpusCitationPath := some candidate.corpusCitationPath
    manifestSha256 := sources.sha256File candidate.manifest
    corpusSourceSha256 := some (some candidate.corpusSourceSha256)
    sourceTrackingVersion := some sourceTrackingVersion }

def requeue (item : QueueItem) : QueueItem :=
  { item with
    status := .queued
    startedAt := none
    finishedAt := none
    outputDir := none
    archivePath := none
    note := some "requeued after manifest/source identity change".toList }

/-- An item meets the candidate of its name.  A running item whose identity has
changed keeps what it was started with. -/
def refresh (sources : Sources) (item : QueueItem) (candidate : Candidate) : QueueItem :=
  let changed := identityChanged sources item candidate
  if item.status = .running ∧ changed = true then item
  else
    let adopted := adopt sources item candidate
    if changed = true ∧ (item.status = .done ∨ item.status = .blocked ∨ item.status = .retryable) then
      requeue adopted
    else adopted

/-- `by_name`: of several items of one name, the last. -/
def byName (items : List QueueItem) (name : Text) : Option Nat :=
  (items.zipIdx.filter fun entry => entry.1.name = some name).getLast?.map Prod.snd

def syncCandidate (sources : Sources) (index : Text → Option Nat) (items : List QueueItem)
    (candidate : Candidate) : List QueueItem :=
  match index candidate.name with
  | none => items ++ [queuedFrom sources candidate]
  | some place => items.modify place fun item => refresh sources item candidate

/-- An item whose candidate and manifest are gone is retired. -/
def retire (sources : Sources) (now : Text) (item : QueueItem) : QueueItem :=
  match truthy item.name, truthy item.manifest with
  | some name, some manifest =>
    if name ∈ sources.candidates.map Candidate.name then item
    else if item.status = .running ∨ item.status = .done ∨ item.status = .retired then item
    else if sources.fileExists manifest then item
    else
      { item with
        status := .retired
        finishedAt := some now
        note := some "manifest removed from Axiom Encode benchmarks; retired from queue".toList }
  | _, _ => item

def syncQueueWithManifests (sources : Sources) (now : Text) (items : List QueueItem) :
    List QueueItem :=
  (sources.candidates.foldl (syncCandidate sources (byName items)) items).map (retire sources now)

/-! ## The two reconciliations -/

/-- A summary under the output or the archive directory says that all is ready;
`allReady` reads the summary of a directory. -/
def readyOutput (allReady : Text → Bool) (item : QueueItem) : Bool :=
  (truthy item.outputDir).any allReady || (truthy item.archivePath).any allReady

def reconcileReadyItem (allReady : Text → Bool) (now : Text) (item : QueueItem) : QueueItem :=
  if (item.status = .blocked ∨ item.status = .retryable) ∧ readyOutput allReady item = true then
    { item with
      status := .done
      finishedAt := some now
      note := some "closed fully ready after revalidation".toList }
  else item

def reconcileReadyOutputItems (allReady : Text → Bool) (now : Text) (items : List QueueItem) :
    List QueueItem :=
  items.map (reconcileReadyItem allReady now)

def reconcileStaleItem (allReady : Text → Bool) (now : Text) (item : QueueItem) : QueueItem :=
  if item.status ≠ .running then item
  else if readyOutput allReady item then
    { item with
      status := .done
      finishedAt := some now
      note := some "closed fully ready after orphaned eval completed".toList }
  else
    { item with
      status := .retryable
      finishedAt := some now
      note := some
        "runner exited before this queued eval finished; marked retryable for relaunch".toList }

def reconcileStaleRunningItems (allReady : Text → Bool) (now : Text)
    (activeProcesses : List Text) (items : List QueueItem) : List QueueItem :=
  if activeProcesses ≠ [] then items else items.map (reconcileStaleItem allReady now)

/-! ## The end of an evaluation -/

/-- What an evaluation leaves behind: its exit code, whether its summary says that
all is ready, the errors and issues of its results in order, and its archive. -/
structure Outcome where
  returncode : Int
  allReady : Bool
  complaints : List Text
  archivePath : Option Text

def retryablePatterns : List Text :=
  ["usage limit", "rate limit", "timed out", "timeout", "temporarily unavailable",
    "temporary failure", "dns", "could not resolve", "connection reset", "connection aborted",
    "connection refused", "502", "503", "504"].map String.toList

def combinedParts (outcome : Outcome) : List Text :=
  (if outcome.returncode ≠ 0 then
    [("eval-suite exited with code " ++ toString outcome.returncode).toList] else []) ++
    outcome.complaints

def classifyStatus (outcome : Outcome) : Status × Text :=
  if outcome.allReady then (.done, "closed fully ready".toList)
  else
    let parts := combinedParts outcome
    let combined := (" | ".toList.intercalate (parts.filter (· ≠ []))).map Char.toLower
    if retryablePatterns.any fun pattern => pattern <:+: combined then
      (.retryable, parts.head?.getD "retryable infrastructure failure".toList)
    else (.blocked, parts.head?.getD "not ready".toList)

def inferRepo (corpusCitationPath : Option Text) : Text :=
  match truthy corpusCitationPath with
  | none => "none".toList
  | some path =>
    let jurisdiction := (strip path).takeWhile (· ≠ '/')
    if jurisdiction = [] then "none".toList
    else if jurisdiction = "us".toList ∨ "us-".toList <+: jurisdiction then "rulespec-us".toList
    else "rulespec-".toList ++ jurisdiction

/-- The fields of a ledger record that come from the queue item and the checkout. -/
structure RunRecord where
  runId : Text
  target : Option Text
  status : Status
  backfilledFromQueue : Bool
  manifestPath : Option Text
  manifestSha256 : Option Text
  corpusCitationPath : Option Text
  corpusSourceSha256 : Option Text
  sourceTrackingVersion : Option Int
  sourceRepo : Text
  startedAt : Option Text
  finishedAt : Option Text
  outputDir : Option Text
  archivePath : Option Text
  note : Text
  deriving DecidableEq

/-- `hashlib.sha256(text).hexdigest()[:24]` -/
structure Host where
  sha256Head : Text → Text

def computeRunId (host : Host) (item : QueueItem) : Text :=
  host.sha256Head ("||".toList.intercalate
    [(truthy item.name).getD "unknown".toList, (truthy item.startedAt).getD "none".toList,
      (truthy item.outputDir <|> truthy item.archivePath).getD "none".toList])

/-- The manifest is hashed as it is now, the corpus digest is the item's; without that
key there is no record. -/
def buildRunRecord (host : Host) (sources : Sources) (item : QueueItem) (status : Status)
    (note : Text) (archivePath : Option Text) (backfilled : Bool) : Option RunRecord :=
  item.corpusSourceSha256.map fun corpusSourceSha256 =>
    { runId := computeRunId host item
      target := item.name
      status := status
      backfilledFromQueue := backfilled
      manifestPath := truthy item.manifest
      manifestSha256 := (truthy item.manifest).bind sources.sha256File
      corpusCitationPath := item.corpusCitationPath
      corpusSourceSha256 := corpusSourceSha256
      sourceTrackingVersion := item.sourceTrackingVersion <|> some sourceTrackingVersion
      sourceRepo := inferRepo item.corpusCitationPath
      startedAt := item.startedAt
      finishedAt := item.finishedAt
      outputDir := truthy item.outputDir
      archivePath := archivePath <|> item.archivePath
      note := note }

/-! ## The loop -/

/-- The queue, the ledger, and the run ids the runner knows to be in the ledger. -/
structure State where
  items : List QueueItem
  ledger : List RunRecord
  knownRunIds : List Text

def appendRunRecord (state : State) (record : RunRecord) : State :=
  if record.runId = [] ∨ record.runId ∈ state.knownRunIds then state
  else
    { state with
      ledger := state.ledger ++ [record]
      knownRunIds := record.runId :: state.knownRunIds }

/-- One item of `backfill_run_ledger`; nothing where a record cannot be built. -/
def backfillItem (host : Host) (sources : Sources) (state : State) (item : QueueItem) :
    Option State :=
  if item.status ≠ .done ∧ item.status ≠ .blocked ∧ item.status ≠ .retryable then some state
  else if truthy item.outputDir = none ∧ truthy item.archivePath = none then some state
  else
    (buildRunRecord host sources item item.status (item.note.getD []) (truthy item.archivePath)
      true).map (appendRunRecord state)

def backfillRunLedger (host : Host) (sources : Sources) (state : State) : Option State :=
  state.items.foldlM (backfillItem host sources) state

/-- What one iteration meets. -/
structure Turn where
  sources : Sources
  /-- The output of `ps -Ao pid=,command=`. -/
  stdout : Text
  allReady : Text → Bool
  now : Text
  startedAt : Text
  finishedAt : Text
  outputDir : Text
  outcome : Outcome

/-- One launch: the item's place and name, the item as it was launched, and the record
built when it ended. -/
structure Launch where
  place : Nat
  name : Text
  item : QueueItem
  record : Option RunRecord
  deriving DecidableEq

inductive Ending where
  | waits
  | idle
  | raised
  | launches (launch : Launch)
  deriving DecidableEq

def Ending.launch? : Ending → Option Launch
  | .launches launch => some launch
  | _ => none

/-- One iteration: the queue before its sync, the queue at the poll, the processes the
poll reported, the queue after the stale reconciliation, and how it ended. -/
structure Iteration where
  turn : Turn
  before : List QueueItem
  polled : List QueueItem
  active : List Text
  reconciled : List QueueItem
  ending : Ending

def isLaunchable (item : QueueItem) : Bool := item.status = .queued ∨ item.status = .retryable

def started (turn : Turn) (item : QueueItem) : QueueItem :=
  { item with
    status := .running
    startedAt := some turn.startedAt
    outputDir := some turn.outputDir
    archivePath := none
    finishedAt := none
    note := some "started with manifest-declared runners".toList }

def finished (turn : Turn) (item : QueueItem) : QueueItem :=
  { item with
    status := (classifyStatus turn.outcome).1
    outputDir := some turn.outputDir
    archivePath := turn.outcome.archivePath <|> item.archivePath
    finishedAt := some turn.finishedAt
    sourceTrackingVersion := some sourceTrackingVersion
    note := some (classifyStatus turn.outcome).2 }

/-- From the poll to the end of the iteration; no state where the runner stops. -/
def launchNext (host : Host) (turn : Turn) (state : State) : Ending × Option State :=
  match state.items.findIdx? isLaunchable with
  | none => (.idle, none)
  | some place =>
    match state.items[place]? with
    | none => (.idle, none)
    | some item =>
      match item.name, item.manifest with
      | some name, some _ =>
        let launched := started turn item
        let ended := finished turn launched
        let record := buildRunRecord host turn.sources ended ended.status
          (classifyStatus turn.outcome).2 turn.outcome.archivePath false
        (.launches ⟨place, name, launched, record⟩,
          record.map (appendRunRecord { state with items := state.items.set place ended }))
      | _, _ => (.raised, none)

/-- One iteration from the queue as the sync left it. -/
def iterate (host : Host) (turn : Turn) (before : List QueueItem) (state : State) :
    Iteration × Option State :=
  let active := findActiveEvalProcesses turn.stdout
  let reconciled := reconcileStaleRunningItems turn.allReady turn.now active state.items
  let next := { state with items := reconciled }
  let ended := if active ≠ [] then (.waits, some next) else launchNext host turn next
  ({ turn := turn, before := before, polled := state.items, active := active,
     reconciled := reconciled, ending := ended.1 }, ended.2)

/-- The iterations after the first, each behind its sync. -/
def processTurns (host : Host) : State → List Turn → List Iteration
  | _, [] => []
  | state, turn :: rest =>
    let synced := { state with
      items := syncQueueWithManifests turn.sources turn.now state.items }
    let (iteration, next) := iterate host turn state.items synced
    iteration :: next.elim [] fun state => processTurns host state rest

/-- `process_queue`: the first sync is followed by the ready outputs and the backfill. -/
def processQueue (host : Host) (state : State) : List Turn → List Iteration
  | [] => []
  | turn :: rest =>
    let ready := { state with
      items := reconcileReadyOutputItems turn.allReady turn.now
        (syncQueueWithManifests turn.sources turn.now state.items) }
    match backfillRunLedger host turn.sources ready with
    | none => []
    | some filled =>
      let (iteration, next) := iterate host turn state.items filled
      iteration :: next.elim [] fun state => processTurns host state rest

end AxiomEncode.Runner
