/-
# Queue.Evidence -- what the history says about the items

Finalization reads the history of pull requests, workflow runs and check runs as
decoded JSON.  A selected item is told by its generation: the digest of its attempt,
its citation, the dispatch, the queue and the release.
-/
import AxiomEncode.Queue.Transition
import AxiomEncode.Theory.JsonCanonical

namespace AxiomEncode.Queue

open Theory
open Theory.Json (value same set pop sortKeys)

set_option autoImplicit false

/-- What finalization takes from the language's library. -/
structure Host where
  /-- `str`, of a value that is no text -/
  repr : Json → Text
  /-- `hashlib.sha256(raw).hexdigest()` -/
  sha256 : List UInt8 → Text

section

variable (host : Host)

/-- `str(raw)` -/
def Host.str (raw : Json) : Text :=
  match raw with
  | .str text => text
  | raw => host.repr raw

/-- `bool(raw)` -/
def isTruthy (raw : Json) : Bool :=
  match raw with
  | .null => false
  | .bool held => held
  | .int held => held ≠ 0
  | .float text => !([['0', '.', '0'], ['-', '0', '.', '0']].contains text)
  | .str text => !text.isEmpty
  | .arr items => !items.isEmpty
  | .obj members => !members.isEmpty

/-- `str(raw or default)` -/
def Host.strOr (raw : Json) (default : String) : Text :=
  if isTruthy raw then host.str raw else default.toList

/-- `part in text` -/
def isIn (part text : Text) : Bool := text.tails.any part.isPrefixOf

/-! ## Digests -/

/-- `_json_sha256` -/
def jsonSha256 (payload : Json) : Text :=
  host.sha256 (utf8 (Json.compact (sortKeys payload)))

/-- `queue_object_file_sha256` -/
def queueObjectFileSha256 (payload : Record) : Text :=
  host.sha256 (utf8 (Json.dumps (sortKeys (.obj payload)) ++ ['\n']))

/-- `dispatch_queue_sha256` -/
def dispatchQueueSha256 (payload : Record) : Except QueueError Json :=
  if hasState payload "active" then .ok (.str (queueObjectFileSha256 host payload))
  else
    match value payload "suspension" with
    | .obj suspension => do
      requireDigest (value suspension "active_queue_sha256") "suspension active_queue_sha256"
      pure (value suspension "active_queue_sha256")
    | _ => .error (.value "paused queue lacks active dispatch digest evidence")

/-- What one attempt of an item is told by. -/
def generationOf (payload item : Record) : Record :=
  [("attempt".toList, value item "attempt"), ("citation".toList, value item "citation"),
    ("dispatch".toList, value payload "dispatch"), ("item_id".toList, value item "id"),
    ("queue_id".toList, value payload "queue_id"), ("release".toList, value payload "release")]

/-- `item_generation_sha256`, of an item of a valid queue. -/
def itemGenerationSha256 (payload item : Record) : Text :=
  jsonSha256 host (.obj (generationOf payload item))

/-- An item of a selection. -/
def selectItem (payload item : Record) : Record :=
  set item "generation_sha256" (.str (itemGenerationSha256 host payload item))

/-- `_selection_payload` -/
def selectionPayload (payload : Record) (items : List Record) : Record :=
  let selection : Record :=
    [("dispatch".toList, value payload "dispatch"), ("issue".toList, value payload "issue"),
      ("items".toList, .arr (items.map fun item => .obj (selectItem host payload item))),
      ("queue_id".toList, value payload "queue_id"), ("schema".toList, Queue.str queueSchema),
      ("state".toList, value payload "state")]
  if value payload "pause_reason" = .null then selection
  else set selection "pause_reason" (value payload "pause_reason")

/-! ## Pages of the history -/

def listOf (message : String) (raw : Json) : Except QueueError (List Json) :=
  match raw with
  | .arr items => .ok items
  | _ => .error (.value message)

def recordsOf (message : String) (items : List Json) : Except QueueError (List Record) :=
  items.mapM fun item =>
    match item with
    | .obj members => .ok members
    | _ => .error (.value message)

/-- The objects that the pages list under one name. -/
def flattenPages (pageMessage listMessage itemMessage field : String) (pages : List Json) :
    Except QueueError (List Record) := do
  let lists ← pages.mapM fun page =>
    match page with
    | .obj members => do
      let items ← listOf listMessage (value members field)
      recordsOf itemMessage items
    | _ => .error (.value pageMessage)
  pure lists.flatten

/-- `_flatten_pull_requests`: a page is a list or a pull request. -/
def flattenPullRequests (payload : Json) : Except QueueError (List Record) := do
  let pages ← listOf "pull request history must be a JSON array" payload
  recordsOf "pull request history contains a non-object" (pages.flatMap fun page =>
    match page with
    | .arr values => values
    | page => [page])

/-- `_flatten_workflow_runs` -/
def flattenWorkflowRuns (payload : Json) : Except QueueError (List Record) := do
  let pages ← listOf "workflow run history must be a JSON array" payload
  flattenPages "workflow run history page must be an object"
    "workflow run history page has no workflow_runs" "workflow run history contains a non-object"
    "workflow_runs" pages

/-- `_flatten_workflow_jobs`: one page, or a list of pages. -/
def flattenWorkflowJobs (payload : Json) : Except QueueError (List Record) :=
  let pages :=
    match payload with
    | .arr pages => pages
    | page => [page]
  flattenPages "workflow job history page must be an object"
    "workflow job history page has no jobs" "workflow job history contains a non-object" "jobs"
    pages

/-- The attempt that a job or a run belongs to. -/
def runAttemptOf (record : Record) : Option Int :=
  match value record "run_attempt" with
  | .int attempt => some attempt
  | _ => none

def succeeded (record : Record) : Bool :=
  same (value record "status") (Queue.str "completed") &&
    same (value record "conclusion") (Queue.str "success")

/-- `_verify_attempt_one_job`: the job ran in the first attempt only. -/
def verifyAttemptOneJob (run : Record) (jobsPayload : Json) (expectedName label : String)
    (requireSuccess : Bool) : Except QueueError Unit := do
  match runAttemptOf run with
  | none => .error (.value (label ++ " run attempt is malformed"))
  | some runAttempt => do
    check (1 ≤ runAttempt) (label ++ " run attempt is malformed")
    let status := value run "status"
    if requireSuccess then
      check (succeeded run) (label ++ " run has not completed successfully")
    else do
      let known ← isOneOf status ["in_progress", "completed"]
      check (known && (!same status (Queue.str "completed") || succeeded run))
        (label ++ " run is not successful or in progress")
    let jobs ← flattenWorkflowJobs jobsPayload
    let named := jobs.filter fun job => same (value job "name") (Queue.str expectedName)
    let attempts := named.filterMap runAttemptOf
    check ((attempts.all fun attempt => 1 ≤ attempt && attempt ≤ runAttempt) &&
        (List.range runAttempt.toNat).all fun step => attempts.count (step + 1 : Int) == 1)
      (label ++ " job history is incomplete")
    let first := (named.find? fun job => runAttemptOf job = some 1).getD []
    let inProgress := !requireSuccess && runAttempt = 1 &&
      same (value first "status") (Queue.str "in_progress") && value first "conclusion" = .null
    check (succeeded first || inProgress)
      (label ++ " attempt 1 was not successful or in progress")
    let later := named.filter fun job =>
      match runAttemptOf job with
      | some attempt => 1 < attempt
      | none => false
    check (later.all fun job => same (value job "status") (Queue.str "completed") &&
        same (value job "conclusion") (Queue.str "skipped"))
      (label ++ " later attempt executed the protected job")

/-- A check run that is complete and not red. -/
def isGreen (run : Record) : Except QueueError Bool :=
  if same (value run "status") (Queue.str "completed") then
    isOneOf (value run "conclusion") ["neutral", "skipped", "success"]
  else .ok false

/-- `_validate_green_check_runs` -/
def validateGreenCheckRuns (payload : Json) : Except QueueError Unit := do
  let pages ← listOf "RuleSpec check run evidence must be a JSON array" payload
  let checks ← flattenPages "RuleSpec check run evidence page is malformed"
    "RuleSpec check run evidence page is malformed"
    "RuleSpec check run evidence contains a non-object" "check_runs" pages
  check (!checks.isEmpty) "RuleSpec tip has no check run evidence"
  let greens ← checks.mapM isGreen
  let unacceptable := (checks.zip greens).filter fun entry => !entry.2
  check unacceptable.isEmpty ("RuleSpec tip does not have green check runs: " ++
    String.intercalate ", " (unacceptable.map fun entry =>
      String.ofList (host.strOr (value entry.1 "name") "unknown")))

/-! ## Deciding what became of an item -/

/-- `f"{label}: `{text}`"` -/
def quoted (label : String) (text : Text) : Text := label.toList ++ ": `".toList ++ text ++ ['`']

/-- A pull request of the protected repository whose text has every marker. -/
def isQueuePullRequest (markers : List Text) (branch : Json) (pr : Record) : Bool :=
  let body := host.strOr (value pr "body") ""
  let base := value pr "base"
  let headRepo := value (recordOf (value pr "head")) "repo"
  (markers.all fun marker => isIn marker body) && isRecord base &&
    same (value (recordOf base) "ref") branch && isRecord headRepo &&
    same (value (recordOf headRepo) "full_name") (Queue.str "TheAxiomFoundation/rulespec-us")

/-- `records.sort(key=lambda record: str(record.get(field) or ""), reverse=True)` -/
def newestFirst (field : String) (records : List Record) : List Record :=
  records.insertionSort fun a b => host.strOr (value b field) "" ≤ host.strOr (value a field) ""

/-- `TARGET_RUN_MARKER_PATTERN`: the run that the first line of its form names. -/
def targetRunMarker (body : Text) : Json :=
  let stem := "Axiom Encode run: "
  let named := (body.splitOn '\n').find? (isNumbered (stem ++ finalizerRunStem))
  ((named.map fun line => .str (line.drop stem.length)) : Option Json).getD .null

/-- The run is the bot's own, of the target workflow, and names the generation. -/
def isTrustedRun (runMarker : Text) (run : Record) : Bool :=
  let actor := value run "actor"
  succeeded run && same (value run "event") (Queue.str "workflow_dispatch") &&
    same (value run "head_branch") (Queue.str "main") &&
    isAttempt (value run "run_attempt") &&
    same (value run "path") (Queue.str ".github/workflows/targeted-signed-reencode.yml") &&
    isRecord actor && same (value (recordOf actor) "login") (Queue.str "github-actions[bot]") &&
    isIn runMarker (host.strOr (value run "display_title") "")

/-- `next((run for run in runs if run.get("html_url") == url), None)`, if it is trusted. -/
def trustedRun (runs : List Record) (runMarker : Text) (pr : Record) : Option Record :=
  let runUrl := targetRunMarker (host.strOr (value pr "body") "")
  (runs.find? fun run => same (value run "html_url") runUrl).filter (isTrustedRun host runMarker)

/-- The item with what was decided about it. -/
def decided (item : Record) (dispatchable : Bool) (reason : Text) (historyUrl : Json) : Record :=
  set (set (set item "dispatchable" (.bool dispatchable)) "reason" (.str reason)) "history_url"
    historyUrl

/-- The decision about an item without pull requests, by its latest run. -/
def decideByRun (item : Record) (latest : Option Record) : Record :=
  match latest with
  | none => decided item true "new".toList .null
  | some run =>
    let conclusion := value run "conclusion"
    let reason :=
      if !same (value run "status") (Queue.str "completed") || conclusion = .null then
        "active-workflow-run".toList
      else if same conclusion (Queue.str "success") then
        "successful-run-without-durable-pr".toList
      else "failed-workflow-run:".toList ++ host.str conclusion
    decided item false reason (value run "html_url")

/-- The decision about an item: its pull requests, newest first, and then its runs. -/
def decideItem (item : Record) (matching runs : List Record) (runMarker : Text) : Record :=
  let merged := matching.filter fun pr => value pr "merged_at" ≠ .null
  let trusted := merged.findSome? fun pr =>
    (trustedRun host runs runMarker pr).map fun run => (pr, run)
  let opened := matching.find? fun pr => same (value pr "state") (Queue.str "open")
  match trusted, merged, opened, matching with
  | some (pr, run), _, _, _ =>
    set (decided item false "merged-rulespec-pr".toList (value pr "html_url"))
      "target_run_url" (value run "html_url")
  | none, pr :: _, _, _ =>
    decided item false "untrusted-merged-rulespec-pr".toList (value pr "html_url")
  | none, [], some pr, _ => decided item false "open-rulespec-pr".toList (value pr "html_url")
  | none, [], none, pr :: _ =>
    decided item false "closed-unmerged-rulespec-pr".toList (value pr "html_url")
  | none, [], none, [] =>
    decideByRun host item (newestFirst host "created_at" (runs.filter fun run =>
      isIn runMarker (host.strOr (value run "display_title") ""))).head?

/-- One turn of the loop over the selected items. -/
def reconcileItem (queueId : Text) (dispatch : Json) (prs runs : List Record) (raw : Json) :
    Except QueueError Record :=
  match raw with
  | .obj item => do
    let id := textOf (value item "id")
    check (isItemId id) "selection item id is malformed"
    let generation := value item "generation_sha256"
    requireDigest generation (String.ofList id ++ " generation_sha256")
    let citation ← member item "citation"
    let rulespecRef ← member (recordOf dispatch) "rulespec_ref"
    let branch ← member (recordOf dispatch) "pr_base_branch"
    let markers :=
      [quoted "Queue item" (queueId ++ '/' :: id), quoted "Citation" (host.str citation),
        quoted "Base commit" (host.str rulespecRef), quoted "Base branch" (host.str branch),
        quoted "Queue generation SHA-256" (textOf generation)]
    let runMarker := '[' :: (queueId ++ ':' :: (id ++ ':' :: (textOf generation ++ [']'])))
    let matching := prs.filter (isQueuePullRequest host markers branch)
    pure (decideItem host item (newestFirst host "updated_at" matching) runs runMarker)
  | _ => .error (.value "selection item must be an object")

/-- `reconcile_candidates` -/
def reconcileCandidates (selection : Record) (pullRequests workflowRuns : Json) :
    Except QueueError Record := do
  let queueId := textOf (value selection "queue_id")
  check (isSlug 63 queueId) "selection queue_id is malformed"
  let items ← listOf "selection items must be a list" (value selection "items")
  let prs ← flattenPullRequests pullRequests
  let runs ← flattenWorkflowRuns workflowRuns
  let reconciled ← items.mapM
    (reconcileItem host queueId (value selection "dispatch") prs runs)
  pure (withItems selection reconciled)

end

end AxiomEncode.Queue
