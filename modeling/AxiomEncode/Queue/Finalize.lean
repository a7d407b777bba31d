/-
# Queue.Finalize -- completing the merged items and advancing the base

`finalizeAndRepin` takes a paused queue to the next active one.  The checkout shows one
reviewed tip that contains the old base; every completed item is still supported by its
merged pull request; every selectable item is new or was merged by the bot's own run.
The merged ones are completed with the evidence of their artifact, and the dispatch moves
to the new tip.
-/
import AxiomEncode.Queue.Evidence

namespace AxiomEncode.Queue

open Theory
open Theory.Json (value same set pop)

set_option autoImplicit false

/-- What the commands see of the RuleSpec checkout. -/
structure Checkout where
  /-- `git rev-parse HEAD`, nothing if git fails -/
  head : Option Text
  /-- `git status --porcelain` -/
  status : Option Text
  /-- `git rev-parse refs/remotes/origin/<branch>` -/
  remoteTip : Text → Option Text
  /-- `git merge-base --is-ancestor` ends without an error. -/
  isAncestor : Text → Text → Bool
  /-- `load_release_pin` of the toolchain file -/
  releasePin : Except QueueError (Text × Text)
  /-- The bytes of a regular file under the root. -/
  file : Text → Option (List UInt8)

/-- The arguments of `finalize_and_repin` besides the queue. -/
structure Finalization where
  rulespecRoot : Checkout
  checkRuns : Json
  pullRequests : Json
  workflowRuns : Json
  targetEvidence : Json
  newRulespecRef : Text
  finalizerHeadSha : Text
  finalizerRunUrl : Text
  finalizerRunAttempt : Int
  /-- The refs given, or those of the reviewed allowlist. -/
  reviewedRulespecRefs : List (Text × Text)

section

variable (host : Host)

def dispatchText (payload : Record) (field : String) : Text :=
  textOf (value (dispatchOf payload) field)

/-- The file is there and has this digest. -/
def Checkout.holds (checkout : Checkout) (path digest : Text) : Bool :=
  match checkout.file path with
  | some bytes => host.sha256 bytes == digest
  | none => false

/-- The checkout is the remote tip of the branch, clean, and contains the old base. -/
def verifyCheckout (payload : Record) (checkout : Checkout) (newRulespecRef : Text) :
    Except QueueError Unit :=
  match checkout.head, checkout.status,
      checkout.remoteTip (dispatchText payload "pr_base_branch") with
  | some head, some status, some tip => do
    check (head = newRulespecRef && tip = newRulespecRef)
      "new_rulespec_ref is not the exact checked-out remote branch tip"
    check status.isEmpty "finalize-repin RuleSpec checkout is not clean"
    check (checkout.isAncestor (dispatchText payload "rulespec_ref") newRulespecRef)
      "new RuleSpec base does not contain the prior queue base"
    let pin ← checkout.releasePin
    let release := recordOf (value payload "release")
    check (value release "name" = .str pin.1 && value release "content_sha256" = .str pin.2)
      "new RuleSpec base changed the queue corpus release pin"
  | _, _, _ => .error (.value "finalize-repin requires an exact RuleSpec branch checkout")

/-- `", ".join(str(record.get("html_url") or "unknown") for record in records)` -/
def urlsOf (records : List Record) : String :=
  String.intercalate ", " (records.map fun record =>
    String.ofList (host.strOr (value record "html_url") "unknown"))

/-- No pull request of the queue is open and no run of it is active. -/
def verifyQuiet (payload : Record) (queuePrs runs : List Record) : Except QueueError Unit := do
  let opened := queuePrs.filter fun pr => same (value pr "state") (str "open")
  check opened.isEmpty
    ("cannot repin while queue pull requests are open: " ++ urlsOf host opened)
  let stem := '[' :: (textOf (value payload "queue_id") ++ [':'])
  let active := runs.filter fun run =>
    isIn stem (host.strOr (value run "display_title") "") &&
      (!same (value run "status") (str "completed") || value run "conclusion" = .null)
  check active.isEmpty
    ("cannot repin while queue workflow runs are active: " ++ urlsOf host active)

/-- `prs_by_url.get(url)`: the last pull request of the address. -/
def prByUrl (queuePrs : List Record) (url : Json) : Except QueueError (Option Record) :=
  match url with
  | .str _ => .ok (queuePrs.reverse.find? fun pr => value pr "html_url" = url)
  | .arr _ => .error .type
  | .obj _ => .error .type
  | _ => .ok none

/-- A completed item is still supported. -/
def verifyCompleted (payload : Record) (checkout : Checkout) (newRulespecRef : Text)
    (queuePrs : List Record) (item : Record) : Except QueueError Unit := do
  let id := idOf item
  let name := String.ofList id
  let evidence := recordOf (value item "evidence")
  let found ← prByUrl queuePrs (value evidence "url")
  let pr := found.getD []
  let body := host.strOr (value pr "body") ""
  let markers :=
    [quoted "Queue item" (textOf (value payload "queue_id") ++ '/' :: id),
      quoted "Citation" (textOf (value item "citation")),
      quoted "Queue generation SHA-256" (textOf (value evidence "generation_sha256")),
      "Axiom Encode run: ".toList ++ textOf (value evidence "target_run_url")]
  check (found.isSome && same (value pr "state") (str "closed") &&
      value pr "merged_at" ≠ .null &&
      same (value pr "merge_commit_sha") (value evidence "merge_commit") &&
      isRecord (value pr "head") &&
      same (value (recordOf (value pr "head")) "sha") (value evidence "rulespec_pr_head_sha") &&
      markers.all fun marker => isIn marker body)
    ("completed queue item " ++ name ++ " lacks a verified merged RuleSpec PR")
  check (checkout.isAncestor (textOf (value evidence "merge_commit")) newRulespecRef)
    ("new RuleSpec base omits completed queue item " ++ name)
  check (checkout.holds host (textOf (value evidence "applied_manifest_path"))
      (textOf (value evidence "applied_manifest_sha256")))
    ("completed queue item " ++ name ++ " lacks its applied manifest")

/-! ## The evidence of a merged item -/

/-- What the metadata of the artifact must say. -/
def expectedMetadata (payload item decision run : Record) (runId : Int) (queueDigest : Json) :
    List (String × Json) :=
  [("citation", value item "citation"), ("encoder_commit", value run "head_sha"),
    ("pr_base_branch", value (dispatchOf payload) "pr_base_branch"),
    ("queue_id", value payload "queue_id"),
    ("queue_item_generation_sha256", value decision "generation_sha256"),
    ("queue_item_id", value item "id"), ("queue_manifest_sha256", queueDigest),
    ("rulespec_base", value (dispatchOf payload) "rulespec_ref"),
    ("schema", str "axiom-encode/targeted-reencode-artifact/v1"),
    ("workflow_run_attempt", .int 1), ("workflow_run_id", .str (toString runId).toList)]

/-- The target run is the one decided on, the bot's own, and ran the job once. -/
def verifyTargetRun (name : String) (decision run : Record) (jobs : Json) :
    Except QueueError Unit := do
  let actor := value run "actor"
  check (succeeded run && same (value run "event") (str "workflow_dispatch") &&
      same (value run "head_branch") (str "main") &&
      same (value run "html_url") (value decision "target_run_url") &&
      same (value run "path") (str ".github/workflows/targeted-signed-reencode.yml") &&
      isRecord actor && same (value (recordOf actor) "login") (str "github-actions[bot]"))
    (name ++ " target run is not trusted and successful")
  verifyAttemptOneJob run jobs "Queue protected signed RuleSpec re-encode" (name ++ " target") true

/-- The metadata is that of this item's run. -/
def verifyMetadata (name : String) (payload item decision run metadata : Record) :
    Except QueueError Unit :=
  match value run "id" with
  | .int runId => do
    check (0 < runId) (name ++ " target run id is malformed")
    let queueDigest ← dispatchQueueSha256 host payload
    let mismatches :=
      (expectedMetadata payload item decision run runId queueDigest).filter fun entry =>
        !same (value metadata entry.1) entry.2
    check mismatches.isEmpty (name ++ " target artifact metadata does not match: " ++
      String.intercalate ", " (mismatches.map Prod.fst))
  | _ => .error (.value (name ++ " target run id is malformed"))

/-- The manifest that the artifact says was applied: its path and its digest. -/
def appliedManifest (name : String) (item inventory : Record) :
    Except QueueError (Json × Json) :=
  match value inventory "items" with
  | .arr entries => do
    check (same (value inventory "schema") (str "axiom-encode/applied-manifest-inventory/v1"))
      (name ++ " applied manifest inventory is malformed")
    match entries.filter fun entry =>
        isRecord entry && same (value (recordOf entry) "citation") (value item "citation") with
    | [applied] => do
      let applied := recordOf applied
      requireDigest (value applied "sha256") (name ++ " applied manifest sha256")
      check (isManifestPath (value applied "path")) (name ++ " applied manifest path is unsafe")
      pure (value applied "path", value applied "sha256")
    | _ => .error (.value (name ++ " target artifact lacks one applied manifest"))
  | _ => .error (.value (name ++ " applied manifest inventory is malformed"))

/-- `_verify_target_evidence` -/
def verifyTargetEvidence (payload item decision pullRequest : Record) (checkout : Checkout)
    (evidence : Json) : Except QueueError Record := do
  let name := String.ofList (idOf item)
  match exactObject evidence ["apply_manifests", "jobs", "metadata", "pull_request", "run"] with
  | none => .error (.value (name ++ " target evidence is malformed"))
  | some members => do
    check (["run", "metadata", "pull_request", "apply_manifests"].all fun field =>
        isRecord (value members field))
      (name ++ " target evidence contains a non-object")
    let run := recordOf (value members "run")
    let metadata := recordOf (value members "metadata")
    let artifactPr := recordOf (value members "pull_request")
    verifyTargetRun name decision run (value members "jobs")
    verifyMetadata host name payload item decision run metadata
    let prHead := value pullRequest "head"
    check (same (value artifactPr "number") (value pullRequest "number") &&
        same (value artifactPr "html_url") (value pullRequest "html_url") &&
        isRecord prHead && isRecord (value artifactPr "head") &&
        same (value (recordOf (value artifactPr "head")) "sha") (value (recordOf prHead) "sha"))
      (name ++ " target artifact PR identity does not match")
    let (path, digest) ← appliedManifest name item (recordOf (value members "apply_manifests"))
    check (checkout.holds host (textOf path) (textOf digest))
      (name ++ " merged RuleSpec tree lacks the signed applied manifest")
    requireSha (value (recordOf prHead) "sha") (name ++ " RuleSpec PR head")
    requireSha (value run "head_sha") (name ++ " target run head")
    pure [("applied_manifest_path".toList, path), ("applied_manifest_sha256".toList, digest),
      ("artifact_metadata_sha256".toList, .str (jsonSha256 host (.obj metadata))),
      ("rulespec_pr_head_sha".toList, value (recordOf prHead) "sha"),
      ("target_run_head_sha".toList, value run "head_sha"),
      ("target_run_attempt".toList, .int 1),
      ("target_run_url".toList, value decision "target_run_url")]

/-! ## Finalization -/

/-- `item["status"] = "completed"`, with its evidence. -/
def completeItem (authenticated : Record) (generation mergeCommit url : Json) (item : Record) :
    Record :=
  let evidence := set (set (set (set authenticated "generation_sha256" generation) "merge_commit"
    mergeCommit) "type" (str "merged-rulespec-pr")) "url" url
  set (set item "status" (str "completed")) "evidence" (.obj evidence)

/-- One turn of the loop over the decisions. -/
def finalizeDecision (payload : Record) (request : Finalization) (queuePrs : List Record)
    (evidences : Record) (items : List Record) (decision : Record) :
    Except QueueError (List Record) := do
  if !same (value decision "reason") (str "merged-rulespec-pr") then pure items
  else do
    let id := idOf decision
    let name := String.ofList id
    let url := value decision "history_url"
    let found ← prByUrl queuePrs url
    let pr := found.getD []
    let mergeCommit := value pr "merge_commit_sha"
    requireSha mergeCommit (name ++ " merged PR commit")
    check (request.rulespecRoot.isAncestor (textOf mergeCommit) request.newRulespecRef)
      ("new RuleSpec base omits merged queue item " ++ name)
    match itemOfId items id with
    | none => .error (.key name)
    | some item => do
      let authenticated ← verifyTargetEvidence host payload item decision pr
        request.rulespecRoot ((evidences.lookup id).getD .null)
      pure (changeItem id
        (completeItem authenticated (value decision "generation_sha256") mergeCommit url) items)

/-- The evidence of the activation. -/
def activationOf (payload : Record) (request : Finalization) : Json :=
  .obj [("check_runs_sha256".toList, .str (jsonSha256 host request.checkRuns)),
    ("finalizer_head_sha".toList, .str request.finalizerHeadSha),
    ("finalizer_run_attempt".toList, .int request.finalizerRunAttempt),
    ("finalizer_run_url".toList, .str request.finalizerRunUrl),
    ("previous_queue_object_sha256".toList, .str (jsonSha256 host (.obj payload))),
    ("pull_requests_sha256".toList, .str (jsonSha256 host request.pullRequests)),
    ("rulespec_ref".toList, .str request.newRulespecRef),
    ("schema".toList, str activationSchema),
    ("workflow_runs_sha256".toList, .str (jsonSha256 host request.workflowRuns))]

/-- The active queue before it is validated. -/
def activate (payload : Record) (request : Finalization) (items : List Record) : Record :=
  let dispatch := set (dispatchOf payload) "rulespec_ref" (.str request.newRulespecRef)
  let repinned := set (withItems payload items) "dispatch" (.obj dispatch)
  set (pop (pop (set repinned "state" (str "active")) "pause_reason") "suspension") "activation"
    (activationOf host payload request)

/-- What is checked before the history is read. -/
def verifyRequest (payload : Record) (request : Finalization) : Except QueueError Unit := do
  validateQueue payload
  check (hasState payload "paused") "finalize-repin requires a paused queue"
  requireSha (.str request.newRulespecRef) "new_rulespec_ref"
  requireSha (.str request.finalizerHeadSha) "finalizer_head_sha"
  check (isNumbered finalizerRunStem request.finalizerRunUrl) "finalizer_run_url is malformed"
  check (request.finalizerRunAttempt = 1) "finalizer_run_attempt must be 1"
  validateGreenCheckRuns host request.checkRuns
  check (request.newRulespecRef ≠ dispatchText payload "rulespec_ref")
    "new_rulespec_ref must advance the queue base"
  check (request.reviewedRulespecRefs.contains
      (dispatchText payload "country", request.newRulespecRef))
    "new_rulespec_ref is not independently reviewed and allowlisted"
  verifyCheckout payload request.rulespecRoot request.newRulespecRef

/-- The decisions about the selectable items, every one of them final. -/
def decideItems (payload : Record) (request : Finalization) : Except QueueError (List Record) := do
  let selectable := (itemsOf payload).filter fun item => statusIn item selectableStatuses
  let reconciled ← reconcileCandidates host (selectionPayload host payload selectable)
    request.pullRequests request.workflowRuns
  let decisions := itemsOf reconciled
  let unresolved := decisions.filter fun decision =>
    !(same (value decision "reason") (str "merged-rulespec-pr") ||
      same (value decision "reason") (str "new"))
  check unresolved.isEmpty ("queue dispositions are required before repinning: " ++
    String.intercalate ", " (unresolved.map fun decision =>
      String.ofList (idOf decision) ++ "=" ++ String.ofList (textOf (value decision "reason"))))
  pure decisions

/-- `finalize_and_repin` -/
def finalizeAndRepin (payload : Record) (request : Finalization) : Except QueueError Record := do
  verifyRequest host payload request
  let prs ← flattenPullRequests request.pullRequests
  let runs ← flattenWorkflowRuns request.workflowRuns
  let marker := "Queue item: `".toList ++ textOf (value payload "queue_id") ++ ['/']
  let queuePrs := prs.filter (isQueuePullRequest host [marker]
    (value (dispatchOf payload) "pr_base_branch"))
  verifyQuiet host payload queuePrs runs
  ((itemsOf payload).filter fun item => hasStatus item "completed").forM
    (verifyCompleted host payload request.rulespecRoot request.newRulespecRef queuePrs)
  let decisions ← decideItems host payload request
  check (isRecord request.targetEvidence) "target evidence must be an object"
  let items ← decisions.foldlM
    (finalizeDecision host payload request queuePrs (recordOf request.targetEvidence))
    (itemsOf payload)
  let updated := activate host payload request items
  validateQueue updated
  pure updated

end

end AxiomEncode.Queue
