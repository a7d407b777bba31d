/-
# Queue.Manifest -- a signed encoding queue and what makes it valid

A queue is a decoded JSON object.  `validateQueue` checks it against the profile of
its queue id: the bindings, the state with the evidence it calls for, the release, the
dispatch policy, and every item with the evidence of its status.  The messages are the
messages of the source.
-/
import AxiomEncode.Theory.Checks
import AxiomEncode.Theory.PyValue

namespace AxiomEncode.Queue

open Theory
open Theory.Json (value same)

set_option autoImplicit false

abbrev Text := List Char

/-- A JSON object. -/
abbrev Record := List (Text × Json)

inductive QueueError where
  /-- `ValueError` -/
  | value (message : String)
  /-- `KeyError` -/
  | key (name : String)
  /-- `TypeError`: a value that cannot be a member of a set. -/
  | type
  deriving DecidableEq, Repr

/-- `if condition: raise ValueError(message)` -/
def check (condition : Bool) (message : String) : Except QueueError Unit :=
  require condition (.value message)

@[simp] theorem check_eq_ok_iff {condition : Bool} {message : String} {u : Unit} :
    check condition message = .ok u ↔ condition = true :=
  require_eq_ok_iff

/-- `if condition: action` -/
def whenever (condition : Bool) (action : Except QueueError Unit) : Except QueueError Unit :=
  if condition then action else .ok ()

@[simp] theorem whenever_eq_ok_iff {condition : Bool} {action : Except QueueError Unit} {u : Unit} :
    whenever condition action = .ok u ↔ (condition = true → action = .ok ()) := by
  cases condition <;> simp [whenever]

def queueSchema : String := "axiom-encode/signed-encoding-queue/v1"
def suspensionSchema : String := "axiom-encode/signed-encoding-queue-suspension/v1"
def activationSchema : String := "axiom-encode/signed-encoding-queue-activation/v1"
def maxBatchSize : Int := 4

/-! ## Reading texts -/

/-- A text, as a value. -/
def str (text : String) : Json := .str text.toList

def textOf (raw : Json) : Text := (Json.text? raw).getD []

/-- `isinstance(raw, str) and raw.strip()` -/
def isNonblank (raw : Json) : Bool := !(strip (textOf raw)).isEmpty

def isDigitChar (c : Char) : Bool := '0' ≤ c && c ≤ '9'
def isLowerChar (c : Char) : Bool := 'a' ≤ c && c ≤ 'z'

/-- `SHA_PATTERN` and `DIGEST_PATTERN`: lower hexadecimal digits of one length. -/
def isLowerHex (digits : Nat) (raw : Json) : Bool :=
  match raw with
  | .str text => text.length == digits && text.all fun c => isDigitChar c || ('a' ≤ c && c ≤ 'f')
  | _ => false

/-- `_require_sha` -/
def requireSha (raw : Json) (label : String) : Except QueueError Unit :=
  check (isLowerHex 40 raw) (label ++ " must be a full lowercase commit SHA")

/-- `_require_digest` -/
def requireDigest (raw : Json) (label : String) : Except QueueError Unit :=
  check (isLowerHex 64 raw) (label ++ " must be a lowercase SHA-256 digest")

/-- `[a-z0-9][a-z0-9-]{0,most}` -/
def isSlug (most : Nat) (text : Text) : Bool :=
  match text with
  | [] => false
  | c :: rest =>
    (isLowerChar c || isDigitChar c) && rest.length ≤ most &&
      rest.all fun d => isLowerChar d || isDigitChar d || d == '-'

/-- `[a-z][a-z0-9_-]{0,31}` -/
def isSourceKind (text : Text) : Bool :=
  match text with
  | [] => false
  | c :: rest =>
    isLowerChar c && rest.length ≤ 31 &&
      rest.all fun d => isLowerChar d || isDigitChar d || d == '_' || d == '-'

def isNumeral (text : Text) : Bool := !text.isEmpty && text.all isDigitChar

/-- A numeral after a fixed text. -/
def isNumbered (stem : String) (text : Text) : Bool :=
  stem.toList.isPrefixOf text && isNumeral (text.drop stem.length)

def rulespecPrStem : String := "https://github.com/TheAxiomFoundation/rulespec-us/pull/"
def finalizerRunStem : String := "https://github.com/TheAxiomFoundation/axiom-encode/actions/runs/"

/-- `ITEM_ID_PATTERN`: `[a-z]{2}-[0-9]{4,5}`. -/
def isItemId (text : Text) : Bool :=
  match text with
  | a :: b :: '-' :: digits =>
    isLowerChar a && isLowerChar b && 4 ≤ digits.length && digits.length ≤ 5 &&
      digits.all isDigitChar
  | _ => false

/-- The item pattern of a jurisdiction: what follows its country, then as many digits
as the profile has. -/
def isItemIdOf (width : Nat) (jurisdiction : Text) (id : Text) : Bool :=
  let stem := jurisdiction.drop 3 ++ ['-']
  stem.isPrefixOf id && (id.drop stem.length).length == width &&
    (id.drop stem.length).all isDigitChar

/-- `raw in {…}`: a list or a dictionary is no possible member of a set. -/
def isOneOf (raw : Json) (texts : List String) : Except QueueError Bool :=
  match raw with
  | .str text => .ok (texts.any fun other => other.toList == text)
  | .arr _ => .error .type
  | .obj _ => .error .type
  | _ => .ok false

/-- `isinstance(raw, dict) and set(raw) == {…}`: the members. -/
def exactObject (raw : Json) (fields : List String) : Option Record :=
  match raw with
  | .obj members =>
    if (members.all fun member => fields.any fun field => field.toList == member.1) &&
        fields.all fun field => (Json.get? members field).isSome
    then some members else none
  | _ => none

def recordOf (raw : Json) : Record :=
  match raw with
  | .obj members => members
  | _ => []

def isRecord (raw : Json) : Bool :=
  match raw with
  | .obj _ => true
  | _ => false

/-! ## Profiles -/

structure QueueProfile where
  expectedCounts : List (String × Int)
  issue : Int
  inventory : Json
  itemWidth : Nat
  priorityCitations : List String
  supersedes : Json
  deriving DecidableEq

def expectedCounts : List (String × Int) := [("total", 831), ("us-or", 530), ("us-ut", 301)]

def allStateExpectedCounts : List (String × Int) :=
  [("total", 17784), ("us-ak", 239), ("us-al", 17), ("us-ar", 8), ("us-az", 7), ("us-ca", 15),
    ("us-co", 302), ("us-ct", 279), ("us-dc", 349), ("us-de", 264), ("us-fl", 48), ("us-ga", 100),
    ("us-hi", 20), ("us-ia", 12), ("us-id", 70), ("us-il", 4750), ("us-in", 483), ("us-ks", 255),
    ("us-ky", 2), ("us-la", 346), ("us-ma", 9), ("us-md", 51), ("us-me", 2), ("us-mi", 196),
    ("us-mn", 1353), ("us-mo", 515), ("us-ms", 384), ("us-mt", 83), ("us-nc", 79), ("us-nd", 67),
    ("us-ne", 5), ("us-nh", 1), ("us-nj", 265), ("us-nm", 28), ("us-nv", 51), ("us-ny", 17),
    ("us-oh", 82), ("us-ok", 87), ("us-or", 1322), ("us-pa", 297), ("us-ri", 272), ("us-sc", 459),
    ("us-sd", 339), ("us-tn", 27), ("us-tx", 11), ("us-ut", 655), ("us-va", 677), ("us-vt", 32),
    ("us-wa", 200), ("us-wi", 372), ("us-wv", 2276), ("us-wy", 4)]

def priorityCitations : List String :=
  ["us-ut/manual/dws/eligibility-manual/tables-appendicies-and-charts-tables-appendicies-and-charts-table-2-snap-monthly-income-limits-and-m/block-2",
    "us-or/manual/odhs/open/page-272", "us-or/manual/odhs/open/page-273",
    "us-or/manual/odhs/open/page-274"]

def snapQueueId : String := "us-snap-or-ut-2026-07"
def allStateQueueId : String := "us-snap-all-states-2026-07"

/-- The profile of the Oregon and Utah queue. -/
def snapProfile : QueueProfile where
  expectedCounts
  issue := 1257
  inventory := .null
  itemWidth := 4
  priorityCitations
  supersedes := .null

def allStateProfile : QueueProfile where
  expectedCounts := allStateExpectedCounts
  issue := 1287
  inventory := .obj [("jurisdictions".toList, .int 51),
    ("path".toList, str "manifests/state-snap-manual-agent-queue.yaml"),
    ("sha256".toList, str "23b32cef7957d56b171abe51ed63de6cf22c6c29475ba7a2190b3da4692422b6")]
  itemWidth := 5
  priorityCitations := []
  supersedes := .arr [str snapQueueId]

/-- `_queue_profile` -/
def queueProfile (queueId : Text) : Except QueueError QueueProfile :=
  if queueId = snapQueueId.toList then .ok snapProfile
  else if queueId = allStateQueueId.toList then .ok allStateProfile
  else .error (.value ("unsupported protected SNAP queue: " ++ String.ofList queueId))

def countsJson (counts : List (String × Int)) : Json :=
  .obj (counts.map fun count => (count.1.toList, .int count.2))

/-- `f"{counts}"` -/
def reprCounts (counts : List (String × Int)) : String :=
  "\x7b" ++ String.intercalate ", " (counts.map fun count =>
    "'" ++ count.1 ++ "': " ++ toString count.2) ++ "\x7d"

def QueueProfile.total (profile : QueueProfile) : Int :=
  (profile.expectedCounts.lookup "total").getD 0

def QueueProfile.jurisdictions (profile : QueueProfile) : List String :=
  (profile.expectedCounts.map Prod.fst).filter (· ≠ "total")

/-! ## The head of a queue -/

def validateIssue (profile : QueueProfile) (raw : Json) : Except QueueError Unit :=
  match raw with
  | .int issue => do
    check (0 < issue) "queue issue must be a positive integer"
    check (issue = profile.issue) ("queue issue must be " ++ toString profile.issue)
  | _ => .error (.value "queue issue must be a positive integer")

/-- Schema, queue id, issue, supersession and inventory.  A profile without a
supersession compares as `None`, which a missing member is too. -/
def validateIdentity (payload : Record) : Except QueueError QueueProfile := do
  check (same (value payload "schema") (str queueSchema)) ("queue schema must be " ++ queueSchema)
  let queueId := value payload "queue_id"
  check (isSlug 63 (textOf queueId)) "queue_id is malformed"
  let profile ← queueProfile (textOf queueId)
  validateIssue profile (value payload "issue")
  check (same (value payload "supersedes") profile.supersedes)
    "queue supersession binding is invalid"
  check (same (value payload "inventory") profile.inventory) "queue inventory binding is invalid"
  pure profile

/-- The suspension of a paused queue, if it has one. -/
def validateSuspension (suspension : Json) : Except QueueError Unit :=
  if suspension = .null then .ok ()
  else
    match exactObject suspension ["active_queue_sha256", "schema"] with
    | none => .error (.value "paused queue suspension evidence is malformed")
    | some members => do
      check (same (value members "schema") (str suspensionSchema))
        "paused queue suspension evidence is malformed"
      requireDigest (value members "active_queue_sha256") "suspension active_queue_sha256"

def activationFields : List String :=
  ["check_runs_sha256", "finalizer_head_sha", "finalizer_run_attempt", "finalizer_run_url",
    "previous_queue_object_sha256", "pull_requests_sha256", "rulespec_ref", "schema",
    "workflow_runs_sha256"]

/-- The finalization evidence of an active queue. -/
def validateActivation (payload : Record) (activation : Json) : Except QueueError Unit :=
  match exactObject activation activationFields with
  | none => .error (.value "active queue requires valid finalization evidence")
  | some members => do
    check (same (value members "schema") (str activationSchema) &&
        same (value members "rulespec_ref")
          (value (recordOf (value payload "dispatch")) "rulespec_ref") &&
        isNumbered finalizerRunStem (textOf (value members "finalizer_run_url")) &&
        same (value members "finalizer_run_attempt") (.int 1))
      "active queue requires valid finalization evidence"
    requireSha (value members "finalizer_head_sha") "finalizer_head_sha"
    requireDigest (value members "check_runs_sha256") "check_runs_sha256"
    requireDigest (value members "previous_queue_object_sha256") "previous_queue_object_sha256"
    requireDigest (value members "pull_requests_sha256") "pull_requests_sha256"
    requireDigest (value members "workflow_runs_sha256") "workflow_runs_sha256"

/-- `payload["state"] == state` -/
def hasState (payload : Record) (state : String) : Bool := same (value payload "state") (str state)

theorem hasState_iff {payload : Record} {state : String} :
    hasState payload state = true ↔ value payload "state" = str state := Json.same_str

/-- The state and the evidence it calls for. -/
def validateState (payload : Record) : Except QueueError Unit := do
  let known ← isOneOf (value payload "state") ["active", "paused"]
  check known "queue state must be active or paused"
  if hasState payload "paused" then do
    check (isNonblank (value payload "pause_reason")) "paused queue requires a pause_reason"
    check (value payload "activation" = .null) "paused queue must not have activation evidence"
    validateSuspension (value payload "suspension")
  else do
    check (value payload "pause_reason" = .null) "active queue must not have a pause_reason"
    check (value payload "suspension" = .null) "active queue must not have suspension evidence"
    validateActivation payload (value payload "activation")

def validateRelease (payload : Record) : Except QueueError Unit :=
  match value payload "release" with
  | .obj release => do
    check (isNonblank (value release "name")) "queue release name is missing"
    check (isSlug 127 (textOf (value release "name"))) "queue release name is malformed"
    requireDigest (value release "content_sha256") "release content_sha256"
    requireDigest (value release "manifest_sha256") "release manifest_sha256"
  | _ => .error (.value "queue release binding is missing")

def validateDispatch (payload : Record) : Except QueueError Unit :=
  match value payload "dispatch" with
  | .obj dispatch => do
    check (same (value dispatch "country") (str "us")) "SNAP queue country must be us"
    check (same (value dispatch "pr_base_branch") (str "hard-cut/canonical-layout-us"))
      "SNAP queue PR base branch is not approved"
    check (value dispatch "open_pr" = .bool true) "SNAP queue must publish draft pull requests"
    check (same (value dispatch "max_batch_size") (.int maxBatchSize))
      ("SNAP queue max_batch_size must be " ++ toString maxBatchSize)
    requireSha (value dispatch "corpus_ref") "corpus_ref"
    requireSha (value dispatch "rules_engine_ref") "rules_engine_ref"
    requireSha (value dispatch "rulespec_ref") "rulespec_ref"
  | _ => .error (.value "queue dispatch binding is missing")

/-! ## Items -/

def allowedStatuses : List String :=
  ["blocked", "completed", "no-executable-rule", "pending", "retryable"]
def selectableStatuses : List String := ["pending", "retryable"]
def terminalStatuses : List String := ["blocked", "completed", "no-executable-rule"]

/-- `item["status"] in statuses`, for the status of a valid item. -/
def statusIn (item : Record) (statuses : List String) : Bool :=
  statuses.any fun status => value item "status" = str status

def hasStatus (item : Record) (status : String) : Bool := value item "status" = str status

/-- `item["attempt"]`, for a valid item. -/
def attemptOf (item : Record) : Int :=
  match value item "attempt" with
  | .int attempt => attempt
  | _ => 0

def idOf (item : Record) : Text := textOf (value item "id")

/-- A path of the manifest directory that stays in it. -/
def isManifestPath (raw : Json) : Bool :=
  ".axiom/encoding-manifests/".toList.isPrefixOf (textOf raw) &&
    !((textOf raw).splitOn '/').contains "..".toList

/-- The evidence of a completed item. -/
def validateCompletion (id : String) (evidence : Record) : Except QueueError Unit := do
  check (same (value evidence "type") (str "merged-rulespec-pr") &&
      isNumbered rulespecPrStem (textOf (value evidence "url")))
    ("completed queue item requires a merged RuleSpec PR: " ++ id)
  requireSha (value evidence "merge_commit") (id ++ " evidence merge_commit")
  requireDigest (value evidence "generation_sha256") (id ++ " evidence generation_sha256")
  requireDigest (value evidence "applied_manifest_sha256")
    (id ++ " evidence applied_manifest_sha256")
  requireDigest (value evidence "artifact_metadata_sha256")
    (id ++ " evidence artifact_metadata_sha256")
  requireSha (value evidence "rulespec_pr_head_sha") (id ++ " evidence rulespec_pr_head_sha")
  requireSha (value evidence "target_run_head_sha") (id ++ " evidence target_run_head_sha")
  check (isNumbered finalizerRunStem (textOf (value evidence "target_run_url")) &&
      same (value evidence "target_run_attempt") (.int 1) &&
      isManifestPath (value evidence "applied_manifest_path"))
    ("completed queue item evidence is malformed: " ++ id)

/-- The comment on the queue's issue that another terminal item names. -/
def validateComment (issue : Int) (id status : String) (evidence : Record) :
    Except QueueError Unit :=
  check (same (value evidence "type") (str "issue-comment") &&
      isNumbered ("https://github.com/TheAxiomFoundation/axiom-encode/issues/" ++
        toString issue ++ "#issuecomment-") (textOf (value evidence "url")) &&
      isNonblank (value evidence "note"))
    (status ++ " queue item requires an issue comment and note: " ++ id)

def validateEvidence (issue : Int) (id : String) (item : Record) : Except QueueError Unit :=
  let evidence := value item "evidence"
  if statusIn item terminalStatuses then
    match evidence with
    | .obj members =>
      if hasStatus item "completed" then validateCompletion id members
      else validateComment issue id (String.ofList (textOf (value item "status"))) members
    | _ => .error (.value ("terminal queue item requires durable evidence: " ++ id))
  else check (evidence = .null) ("nonterminal queue item must not have evidence: " ++ id)

/-- `isinstance(attempt, int) and not isinstance(attempt, bool) and attempt > 0` -/
def isAttempt (raw : Json) : Bool :=
  match raw with
  | .int attempt => 0 < attempt
  | _ => false

/-- What the validation of an item leaves for the items after it. -/
structure ItemKeys where
  id : Text
  citation : Text
  jurisdiction : Text
  deriving DecidableEq

/-- One turn of the loop over the items.  Whatever is no text of a jurisdiction is
refused; a character that means something in a pattern is taken literally here. -/
def validateItem (profile : QueueProfile) (seen : List ItemKeys) (sequence : Int) (raw : Json) :
    Except QueueError ItemKeys :=
  match raw with
  | .obj item => do
    let id := idOf item
    let name := String.ofList id
    check (isItemId id) "queue item id is malformed"
    let jurisdiction := textOf (value item "jurisdiction")
    check (isItemIdOf profile.itemWidth jurisdiction id)
      ("queue item id does not match jurisdiction: " ++ name)
    check (!(seen.map ItemKeys.id).contains id) ("duplicate queue item id: " ++ name)
    let known ← isOneOf (value item "jurisdiction") profile.jurisdictions
    check known ("queue item jurisdiction is invalid: " ++ name)
    let citation := textOf (value item "citation")
    check ((jurisdiction ++ ['/']).isPrefixOf citation && !citation.any isSpace)
      ("queue item citation is invalid: " ++ name)
    check (!(seen.map ItemKeys.citation).contains citation)
      ("duplicate queue citation: " ++ String.ofList citation)
    check (same (value item "sequence") (.int sequence))
      ("queue item sequence is invalid: " ++ name)
    check (isAttempt (value item "attempt")) ("queue item attempt is invalid: " ++ name)
    let allowed ← isOneOf (value item "status") allowedStatuses
    check allowed ("queue item status is invalid: " ++ name)
    validateEvidence profile.issue name item
    check (isSourceKind (textOf (value item "source_kind")))
      ("queue item source_kind is invalid: " ++ name)
    check (isNonblank (value item "label")) ("queue item label is missing: " ++ name)
    pure ⟨id, citation, jurisdiction⟩
  | _ => .error (.value "queue item must be an object")

/-- The items from one sequence number on; `seen` holds those before. -/
def validateItems (profile : QueueProfile) :
    List ItemKeys → Int → List Json → Except QueueError (List ItemKeys)
  | seen, _, [] => .ok seen
  | seen, sequence, raw :: rest => do
    let keys ← validateItem profile seen sequence raw
    validateItems profile (seen ++ [keys]) (sequence + 1) rest

/-- The counts of the items, under the names of the profile. -/
def countItems (profile : QueueProfile) (keys : List ItemKeys) : List (String × Int) :=
  profile.expectedCounts.map fun count =>
    (count.1, if count.1 = "total" then (keys.length : Int)
      else ((keys.filter fun item => item.jurisdiction = count.1.toList).length : Int))

/-- The counts and the items. -/
def validateInventory (profile : QueueProfile) (payload : Record) : Except QueueError Unit := do
  check (same (value payload "expected_counts") (countsJson profile.expectedCounts))
    ("SNAP queue expected_counts must be " ++ reprCounts profile.expectedCounts)
  match value payload "items" with
  | .arr items => do
    check ((items.length : Int) = profile.total) "queue item count does not match expected_counts"
    let keys ← validateItems profile [] 1 items
    check (countItems profile keys = profile.expectedCounts)
      ("queue jurisdiction counts drifted: expected " ++ reprCounts profile.expectedCounts ++
        ", got " ++ reprCounts (countItems profile keys))
    check (profile.priorityCitations.isEmpty ||
        (keys.take profile.priorityCitations.length).map ItemKeys.citation =
          profile.priorityCitations.map String.toList)
      "queue priority tranche has drifted"
  | _ => .error (.value "queue items must be a list")

/-- `validate_queue` -/
def validateQueue (payload : Record) : Except QueueError Unit := do
  let profile ← validateIdentity payload
  validateState payload
  validateRelease payload
  validateDispatch payload
  validateInventory profile payload

/-- `payload["items"]`, for a valid queue. -/
def itemsOf (payload : Record) : List Record :=
  match value payload "items" with
  | .arr items => items.map recordOf
  | _ => []

end AxiomEncode.Queue
