/-
# Queue.Transition -- the edits of a queue and the gate of a paused pull request

`recordDisposition` and `pauseQueue` write the next queue; `verifyPausedTransition`
decides whether a paused queue may follow the queue before it.  A queue is paused, gets
its dispositions, may replace its source pins as long as no item was touched, and is
made active again elsewhere.
-/
import AxiomEncode.Queue.Manifest

namespace AxiomEncode.Queue

open Theory
open Theory.Json (value same set pop)

set_option autoImplicit false

/-! ## Dispositions -/

/-- `None` or a text. -/
def optionalText (text : Option Text) : Json := (text.map Json.str).getD .null

/-- The evidence a blocked item or one without a rule is given. -/
def commentEvidence (evidenceUrl note : Option Text) : Json :=
  .obj [("note".toList, optionalText note), ("type".toList, str "issue-comment"),
    ("url".toList, optionalText evidenceUrl)]

/-- The item with its disposition. -/
def disposeItem (status : Text) (evidenceUrl note : Option Text) (item : Record) : Record :=
  let cleared := pop (set item "status" (.str status)) "evidence"
  if status = "retryable".toList then set cleared "attempt" (.int (attemptOf item + 1))
  else set cleared "evidence" (commentEvidence evidenceUrl note)

/-- The items, the one of an id changed in its place. -/
def changeItem (itemId : Text) (change : Record → Record) (items : List Record) : List Record :=
  items.map fun item => if idOf item = itemId then change item else item

def withItems (payload : Record) (items : List Record) : Record :=
  set payload "items" (.arr (items.map Json.obj))

/-- `record_disposition` -/
def recordDisposition (payload : Record) (itemId status : Text) (evidenceUrl note : Option Text) :
    Except QueueError Record := do
  validateQueue payload
  check (["blocked", "no-executable-rule", "retryable"].any fun other => other.toList == status)
    "disposition status must be blocked, no-executable-rule, or retryable"
  let items := itemsOf payload
  check ((items.filter fun item => idOf item = itemId).length = 1)
    "disposition queue item is unavailable"
  let updated := withItems payload (changeItem itemId (disposeItem status evidenceUrl note) items)
  validateQueue updated
  pure updated

/-! ## Pausing -/

def suspensionOf (activeQueueSha256 : Text) : Json :=
  .obj [("active_queue_sha256".toList, .str activeQueueSha256),
    ("schema".toList, str suspensionSchema)]

/-- The paused queue before it is validated. -/
def suspend (payload : Record) (reason activeQueueSha256 : Text) : Record :=
  set (pop (set (set payload "state" (str "paused")) "pause_reason" (.str (strip reason)))
    "activation") "suspension" (suspensionOf activeQueueSha256)

/-- `pause_queue` -/
def pauseQueue (payload : Record) (reason activeQueueSha256 : Text) :
    Except QueueError Record := do
  validateQueue payload
  check (hasState payload "active") "only an active queue can be paused"
  check (!(strip reason).isEmpty) "pause reason must not be empty"
  requireDigest (.str activeQueueSha256) "active_queue_sha256"
  let updated := suspend payload reason activeQueueSha256
  validateQueue updated
  pure updated

/-! ## The gate -/

def trustedFields : List String := ["description", "expected_counts", "issue", "queue_id", "schema"]
def sourcePins : List String := ["corpus_ref", "rules_engine_ref", "rulespec_ref"]
def immutableFields : List String :=
  ["citation", "id", "jurisdiction", "label", "sequence", "source_kind"]

/-- `mapping[key]` -/
def member (mapping : Record) (key : String) : Except QueueError Json :=
  match Json.get? mapping key with
  | some found => .ok found
  | none => .error (.key key)

/-- `queue[field] != previous[field]: raise` -/
def keepField (message : String) (queue previous : Record) (field : String) :
    Except QueueError Unit := do
  let current ← member queue field
  let prior ← member previous field
  check (same current prior) message

def dispatchOf (payload : Record) : Record := recordOf (value payload "dispatch")

/-- The dispatch or the release was replaced. -/
def isToolchainRepin (queue previous : Record) : Bool :=
  !same (value queue "dispatch") (value previous "dispatch") ||
    !same (value queue "release") (value previous "release")

/-- Items that nothing was dispatched for yet. -/
def isPristine (item : Record) : Bool := hasStatus item "pending" && attemptOf item = 1

/-- The conditions of replacing the source pins. -/
def verifyToolchainRepin (queue previous : Record) : Except QueueError Unit := do
  check (hasState previous "paused") "paused queue toolchain repin requires a paused base"
  let policy := (dispatchOf queue).filter fun entry => !sourcePins.any fun pin =>
    pin.toList == entry.1
  policy.forM fun entry =>
    keepField "paused queue toolchain repin changed dispatch policy" (dispatchOf queue)
      (dispatchOf previous) (String.ofList entry.1)
  check (sourcePins.all fun pin =>
      !same (value (dispatchOf queue) pin) (value (dispatchOf previous) pin))
    "paused queue toolchain repin must replace every source pin"
  check (!same (value queue "release") (value previous "release"))
    "paused queue toolchain repin must replace the signed release"
  check (value queue "suspension" = .null && value previous "suspension" = .null)
    "suspended queue cannot use a pristine toolchain repin"
  check (same (value queue "items") (value previous "items") && (itemsOf queue).all isPristine)
    "paused queue toolchain repin requires pristine items"

/-- One item against the item of the same id before. -/
def verifyItem (prior current : Record) : Except QueueError Unit := do
  let id := String.ofList (idOf current)
  immutableFields.forM
    (keepField ("paused queue transition rewrote item " ++ id) current prior)
  check (!(hasStatus current "completed" && !hasStatus prior "completed"))
    ("paused queue transition cannot complete item " ++ id)
  check (!(statusIn prior terminalStatuses && !same (.obj current) (.obj prior)))
    ("paused queue transition rewrote terminal item " ++ id)
  check (attemptOf prior ≤ attemptOf current)
    ("paused queue transition decreased attempt for item " ++ id)
  check (attemptOf current ≤ attemptOf prior + 1)
    ("paused queue transition skipped an attempt for item " ++ id)
  check (!(attemptOf current = attemptOf prior + 1 && !hasStatus current "retryable"))
    ("paused queue transition changed attempt without retrying " ++ id)
  check (!(hasStatus current "retryable" && !same (.obj current) (.obj prior) &&
      attemptOf current ≠ attemptOf prior + 1))
    ("paused queue transition retried " ++ id ++ " without a new attempt")

def itemOfId (items : List Record) (id : Text) : Option Record :=
  items.find? fun item => idOf item = id

/-- The items against the items before, which are the same by their ids. -/
def verifyItems (previous current : List Record) : Except QueueError Unit := do
  let ids := previous.map idOf
  let currentIds := current.map idOf
  check (ids.all currentIds.contains && currentIds.all ids.contains)
    "paused queue transition changed the item inventory"
  current.forM fun item =>
    match itemOfId previous (idOf item) with
    | some prior => verifyItem prior item
    | none => .error (.key (String.ofList (idOf item)))

/-- `verify_paused_transition`, over the two decoded files and the digest of the
previous one. -/
def verifyPausedTransition (queue previous : Record) (previousFileSha256 : Text) :
    Except QueueError Unit := do
  validateQueue queue
  validateQueue previous
  check (hasState queue "paused") "paused transition verification requires a paused queue"
  trustedFields.forM fun field =>
    keepField ("paused queue transition changed trusted field " ++ field) queue previous field
  whenever (isToolchainRepin queue previous) (verifyToolchainRepin queue previous)
  check (!(hasState previous "paused" &&
      !same (value queue "suspension") (value previous "suspension")))
    "paused queue transition changed suspension evidence"
  verifyItems (itemsOf previous) (itemsOf queue)
  whenever (hasState previous "active") do
    let expected ← pauseQueue previous (textOf (value queue "pause_reason")) previousFileSha256
    check (same (.obj queue) (.obj expected))
      "active queue pause transition changed queue items or trust"

end AxiomEncode.Queue
