/-
# Queue.TransitionSpec -- the edits the gate admits

`PausedStep` says what a queue that passes the gate has kept of the queue before it, and
`ItemStep` what one of its items has.  A disposition passes unless it rewrites a terminal
item, and a pause passes; both need a description, which validity does not ask for and
the gate reads.
-/
import AxiomEncode.Queue.ManifestSpec

namespace AxiomEncode.Queue

open Theory
open Theory.Json (value same set pop)

set_option autoImplicit false

/-! ## What passes the gate -/

/-- The field is there in both and equal. -/
def Kept (queue previous : Record) (field : String) : Prop :=
  ∃ current prior, Json.get? queue field = some current ∧ Json.get? previous field = some prior ∧
    same current prior = true

variable {queue previous : Record} {field key : String} {u : Unit} {items : List Record}

theorem Kept.refl (present : (Json.get? queue field).isSome = true) : Kept queue queue field := by
  obtain ⟨found, here⟩ := Option.isSome_iff_exists.mp present
  exact ⟨found, found, here, here, Json.same_refl found⟩

theorem Kept.normal_eq (kept : Kept queue previous field) :
    Json.normal (value queue field) = Json.normal (value previous field) := by
  obtain ⟨current, prior, here, there, equal⟩ := kept
  rw [value, value, here, there]
  exact Json.same_iff.mp equal

theorem member_eq_ok_iff {mapping : Record} {found : Json} :
    member mapping key = .ok found ↔ Json.get? mapping key = some found := by
  unfold member
  cases Json.get? mapping key <;> simp

theorem keepField_eq_ok_iff {message : String} :
    keepField message queue previous field = .ok u ↔ Kept queue previous field := by
  simp only [keepField, bind_eq_ok_iff, member_eq_ok_iff, check_eq_ok_iff, Kept]
  refine exists_congr fun _ => ⟨?_, ?_⟩
  · rintro ⟨here, prior, there, equal⟩
    exact ⟨prior, here, there, equal⟩
  · rintro ⟨prior, here, there, equal⟩
    exact ⟨here, prior, there, equal⟩

/-- What an item that passes has kept of the item before. -/
structure ItemStep (prior current : Record) : Prop where
  kept : ∀ field ∈ immutableFields, Kept current prior field
  completion : hasStatus current "completed" = true → hasStatus prior "completed" = true
  terminal : statusIn prior terminalStatuses = true → same (.obj current) (.obj prior) = true
  grows : attemptOf prior ≤ attemptOf current
  stepwise : attemptOf current ≤ attemptOf prior + 1
  retries : attemptOf current = attemptOf prior + 1 → hasStatus current "retryable" = true
  retried : hasStatus current "retryable" = true → same (.obj current) (.obj prior) = false →
    attemptOf current = attemptOf prior + 1

theorem not_and_not_eq_true {a b : Bool} : (!(a && !b)) = true ↔ (a = true → b = true) := by
  cases a <;> cases b <;> simp

theorem verifyItem_eq_ok_iff {prior current : Record} :
    verifyItem prior current = .ok u ↔ ItemStep prior current := by
  simp only [verifyItem, bind_eq_ok_iff, check_eq_ok_iff, forM_eq_ok_iff, keepField_eq_ok_iff,
    exists_const, not_and_not_eq_true, decide_eq_true_eq]
  constructor
  · rintro ⟨kept, completion, terminal, grows, stepwise, retries, retried⟩
    refine ⟨kept, completion, terminal, grows, stepwise, retries, ?_⟩
    intro retryable changed
    simpa [retryable, changed] using retried
  · rintro ⟨kept, completion, terminal, grows, stepwise, retries, retried⟩
    refine ⟨kept, completion, terminal, grows, stepwise, retries, ?_⟩
    cases retryable : hasStatus current "retryable" with
    | false => rfl
    | true =>
      cases changed : same (.obj current) (.obj prior) with
      | true => rfl
      | false => simp [retried retryable changed]

theorem ItemStep.refl {item : Record}
    (present : ∀ field ∈ immutableFields, (Json.get? item field).isSome = true) :
    ItemStep item item where
  kept field listed := .refl (present field listed)
  completion := id
  terminal _ := Json.same_refl _
  grows := Int.le_refl _
  stepwise := by omega
  retries grown := by omega
  retried _ changed := by simp at changed

theorem itemOfId_of_mem {item : Record} (ids : (items.map idOf).Nodup) (listed : item ∈ items) :
    itemOfId items (idOf item) = some item := by
  cases found : itemOfId items (idOf item) with
  | none => simpa using List.find?_eq_none.mp found item listed
  | some other =>
    have same := List.find?_some found
    rw [decide_eq_true_eq] at same
    rw [List.inj_on_of_nodup_map ids (List.mem_of_find?_eq_some found) listed same]

theorem verifyItems_eq_ok_iff {previous current : List Record} :
    verifyItems previous current = .ok u ↔
      (∀ id, id ∈ previous.map idOf ↔ id ∈ current.map idOf) ∧
        ∀ item ∈ current, ∃ prior, itemOfId previous (idOf item) = some prior ∧
          ItemStep prior item := by
  simp only [verifyItems, bind_eq_ok_iff, check_eq_ok_iff, exists_const, forM_eq_ok_iff,
    Bool.and_eq_true, List.all_eq_true, List.contains_iff_mem]
  refine and_congr ⟨fun ids id => ⟨ids.1 id, ids.2 id⟩,
    fun ids => ⟨fun id => (ids id).mp, fun id => (ids id).mpr⟩⟩ ?_
  refine forall_congr' fun item => imp_congr_right fun _ => ?_
  cases itemOfId previous (idOf item) with
  | none => simp
  | some prior => simp [verifyItem_eq_ok_iff]

/-- What a queue that passes the gate has kept of the queue before it. -/
structure PausedStep (previousFileSha256 : Text) (previous queue : Record) : Prop where
  valid : validateQueue queue = .ok ()
  validBefore : validateQueue previous = .ok ()
  paused : hasState queue "paused" = true
  trusted : ∀ field ∈ trustedFields, Kept queue previous field
  repin : isToolchainRepin queue previous = true → verifyToolchainRepin queue previous = .ok ()
  suspension : hasState previous "paused" = true →
    same (value queue "suspension") (value previous "suspension") = true
  items : verifyItems (itemsOf previous) (itemsOf queue) = .ok ()
  pauses : hasState previous "active" = true → ∃ expected,
    pauseQueue previous (textOf (value queue "pause_reason")) previousFileSha256 = .ok expected ∧
      same (.obj queue) (.obj expected) = true

theorem verifyPausedTransition_eq_ok_iff {previousFileSha256 : Text} :
    verifyPausedTransition queue previous previousFileSha256 = .ok u ↔
      PausedStep previousFileSha256 previous queue := by
  simp only [verifyPausedTransition, bind_eq_ok_iff, check_eq_ok_iff, forM_eq_ok_iff,
    keepField_eq_ok_iff, exists_const, whenever_eq_ok_iff, not_and_not_eq_true]
  constructor
  · rintro ⟨_, valid, _, validBefore, paused, trusted, repin, suspension, _, items, pauses⟩
    exact ⟨valid, validBefore, paused, trusted, repin, suspension, items, pauses⟩
  · rintro ⟨valid, validBefore, paused, trusted, repin, suspension, items, pauses⟩
    exact ⟨(), valid, (), validBefore, paused, trusted, repin, suspension, (), items, pauses⟩

/-! ## Dispositions -/

section Disposition

variable {payload item : Record} {itemId status : Text} {evidenceUrl note : Option Text}

def dispositionStatuses : List String := ["blocked", "no-executable-rule", "retryable"]

/-- The item has this disposition already. -/
def repeatsDisposition (status : Text) (evidenceUrl note : Option Text) (item : Record) : Bool :=
  value item "status" = .str status &&
    same (value item "evidence") (commentEvidence evidenceUrl note)

theorem get?_disposeItem (notStatus : key ≠ "status") (notEvidence : key ≠ "evidence")
    (notAttempt : key ≠ "attempt") :
    Json.get? (disposeItem status evidenceUrl note item) key = Json.get? item key := by
  unfold disposeItem
  split
  · rw [Json.get?_set_ne notAttempt, Json.get?_pop_ne notEvidence, Json.get?_set_ne notStatus]
  · rw [Json.get?_set_ne notEvidence, Json.get?_pop_ne notEvidence, Json.get?_set_ne notStatus]

theorem idOf_disposeItem : idOf (disposeItem status evidenceUrl note item) = idOf item := by
  rw [idOf, idOf, Json.value_congr (get?_disposeItem (by decide) (by decide) (by decide))]

theorem get?_disposeItem_status :
    Json.get? (disposeItem status evidenceUrl note item) "status" = some (.str status) := by
  unfold disposeItem
  split
  · rw [Json.get?_set_ne (by decide), Json.get?_pop_ne (by decide), Json.get?_set_self]
  · rw [Json.get?_set_ne (by decide), Json.get?_pop_ne (by decide), Json.get?_set_self]

theorem value_disposeItem_status :
    value (disposeItem status evidenceUrl note item) "status" = .str status := by
  rw [value, get?_disposeItem_status]
  rfl

theorem get?_disposeItem_evidence (settles : status ≠ "retryable".toList) :
    Json.get? (disposeItem status evidenceUrl note item) "evidence" =
      some (commentEvidence evidenceUrl note) := by
  rw [disposeItem, if_neg settles, Json.get?_set_self]

theorem get?_disposeItem_attempt (settles : status ≠ "retryable".toList) :
    Json.get? (disposeItem status evidenceUrl note item) "attempt" =
      Json.get? item "attempt" := by
  rw [disposeItem, if_neg settles, Json.get?_set_ne (by decide), Json.get?_pop_ne (by decide),
    Json.get?_set_ne (by decide)]

theorem attemptOf_disposeItem :
    attemptOf (disposeItem status evidenceUrl note item) =
      if status = "retryable".toList then attemptOf item + 1 else attemptOf item := by
  split
  next retry =>
    rw [attemptOf, disposeItem, if_pos retry, Json.value_set_self]
  next settles =>
    rw [attemptOf, attemptOf, Json.value_congr (get?_disposeItem_attempt settles)]

/-- A disposition that an item has already leaves it as it is. -/
theorem same_disposeItem (settles : status ≠ "retryable".toList)
    (again : repeatsDisposition status evidenceUrl note item = true) :
    same (.obj (disposeItem status evidenceUrl note item)) (.obj item) = true := by
  simp only [repeatsDisposition, Bool.and_eq_true, decide_eq_true_eq] at again
  have held : ∀ {key : String} {found : Json}, value item key = found → found ≠ .null →
      Json.get? item key = some found := by
    intro key found here there
    obtain ⟨own, isOwn⟩ := Option.isSome_iff_exists.mp (isSome_of_value (here ▸ there))
    rw [value, isOwn] at here
    rw [isOwn, ← here]
    rfl
  rw [Json.same_obj_iff_get?]
  intro key
  by_cases isStatus : key = "status"
  · rw [isStatus, get?_disposeItem_status, held again.1 Json.noConfusion]
  · by_cases isEvidence : key = "evidence"
    · have equal := Json.same_iff.mp again.2
      have there : value item "evidence" ≠ .null := by
        intro none_
        rw [none_, eq_comm] at equal
        exact Json.noConfusion (Json.normal_eq_null.mp (equal.trans (by simp [Json.normal])))
      rw [isEvidence, get?_disposeItem_evidence settles, held rfl there, Option.map_some,
        Option.map_some, equal]
    · by_cases isAttempt : key = "attempt"
      · rw [isAttempt, get?_disposeItem_attempt settles]
      · rw [get?_disposeItem isStatus isEvidence isAttempt]

theorem statusIn_iff {statuses : List String} :
    statusIn item statuses = true ↔ ∃ other ∈ statuses, value item "status" = str other := by
  simp only [statusIn, List.any_eq_true, decide_eq_true_eq]

/-- The gate admits a disposed item unless it rewrites a terminal one. -/
theorem itemStep_disposeItem_iff
    (present : ∀ field ∈ immutableFields, (Json.get? item field).isSome = true)
    (allowed : ∃ other ∈ dispositionStatuses, other.toList = status) :
    ItemStep item (disposeItem status evidenceUrl note item) ↔
      statusIn item terminalStatuses = false ∨
        repeatsDisposition status evidenceUrl note item = true := by
  -- a terminal item that already has the status is not to be retried
  have settled : value item "status" = .str status → statusIn item terminalStatuses = true →
      status ≠ "retryable".toList := by
    intro here terminal retry
    obtain ⟨other, listed, there⟩ := statusIn_iff.mp terminal
    rw [here, retry] at there
    have equal : "retryable".toList = other.toList := Json.str.inj there
    rw [String.toList_inj] at equal
    rw [← equal] at listed
    exact absurd listed (by decide)
  constructor
  · intro step
    by_cases terminal : statusIn item terminalStatuses = true
    · have equal := step.terminal terminal
      have here : value item "status" = .str status := by
        have both := @Json.same_value _ _ "status" equal
        rw [value_disposeItem_status] at both
        exact Json.normal_eq_str.mp (both.symm.trans (by simp [Json.normal]))
      have evidence := @Json.same_value _ _ "evidence" equal
      rw [value, get?_disposeItem_evidence (settled here terminal), Option.getD_some] at evidence
      refine .inr ?_
      rw [repeatsDisposition, Bool.and_eq_true, decide_eq_true_eq]
      exact ⟨here, Json.same_iff.mpr evidence.symm⟩
    · exact .inl (Bool.not_eq_true _ ▸ terminal)
  · intro admitted
    refine ⟨?_, ?_, ?_, ?_, ?_, ?_, ?_⟩
    · intro field listed
      obtain ⟨found, here⟩ := Option.isSome_iff_exists.mp (present field listed)
      have apart : field ≠ "status" ∧ field ≠ "evidence" ∧ field ≠ "attempt" := by
        simp only [immutableFields, List.mem_cons, List.not_mem_nil, or_false] at listed
        rcases listed with rfl | rfl | rfl | rfl | rfl | rfl <;> decide
      exact ⟨found, found, (get?_disposeItem apart.1 apart.2.1 apart.2.2).trans here, here,
        Json.same_refl found⟩
    · intro completed
      rw [hasStatus, value_disposeItem_status, decide_eq_true_eq] at completed
      obtain ⟨other, listed, rfl⟩ := allowed
      have equal : other.toList = "completed".toList := Json.str.inj completed
      rw [String.toList_inj.mp equal] at listed
      exact absurd listed (by decide)
    · intro terminal
      rcases admitted with open_ | again
      · rw [open_] at terminal
        cases terminal
      · have here : value item "status" = .str status := by
          simp only [repeatsDisposition, Bool.and_eq_true, decide_eq_true_eq] at again
          exact again.1
        exact same_disposeItem (settled here terminal) again
    · rw [attemptOf_disposeItem]
      split <;> omega
    · rw [attemptOf_disposeItem]
      split <;> omega
    · intro grown
      rw [attemptOf_disposeItem] at grown
      split at grown
      next retry => rw [hasStatus, value_disposeItem_status, retry, decide_eq_true_eq]; rfl
      next => omega
    · intro retryable _
      rw [hasStatus, value_disposeItem_status, decide_eq_true_eq] at retryable
      rw [attemptOf_disposeItem, if_pos (Json.str.inj retryable)]

end Disposition

/-! ## The queue around the items -/

section Queue

variable {profile : QueueProfile} {payload updated : Record} {itemId status : Text}
  {evidenceUrl note : Option Text}

/-- With the trusted members left alone, the gate asks for the description only. -/
theorem trusted_iff (valid : ValidQueue profile payload)
    (alone : ∀ field ∈ trustedFields, Json.get? updated field = Json.get? payload field) :
    (∀ field ∈ trustedFields, Kept updated payload field) ↔
      (Json.get? payload "description").isSome = true := by
  constructor
  · intro trusted
    obtain ⟨-, prior, -, there, -⟩ := trusted "description" List.mem_cons_self
    rw [there]
    rfl
  · intro described field listed
    have present : (Json.get? payload field).isSome = true := by
      rcases List.mem_cons.mp listed with rfl | other
      · exact described
      · exact valid.present field other
    obtain ⟨found, here⟩ := Option.isSome_iff_exists.mp present
    exact ⟨found, found, (alone field listed).trans here, here, Json.same_refl found⟩

theorem isToolchainRepin_eq_false (dispatch : value updated "dispatch" = value payload "dispatch")
    (release : value updated "release" = value payload "release") :
    isToolchainRepin updated payload = false := by
  rw [isToolchainRepin, dispatch, release, Json.same_refl, Json.same_refl]
  rfl

theorem itemsOf_withItems : itemsOf (withItems payload items) = items :=
  itemsOf_of_value Json.value_set_self

/-- Changed in place, each item is held against itself. -/
theorem verifyItems_changeItem_iff (itemId : Text) {change : Record → Record}
    (ids : (items.map idOf).Nodup) (keeps : ∀ item, idOf (change item) = idOf item)
    (present : ∀ item ∈ items, ∀ field ∈ immutableFields, (Json.get? item field).isSome = true) :
    verifyItems items (changeItem itemId change items) = .ok () ↔
      ∀ item ∈ items, idOf item = itemId → ItemStep item (change item) := by
  have sameId : ∀ item, idOf (if idOf item = itemId then change item else item) = idOf item := by
    intro item
    split
    · exact keeps item
    · rfl
  have sameIds : (changeItem itemId change items).map idOf = items.map idOf := by
    rw [changeItem, List.map_map]
    exact List.map_congr_left fun item _ => sameId item
  rw [verifyItems_eq_ok_iff, sameIds, changeItem, List.forall_mem_map]
  simp only [sameId, iff_self, implies_true, true_and]
  refine forall_congr' fun item => imp_congr_right fun listed => ?_
  rw [itemOfId_of_mem ids listed]
  simp only [Option.some.injEq, exists_eq_left']
  by_cases target : idOf item = itemId
  · simp [target]
  · simp [target, ItemStep.refl (present item listed)]

theorem ValidQueue.itemsPresent (valid : ValidQueue profile payload) :
    ∀ item ∈ itemsOf payload, ∀ field ∈ immutableFields, (Json.get? item field).isSome = true := by
  intro item listed
  obtain ⟨own, checks⟩ := valid.each.mem listed
  exact checks.present

theorem hasState_exclusive {payload : Record} (active : hasState payload "active" = true) :
    hasState payload "paused" = false := by
  rw [hasState_iff] at active
  rw [Bool.eq_false_iff, Ne, hasState_iff, active]
  decide

/-- A recorded disposition, taken apart. -/
theorem recordDisposition_eq_ok_iff :
    recordDisposition payload itemId status evidenceUrl note = .ok updated ↔
      validateQueue payload = .ok () ∧
      (∃ other ∈ dispositionStatuses, other.toList = status) ∧
      ((itemsOf payload).filter fun item => idOf item = itemId).length = 1 ∧
      updated = withItems payload
        (changeItem itemId (disposeItem status evidenceUrl note) (itemsOf payload)) ∧
      validateQueue updated = .ok () := by
  simp only [recordDisposition, bind_eq_ok_iff, check_eq_ok_iff, exists_const,
    List.any_eq_true, beq_iff_eq, decide_eq_true_eq]
  constructor
  · rintro ⟨_, valid, allowed, one, _, validAfter, last⟩
    cases Except.ok.inj last
    exact ⟨valid, allowed, one, rfl, validAfter⟩
  · rintro ⟨valid, allowed, one, rfl, validAfter⟩
    exact ⟨(), valid, allowed, one, (), validAfter, rfl⟩

/-- The gate admits a recorded disposition exactly when the queue has a description and
the item was not terminal, or had the very disposition. -/
theorem verify_recordDisposition_iff (paused : hasState payload "paused" = true)
    (recorded : recordDisposition payload itemId status evidenceUrl note = .ok updated)
    (previousFileSha256 : Text) :
    verifyPausedTransition updated payload previousFileSha256 = .ok () ↔
      (Json.get? payload "description").isSome = true ∧
        ∀ item ∈ itemsOf payload, idOf item = itemId →
          statusIn item terminalStatuses = false ∨
            repeatsDisposition status evidenceUrl note item = true := by
  obtain ⟨validated, allowed, -, rfl, validatedAfter⟩ := recordDisposition_eq_ok_iff.mp recorded
  obtain ⟨profile, valid⟩ := validateQueue_eq_ok_iff.mp validated
  have elsewhere : ∀ {field : String}, field ≠ "items" →
      Json.get? (withItems payload (changeItem itemId (disposeItem status evidenceUrl note)
        (itemsOf payload))) field = Json.get? payload field := fun apart => Json.get?_set_ne apart
  have values : ∀ {field : String}, field ≠ "items" →
      value (withItems payload (changeItem itemId (disposeItem status evidenceUrl note)
        (itemsOf payload))) field = value payload field := fun apart => Json.value_set_ne apart
  have alone : ∀ field ∈ trustedFields, field ≠ "items" := by decide
  have keeps : ∀ item, idOf (disposeItem status evidenceUrl note item) = idOf item :=
    fun _ => idOf_disposeItem
  have items := verifyItems_changeItem_iff itemId valid.ids keeps valid.itemsPresent
  have steps : ∀ item ∈ itemsOf payload,
      (ItemStep item (disposeItem status evidenceUrl note item) ↔
        statusIn item terminalStatuses = false ∨
          repeatsDisposition status evidenceUrl note item = true) :=
    fun item listed => itemStep_disposeItem_iff (valid.itemsPresent item listed) allowed
  rw [verifyPausedTransition_eq_ok_iff, ← trusted_iff valid fun field listed =>
    elsewhere (alone field listed)]
  constructor
  · intro step
    refine ⟨step.trusted, fun item listed target => (steps item listed).mp ?_⟩
    have checked := step.items
    rw [itemsOf_withItems] at checked
    exact items.mp checked item listed target
  · rintro ⟨trusted, admitted⟩
    refine ⟨validatedAfter, validated, ?_, trusted, ?_, ?_, ?_, ?_⟩
    · rw [hasState, values (by decide)]
      exact paused
    · rw [isToolchainRepin_eq_false (values (by decide)) (values (by decide))]
      exact nofun
    · intro _
      rw [values (by decide)]
      exact Json.same_refl _
    · rw [itemsOf_withItems]
      exact items.mpr fun item listed target => (steps item listed).mpr (admitted item listed target)
    · intro active
      rw [hasState_exclusive active] at paused
      cases paused

end Queue

/-! ## Pausing -/

section Pause

variable {profile : QueueProfile} {payload updated : Record} {reason activeQueueSha256 : Text}

def stateFields : List String := ["state", "pause_reason", "activation", "suspension"]

theorem get?_suspend (apart : key ∉ stateFields) :
    Json.get? (suspend payload reason activeQueueSha256) key = Json.get? payload key := by
  simp only [stateFields, List.mem_cons, List.not_mem_nil, or_false, not_or] at apart
  obtain ⟨state, pauseReason, activation, suspension⟩ := apart
  rw [suspend, Json.get?_set_ne suspension, Json.get?_pop_ne activation,
    Json.get?_set_ne pauseReason, Json.get?_set_ne state]

theorem value_suspend (key : String) (apart : key ∉ stateFields) :
    value (suspend payload reason activeQueueSha256) key = value payload key :=
  Json.value_congr (get?_suspend apart)

theorem value_suspend_state :
    value (suspend payload reason activeQueueSha256) "state" = str "paused" := by
  rw [suspend, Json.value_set_ne (by decide), Json.value_pop_ne (by decide),
    Json.value_set_ne (by decide), Json.value_set_self]

theorem value_suspend_pauseReason :
    value (suspend payload reason activeQueueSha256) "pause_reason" = .str (strip reason) := by
  rw [suspend, Json.value_set_ne (by decide), Json.value_pop_ne (by decide), Json.value_set_self]

theorem value_suspend_activation :
    value (suspend payload reason activeQueueSha256) "activation" = .null := by
  rw [suspend, Json.value_set_ne (by decide), Json.value_pop_self]

theorem value_suspend_suspension :
    value (suspend payload reason activeQueueSha256) "suspension" =
      suspensionOf activeQueueSha256 := by
  rw [suspend, Json.value_set_self]

theorem itemsOf_suspend : itemsOf (suspend payload reason activeQueueSha256) = itemsOf payload := by
  rw [itemsOf, itemsOf, value_suspend "items" (by decide)]

/-- The state of a suspended queue is valid. -/
theorem validateState_suspend (nonblank : (strip reason).isEmpty = false)
    (digest : isLowerHex 64 (.str activeQueueSha256) = true) :
    validateState (suspend payload reason activeQueueSha256) = .ok () := by
  have paused : hasState (suspend payload reason activeQueueSha256) "paused" = true :=
    hasState_iff.mpr value_suspend_state
  have evidence : validateSuspension (suspensionOf activeQueueSha256) = .ok () := by
    have members : exactObject (suspensionOf activeQueueSha256)
        ["active_queue_sha256", "schema"] = some
          [("active_queue_sha256".toList, .str activeQueueSha256),
            ("schema".toList, str suspensionSchema)] := rfl
    rw [validateSuspension, if_neg nofun, members]
    refine bind_eq_ok_iff.mpr ⟨(), check_eq_ok_iff.mpr (Json.same_refl _), ?_⟩
    exact check_eq_ok_iff.mpr digest
  rw [validateState, value_suspend_state, paused, value_suspend_pauseReason,
    value_suspend_activation, value_suspend_suspension]
  refine bind_eq_ok_iff.mpr ⟨true, rfl, bind_eq_ok_iff.mpr ⟨(), rfl, ?_⟩⟩
  refine bind_eq_ok_iff.mpr ⟨(), check_eq_ok_iff.mpr ?_, bind_eq_ok_iff.mpr ⟨(), rfl, evidence⟩⟩
  change (!(strip (strip reason)).isEmpty) = true
  rw [strip_strip, nonblank]
  rfl

theorem ValidQueue.suspend (valid : ValidQueue profile payload)
    (nonblank : (strip reason).isEmpty = false)
    (digest : isLowerHex 64 (.str activeQueueSha256) = true) :
    ValidQueue profile (suspend payload reason activeQueueSha256) where
  identity := by
    rw [validateIdentity, value_suspend "schema" (by decide), value_suspend "queue_id" (by decide),
      value_suspend "issue" (by decide), value_suspend "supersedes" (by decide),
      value_suspend "inventory" (by decide)]
    exact valid.identity
  state := validateState_suspend nonblank digest
  release := by
    rw [validateRelease, value_suspend "release" (by decide)]
    exact valid.release
  dispatch := by
    rw [validateDispatch, value_suspend "dispatch" (by decide)]
    exact valid.dispatch
  counts := by
    rw [value_suspend "expected_counts" (by decide)]
    exact valid.counts
  items := by
    rw [value_suspend "items" (by decide), itemsOf_suspend]
    exact valid.items
  total := by
    rw [itemsOf_suspend]
    exact valid.total
  each := by
    rw [itemsOf_suspend]
    exact valid.each
  ids := by
    rw [itemsOf_suspend]
    exact valid.ids
  citations := by
    rw [itemsOf_suspend]
    exact valid.citations
  counted := by
    rw [itemsOf_suspend]
    exact valid.counted
  priority := by
    rw [itemsOf_suspend]
    exact valid.priority

/-- An active queue pauses, and the paused queue is valid. -/
theorem pauseQueue_eq_ok_iff :
    pauseQueue payload reason activeQueueSha256 = .ok updated ↔
      validateQueue payload = .ok () ∧ hasState payload "active" = true ∧
        (strip reason).isEmpty = false ∧ isLowerHex 64 (.str activeQueueSha256) = true ∧
        updated = Queue.suspend payload reason activeQueueSha256 := by
  simp only [pauseQueue, bind_eq_ok_iff, check_eq_ok_iff, exists_const, Bool.not_eq_true',
    requireDigest]
  constructor
  · rintro ⟨_, valid, active, nonblank, digest, _, _, last⟩
    exact ⟨valid, active, nonblank, digest, (Except.ok.inj last).symm⟩
  · rintro ⟨validated, active, nonblank, digest, rfl⟩
    obtain ⟨profile, valid⟩ := validateQueue_eq_ok_iff.mp validated
    exact ⟨(), validated, active, nonblank, digest, (),
      validateQueue_eq_ok_iff.mpr ⟨profile, valid.suspend nonblank digest⟩, rfl⟩

theorem verifyItems_refl (valid : ValidQueue profile payload) :
    verifyItems (itemsOf payload) (itemsOf payload) = .ok () :=
  verifyItems_eq_ok_iff.mpr ⟨fun _ => Iff.rfl, fun item listed =>
    ⟨item, itemOfId_of_mem valid.ids listed, .refl (valid.itemsPresent item listed)⟩⟩

/-- The gate admits a pause exactly when the queue has a description. -/
theorem verify_pauseQueue_iff (pauses : pauseQueue payload reason activeQueueSha256 = .ok updated) :
    verifyPausedTransition updated payload activeQueueSha256 = .ok () ↔
      (Json.get? payload "description").isSome = true := by
  obtain ⟨validated, active, nonblank, digest, rfl⟩ := pauseQueue_eq_ok_iff.mp pauses
  obtain ⟨profile, valid⟩ := validateQueue_eq_ok_iff.mp validated
  have alone : ∀ field ∈ trustedFields, field ∉ stateFields := by decide
  rw [verifyPausedTransition_eq_ok_iff, ← trusted_iff valid fun field listed =>
    get?_suspend (alone field listed)]
  refine ⟨fun step => step.trusted, fun trusted => ?_⟩
  refine ⟨validateQueue_eq_ok_iff.mpr ⟨profile, valid.suspend nonblank digest⟩, validated,
    hasState_iff.mpr value_suspend_state, trusted, ?_, ?_, ?_, fun _ => ⟨_, ?_, Json.same_refl _⟩⟩
  · rw [isToolchainRepin_eq_false (value_suspend "dispatch" (by decide))
      (value_suspend "release" (by decide))]
    exact nofun
  · intro paused
    rw [hasState_exclusive active] at paused
    cases paused
  · rw [itemsOf_suspend]
    exact verifyItems_refl valid
  · rw [value_suspend_pauseReason]
    refine pauseQueue_eq_ok_iff.mpr ⟨validated, active, ?_, digest, ?_⟩
    · change (strip (strip reason)).isEmpty = false
      rw [strip_strip]
      exact nonblank
    · change _ = Queue.suspend payload (strip reason) activeQueueSha256
      rw [Queue.suspend, Queue.suspend, strip_strip]

end Pause

end AxiomEncode.Queue
