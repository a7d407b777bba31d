/-
# Queue.FinalizeSpec -- what finalization changes

A queue that was finalized is active at a tip after the old base.  Every item is as it
was, or it was selectable and is completed with the generation it had in the queue that
was finalized.
-/
import AxiomEncode.Queue.Finalize
import AxiomEncode.Queue.TransitionSpec

namespace AxiomEncode.Queue

open Theory
open Theory.Json (value same set pop)

set_option autoImplicit false

section

variable {host : Host} {payload : Record} {request : Finalization}

/-! ## Decisions -/

/-- The members that a decision is made in. -/
def decisionFields : List String := ["dispatchable", "reason", "history_url", "target_run_url"]

variable {item decision item' : Record} {key : String} {runs : List Record}

theorem get?_decided {dispatchable : Bool} {reason : Text} {historyUrl : Json}
    (apart : key ∉ decisionFields) :
    Json.get? (decided item dispatchable reason historyUrl) key = Json.get? item key := by
  simp only [decisionFields, List.mem_cons, List.not_mem_nil, or_false, not_or] at apart
  rw [decided, Json.get?_set_ne apart.2.2.1, Json.get?_set_ne apart.2.1, Json.get?_set_ne apart.1]

theorem get?_decideByRun {latest : Option Record} (apart : key ∉ decisionFields) :
    Json.get? (decideByRun host item latest) key = Json.get? item key := by
  cases latest with
  | none => exact get?_decided apart
  | some run => exact get?_decided apart

theorem newestFirst_perm (field : String) (records : List Record) :
    (newestFirst host field records).Perm records :=
  List.perm_insertionSort _ records

/-- A decision is the item and what was decided. -/
theorem get?_decideItem {matching : List Record} {runMarker : Text} (apart : key ∉ decisionFields) :
    Json.get? (decideItem host item matching runs runMarker) key = Json.get? item key := by
  unfold decideItem
  dsimp only
  split
  · have notTarget : key ≠ "target_run_url" := by
      rintro rfl
      exact apart (by decide)
    rw [Json.get?_set_ne notTarget, get?_decided apart]
  · exact get?_decided apart
  · exact get?_decided apart
  · exact get?_decided apart
  · exact get?_decideByRun apart

theorem reconcileItem_keeps {queueId : Text} {dispatch raw : Json} {prs : List Record}
    (ok : reconcileItem host queueId dispatch prs runs raw = .ok decision) :
    ∃ item, raw = .obj item ∧
      ∀ key, key ∉ decisionFields → Json.get? decision key = Json.get? item key := by
  cases raw with
  | obj item =>
    refine ⟨item, rfl, fun key apart => ?_⟩
    simp only [reconcileItem, bind_eq_ok_iff] at ok
    obtain ⟨_, _, _, _, _, _, _, _, _, _, last⟩ := ok
    rw [← Except.ok.inj last, get?_decideItem apart]
  | _ => cases ok

/-- The decision is about this item, told by its generation. -/
structure DecidesOn (host : Host) (payload item decision : Record) : Prop where
  listed : item ∈ itemsOf payload
  selectable : statusIn item selectableStatuses = true
  id : idOf decision = idOf item
  generation : value decision "generation_sha256" =
    .str (itemGenerationSha256 host payload item)

theorem value_selectionPayload_items {items : List Record} :
    value (selectionPayload host payload items) "items" =
      .arr (items.map fun item => .obj (selectItem host payload item)) := by
  unfold selectionPayload
  dsimp only
  split
  · rfl
  · rw [Json.value_set_ne (by decide)]
    rfl

theorem decideItems_decides {decisions : List Record}
    (ok : decideItems host payload request = .ok decisions) :
    ∀ decision ∈ decisions, ∃ item, DecidesOn host payload item decision := by
  simp only [decideItems, reconcileCandidates, bind_eq_ok_iff] at ok
  obtain ⟨reconciled, ⟨_, _, raws, isList, prs, _, runs, _, records, mapped, last⟩, _, _, final⟩ := ok
  rw [value_selectionPayload_items] at isList
  cases Except.ok.inj isList
  rw [← Except.ok.inj last, itemsOf_withItems] at final
  cases Except.ok.inj final
  intro decision listed
  obtain ⟨raw, chosen, ok⟩ := (mapM_answers mapped).2 decision listed
  obtain ⟨item, selected, rfl⟩ := List.mem_map.mp chosen
  obtain ⟨own, same, keeps⟩ := reconcileItem_keeps ok
  obtain rfl := Json.obj.inj same
  rw [List.mem_filter] at selected
  refine ⟨item, selected.1, selected.2, ?_, ?_⟩
  · rw [idOf, idOf, Json.value_congr (keeps "id" (by decide)), selectItem,
      Json.value_set_ne (by decide)]
  · rw [Json.value_congr (keeps "generation_sha256" (by decide)), selectItem, Json.value_set_self]

/-! ## Items -/

/-- The item was completed, for the generation it had. -/
structure Completed (host : Host) (payload item item' : Record) : Prop where
  selectable : statusIn item selectableStatuses = true
  kept : ∀ key, key ≠ "status" → key ≠ "evidence" → Json.get? item' key = Json.get? item key
  completed : hasStatus item' "completed" = true
  generation : value (recordOf (value item' "evidence")) "generation_sha256" =
    .str (itemGenerationSha256 host payload item)

/-- The item is as it was, or was completed. -/
def Finalized (host : Host) (payload item item' : Record) : Prop :=
  item' = item ∨ Completed host payload item item'

theorem Finalized.get? (finalized : Finalized host payload item item')
    (notStatus : key ≠ "status") (notEvidence : key ≠ "evidence") :
    Json.get? item' key = Json.get? item key := by
  rcases finalized with rfl | completed
  · rfl
  · exact completed.kept key notStatus notEvidence

theorem Finalized.value_eq (finalized : Finalized host payload item item')
    (notStatus : key ≠ "status") (notEvidence : key ≠ "evidence") :
    value item' key = value item key :=
  Json.value_congr (finalized.get? notStatus notEvidence)

theorem Finalized.idOf_eq (finalized : Finalized host payload item item') :
    idOf item' = idOf item := by
  rw [idOf, idOf, finalized.value_eq (by decide) (by decide)]

theorem completed_completeItem {authenticated : Record} {mergeCommit url : Json}
    (finalized : Finalized host payload item item')
    (selectable : statusIn item selectableStatuses = true) :
    Completed host payload item (completeItem authenticated
      (.str (itemGenerationSha256 host payload item)) mergeCommit url item') := by
  refine ⟨selectable, fun key notStatus notEvidence => ?_, ?_, ?_⟩
  · rw [completeItem, Json.get?_set_ne notEvidence, Json.get?_set_ne notStatus,
      finalized.get? notStatus notEvidence]
  · rw [hasStatus, completeItem, Json.value_set_ne (by decide), Json.value_set_self,
      decide_eq_true_eq]
  · rw [completeItem, Json.value_set_self, recordOf_obj, Json.value_set_ne (by decide),
      Json.value_set_ne (by decide), Json.value_set_ne (by decide), Json.value_set_self]

/-- Items of the queue, each beside the item it became. -/
def AllFinalized (host : Host) (payload : Record) (items : List Record) : Prop :=
  List.Forall₂ (fun item item' => item ∈ itemsOf payload ∧ Finalized host payload item item')
    (itemsOf payload) items

theorem allFinalized_refl : AllFinalized host payload (itemsOf payload) :=
  List.forall₂_same.mpr fun _ listed => ⟨listed, .inl rfl⟩

/-- One turn of the loop: the item decided on is completed. -/
theorem finalizeDecision_keeps {queuePrs items items' : List Record} {evidences : Record}
    (ids : ((itemsOf payload).map idOf).Nodup)
    (decides : ∃ item, DecidesOn host payload item decision)
    (all : AllFinalized host payload items)
    (ok : finalizeDecision host payload request queuePrs evidences items decision = .ok items') :
    AllFinalized host payload items' := by
  obtain ⟨target, decides⟩ := decides
  unfold finalizeDecision at ok
  split at ok
  next =>
    cases Except.ok.inj ok
    exact all
  next =>
    simp only [bind_eq_ok_iff] at ok
    obtain ⟨_, _, _, _, _, _, ok⟩ := ok
    split at ok
    next => cases ok
    next =>
      obtain ⟨authenticated, _, last⟩ := bind_eq_ok_iff.mp ok
      rw [← Except.ok.inj last]
      refine List.forall₂_map_right_iff.mpr (all.imp fun item item' both => ?_)
      obtain ⟨listed, finalized⟩ := both
      refine ⟨listed, ?_⟩
      split
      next chosen =>
        rw [finalized.idOf_eq, decides.id] at chosen
        obtain rfl := List.inj_on_of_nodup_map ids listed decides.listed chosen
        rw [decides.generation]
        exact .inr (completed_completeItem finalized decides.selectable)
      next => exact finalized

/-! ## The queue -/

/-- What a finalized queue is, seen from the queue before it. -/
structure Activation (host : Host) (payload : Record) (request : Finalization)
    (updated : Record) : Prop where
  valid : validateQueue updated = .ok ()
  validBefore : validateQueue payload = .ok ()
  paused : hasState payload "paused" = true
  advances : request.newRulespecRef ≠ dispatchText payload "rulespec_ref"
  contains : request.rulespecRoot.isAncestor (dispatchText payload "rulespec_ref")
    request.newRulespecRef = true
  items : ∃ items, AllFinalized host payload items ∧ updated = activate host payload request items

theorem verifyCheckout_contains {checkout : Checkout} {newRulespecRef : Text}
    (ok : verifyCheckout payload checkout newRulespecRef = .ok ()) :
    checkout.isAncestor (dispatchText payload "rulespec_ref") newRulespecRef = true := by
  unfold verifyCheckout at ok
  split at ok
  next =>
    simp only [bind_eq_ok_iff, check_eq_ok_iff, exists_const] at ok
    exact ok.2.2.1
  next => cases ok

theorem finalizeAndRepin_activation {updated : Record}
    (ok : finalizeAndRepin host payload request = .ok updated) :
    Activation host payload request updated := by
  simp only [finalizeAndRepin, verifyRequest, bind_eq_ok_iff, check_eq_ok_iff, exists_const,
    decide_eq_true_eq] at ok
  obtain ⟨_, ⟨_, validBefore, paused, _, _, _, _, _, _, _, _, advances, _, checkout⟩, _, _, _, _, _, _,
    _, _, decisions, decides, _, items, folded, _, valid, last⟩ := ok
  obtain rfl := Except.ok.inj last
  obtain ⟨profile, isValid⟩ := validateQueue_eq_ok_iff.mp validBefore
  have finalized : AllFinalized host payload items :=
    foldlM_keeps (fun decision listed _ _ all turn => finalizeDecision_keeps isValid.ids
      (decideItems_decides decides decision listed) all turn) allFinalized_refl folded
  exact ⟨valid, validBefore, paused, advances, verifyCheckout_contains checkout, items, finalized,
    rfl⟩

/-! ## The active queue -/

/-- The members that a finalization changes. -/
def activatedFields : List String :=
  ["items", "dispatch", "state", "pause_reason", "suspension", "activation"]

variable {items : List Record}

theorem get?_activate (apart : key ∉ activatedFields) :
    Json.get? (activate host payload request items) key = Json.get? payload key := by
  simp only [activatedFields, List.mem_cons, List.not_mem_nil, or_false, not_or] at apart
  obtain ⟨items, dispatch, state, reason, suspension, activation⟩ := apart
  rw [activate, Json.get?_set_ne activation, Json.get?_pop_ne suspension,
    Json.get?_pop_ne reason, Json.get?_set_ne state, Json.get?_set_ne dispatch, withItems,
    Json.get?_set_ne items]

theorem value_activate (apart : key ∉ activatedFields) :
    value (activate host payload request items) key = value payload key :=
  Json.value_congr (get?_activate apart)

theorem value_activate_items :
    value (activate host payload request items) "items" = .arr (items.map Json.obj) := by
  rw [activate, Json.value_set_ne (by decide), Json.value_pop_ne (by decide),
    Json.value_pop_ne (by decide), Json.value_set_ne (by decide), Json.value_set_ne (by decide),
    withItems, Json.value_set_self]

theorem itemsOf_activate : itemsOf (activate host payload request items) = items :=
  itemsOf_of_value value_activate_items

theorem value_activate_dispatch :
    value (activate host payload request items) "dispatch" =
      .obj (set (dispatchOf payload) "rulespec_ref" (.str request.newRulespecRef)) := by
  rw [activate, Json.value_set_ne (by decide), Json.value_pop_ne (by decide),
    Json.value_pop_ne (by decide), Json.value_set_ne (by decide), Json.value_set_self]

theorem value_activate_state :
    value (activate host payload request items) "state" = str "active" := by
  rw [activate, Json.value_set_ne (by decide), Json.value_pop_ne (by decide),
    Json.value_pop_ne (by decide), Json.value_set_self]

theorem value_activate_pauseReason :
    value (activate host payload request items) "pause_reason" = .null := by
  rw [activate, Json.value_set_ne (by decide), Json.value_pop_ne (by decide), Json.value_pop_self]

theorem value_activate_suspension :
    value (activate host payload request items) "suspension" = .null := by
  rw [activate, Json.value_set_ne (by decide), Json.value_pop_self]

theorem value_activate_activation :
    value (activate host payload request items) "activation" = activationOf host payload request := by
  rw [activate, Json.value_set_self]

/-- What a request has that was checked against a queue. -/
structure CheckedRequest (payload : Record) (request : Finalization) : Prop where
  valid : validateQueue payload = .ok ()
  paused : hasState payload "paused" = true
  ref : isLowerHex 40 (.str request.newRulespecRef) = true
  head : isLowerHex 40 (.str request.finalizerHeadSha) = true
  url : isNumbered finalizerRunStem request.finalizerRunUrl = true
  first : request.finalizerRunAttempt = 1

theorem checkedRequest_of_verifyRequest (ok : verifyRequest host payload request = .ok ()) :
    CheckedRequest payload request := by
  simp only [verifyRequest, requireSha, bind_eq_ok_iff, check_eq_ok_iff, exists_const,
    decide_eq_true_eq] at ok
  obtain ⟨_, valid, paused, ref, head, url, first, -⟩ := ok
  exact ⟨valid, paused, ref, head, url, first⟩

/-- The activation is the evidence that an active queue calls for. -/
theorem validateState_activate (request_ : CheckedRequest payload request)
    (digests : ∀ bytes, isLowerHex 64 (.str (host.sha256 bytes)) = true) :
    validateState (activate host payload request items) = .ok () := by
  have active : hasState (activate host payload request items) "paused" = false :=
    hasState_exclusive (hasState_iff.mpr value_activate_state)
  have ref : value (recordOf (value (activate host payload request items) "dispatch"))
      "rulespec_ref" = .str request.newRulespecRef := by
    rw [value_activate_dispatch, recordOf_obj, Json.value_set_self]
  have evidence : validateActivation (activate host payload request items)
      (activationOf host payload request) = .ok () := by
    have members : exactObject (activationOf host payload request) activationFields =
        some (recordOf (activationOf host payload request)) := rfl
    rw [validateActivation, members]
    simp only [requireSha, requireDigest, bind_eq_ok_iff, check_eq_ok_iff, exists_const,
      Bool.and_eq_true, ref]
    refine ⟨⟨⟨⟨Json.same_refl _, Json.same_refl _⟩, request_.url⟩, ?_⟩, request_.head, digests _,
      digests _, digests _, digests _⟩
    change same (.int request.finalizerRunAttempt) (.int 1) = true
    rw [request_.first]
    exact Json.same_refl _
  rw [validateState, value_activate_state, active, value_activate_pauseReason,
    value_activate_suspension, value_activate_activation]
  exact bind_eq_ok_iff.mpr ⟨true, rfl, bind_eq_ok_iff.mpr ⟨(), rfl, evidence⟩⟩

/-- A dispatch is valid with another commit. -/
theorem validateDispatch_activate (valid : validateDispatch payload = .ok ())
    (ref : isLowerHex 40 (.str request.newRulespecRef) = true) :
    validateDispatch (activate host payload request items) = .ok () := by
  unfold validateDispatch at valid ⊢
  rw [value_activate_dispatch]
  split at valid
  next dispatch found =>
    have own : dispatchOf payload = dispatch := by rw [dispatchOf, found, recordOf_obj]
    simp only [requireSha, bind_eq_ok_iff, check_eq_ok_iff, exists_const, own,
      Json.value_set_self] at valid ⊢
    repeat rw [Json.value_set_ne (by decide)]
    obtain ⟨country, branch, opens, batch, corpus, engine, -⟩ := valid
    exact ⟨country, branch, opens, batch, corpus, engine, ref⟩
  next => cases valid

/-- A queue that is activated with its items as they are stays valid. -/
theorem ValidQueue.activate {profile : QueueProfile} (valid : ValidQueue profile payload)
    (request_ : CheckedRequest payload request)
    (digests : ∀ bytes, isLowerHex 64 (.str (host.sha256 bytes)) = true) :
    ValidQueue profile (activate host payload request (itemsOf payload)) where
  identity := by
    rw [validateIdentity, value_activate (by decide), value_activate (by decide),
      value_activate (by decide), value_activate (by decide), value_activate (by decide)]
    exact valid.identity
  state := validateState_activate request_ digests
  release := by
    rw [validateRelease, value_activate (by decide)]
    exact valid.release
  dispatch := validateDispatch_activate valid.dispatch request_.ref
  counts := by
    rw [value_activate (by decide)]
    exact valid.counts
  items := by
    rw [itemsOf_activate, value_activate_items]
  total := by
    rw [itemsOf_activate]
    exact valid.total
  each := by
    rw [itemsOf_activate]
    exact valid.each
  ids := by
    rw [itemsOf_activate]
    exact valid.ids
  citations := by
    rw [itemsOf_activate]
    exact valid.citations
  counted := by
    rw [itemsOf_activate]
    exact valid.counted
  priority := by
    rw [itemsOf_activate]
    exact valid.priority

end

end AxiomEncode.Queue
