/-
# Queue.Reconcile -- no generation of an item is dispatched twice

A decision about an item depends on what the history records and not on how: the item is
dispatchable exactly if no record speaks of its generation (`isDispatchable_decideItem`).
So more records never make an item dispatchable, and histories of the same records decide
the same.
-/
import AxiomEncode.Queue.FinalizeSpec
import Mathlib.Data.List.Forall2

namespace AxiomEncode.Queue

open Theory
open Theory.Json (value same set pop)

set_option autoImplicit false

section

variable {host : Host} {selection : Record} {queueId : Text} {dispatch : Json}

/-- The flag of a decision. -/
def isDispatchable (decision : Record) : Prop := value decision "dispatchable" = .bool true

/-- The markers of a pull request for a generation of an item. -/
def identityMarkers (host : Host) (selection item : Record) : List Text :=
  let queueId := textOf (value selection "queue_id")
  let dispatch := recordOf (value selection "dispatch")
  [quoted "Queue item" (queueId ++ '/' :: textOf (value item "id")),
    quoted "Citation" (host.str (value item "citation")),
    quoted "Base commit" (host.str (value dispatch "rulespec_ref")),
    quoted "Base branch" (host.str (value dispatch "pr_base_branch")),
    quoted "Queue generation SHA-256" (textOf (value item "generation_sha256"))]

/-- The marker `[queue:item:generation]` of a workflow run. -/
def runMarker (selection item : Record) : Text :=
  '[' :: (textOf (value selection "queue_id") ++ ':' :: (textOf (value item "id") ++
    ':' :: (textOf (value item "generation_sha256") ++ [']'])))

/-- A pull request carries every marker, from the trusted repository to the base branch. -/
def IsPullRequestOf (host : Host) (selection item pr : Record) : Prop :=
  isQueuePullRequest host (identityMarkers host selection item)
    (value (recordOf (value selection "dispatch")) "pr_base_branch") pr = true

/-- The title of a run carries the marker. -/
def IsRunOf (host : Host) (selection item run : Record) : Prop :=
  isIn (runMarker selection item) (host.strOr (value run "display_title") "") = true

/-! ## Decisions -/

variable {item mapping : Record} {reason : Text} {historyUrl : Json} {runs prs : List Record}
  {key : String}

theorem value_decided {dispatchable : Bool} :
    value (decided item dispatchable reason historyUrl) "dispatchable" = .bool dispatchable := by
  rw [decided, Json.value_set_ne (by decide), Json.value_set_ne (by decide), Json.value_set_self]

theorem not_isDispatchable_decided : ¬ isDispatchable (decided item false reason historyUrl) := by
  rw [isDispatchable, value_decided]
  exact fun equal => by cases equal

theorem isDispatchable_decideByRun {latest : Option Record} :
    isDispatchable (decideByRun host item latest) ↔ latest = none := by
  cases latest with
  | none => exact iff_of_true value_decided rfl
  | some run => exact iff_of_false not_isDispatchable_decided (nomatch ·)

theorem newestFirst_eq_nil {field : String} {records : List Record} :
    newestFirst host field records = [] ↔ records = [] := by
  rw [← List.length_eq_zero_iff, (newestFirst_perm field records).length_eq,
    List.length_eq_zero_iff]

/-- **Every early exit is taken for a record.**  Only an item without a matching pull
request and without a marked run gets to the end. -/
theorem isDispatchable_decideItem {matching : List Record} {marker : Text} :
    isDispatchable (decideItem host item matching runs marker) ↔
      matching = [] ∧ ∀ run ∈ runs,
        ¬ isIn marker (host.strOr (value run "display_title") "") = true := by
  cases matching with
  | nil =>
    have latest : decideItem host item [] runs marker = decideByRun host item
        (newestFirst host "created_at" (runs.filter fun run =>
          isIn marker (host.strOr (value run "display_title") ""))).head? := rfl
    rw [latest, isDispatchable_decideByRun, List.head?_eq_none_iff, newestFirst_eq_nil,
      List.filter_eq_nil_iff]
    exact (and_iff_right rfl).symm
  | cons pr rest =>
    refine iff_of_false ?_ (nomatch ·.1)
    unfold decideItem
    dsimp only
    split
    · rw [isDispatchable, Json.value_set_ne (by decide)]
      exact not_isDispatchable_decided
    · exact not_isDispatchable_decided
    · exact not_isDispatchable_decided
    · exact not_isDispatchable_decided
    · next none_ => cases none_

/-! ## Selected items -/

/-- The item has what its markers are made of. -/
structure IsAddressed (selection item : Record) : Prop where
  id : isItemId (textOf (value item "id")) = true
  generation : requireDigest (value item "generation_sha256")
    (String.ofList (textOf (value item "id")) ++ " generation_sha256") = .ok ()
  citation : (Json.get? item "citation").isSome = true
  rulespecRef : (Json.get? (recordOf (value selection "dispatch")) "rulespec_ref").isSome = true
  branch : (Json.get? (recordOf (value selection "dispatch")) "pr_base_branch").isSome = true

theorem value_of_get? {found : Json} (here : Json.get? mapping key = some found) :
    value mapping key = found := by
  rw [value, here]
  rfl

theorem get?_value_of_isSome (present : (Json.get? mapping key).isSome = true) :
    Json.get? mapping key = some (value mapping key) := by
  obtain ⟨found, here⟩ := Option.isSome_iff_exists.mp present
  rw [value_of_get? here, here]

/-- The decision about a selected item. -/
def decisionAbout (host : Host) (selection : Record) (prs runs : List Record) (item : Record) :
    Record :=
  decideItem host item
    (newestFirst host "updated_at" (prs.filter
      (isQueuePullRequest host (identityMarkers host selection item)
        (value (recordOf (value selection "dispatch")) "pr_base_branch"))))
    runs (runMarker selection item)

theorem reconcileItem_eq_ok_iff {raw : Json} {decision : Record} :
    reconcileItem host (textOf (value selection "queue_id")) (value selection "dispatch") prs runs
        raw = .ok decision ↔
      ∃ item, raw = .obj item ∧ IsAddressed selection item ∧
        decision = decisionAbout host selection prs runs item := by
  cases raw with
  | obj item =>
    simp only [reconcileItem, bind_eq_ok_iff, check_eq_ok_iff, member_eq_ok_iff, Json.obj.injEq]
    constructor
    · rintro ⟨_, id, _, generation, citation, isCitation, ref, isRef, branch, isBranch, made⟩
      refine ⟨item, rfl, ⟨id, generation, ?_, ?_, ?_⟩, ?_⟩
      · rw [isCitation]
        rfl
      · rw [isRef]
        rfl
      · rw [isBranch]
        rfl
      · rw [decisionAbout, identityMarkers, value_of_get? isCitation, value_of_get? isRef,
          value_of_get? isBranch]
        exact (Except.ok.inj made).symm
    · rintro ⟨item', same, addressed, rfl⟩
      cases same
      exact ⟨(), addressed.id, (), addressed.generation, _,
        get?_value_of_isSome addressed.citation, _, get?_value_of_isSome addressed.rulespecRef, _,
        get?_value_of_isSome addressed.branch, rfl⟩
  | _ =>
    refine iff_of_false ?_ ?_
    · intro made
      cases made
    · rintro ⟨item, same, -⟩
      cases same

theorem isDispatchable_decisionAbout :
    isDispatchable (decisionAbout host selection prs runs item) ↔
      (∀ pr ∈ prs, ¬ IsPullRequestOf host selection item pr) ∧
        ∀ run ∈ runs, ¬ IsRunOf host selection item run := by
  rw [decisionAbout, isDispatchable_decideItem, newestFirst_eq_nil, List.filter_eq_nil_iff]
  rfl

/-- The selection can be reconciled, whatever the history. -/
structure IsSelection (selection : Record) (items : List Record) : Prop where
  queueId : isSlug 63 (textOf (value selection "queue_id")) = true
  listed : value selection "items" = .arr (items.map Json.obj)
  addressed : ∀ item ∈ items, IsAddressed selection item

theorem mapM_reconcileItem_iff {raws : List Json} {decisions : List Record} :
    raws.mapM (reconcileItem host (textOf (value selection "queue_id"))
        (value selection "dispatch") prs runs) = .ok decisions ↔
      ∃ items : List Record, raws = items.map Json.obj ∧ (∀ item ∈ items, IsAddressed selection item) ∧
        decisions = items.map (decisionAbout host selection prs runs) := by
  induction raws generalizing decisions with
  | nil =>
    constructor
    · intro ok
      cases ok
      exact ⟨[], rfl, nofun, rfl⟩
    · rintro ⟨items, none_, -, rfl⟩
      rw [List.map_eq_nil_iff.mp none_.symm]
      rfl
  | cons raw raws ih =>
    rw [mapM_cons_eq_ok_iff]
    constructor
    · rintro ⟨decision, rest, ok, restOk, rfl⟩
      obtain ⟨item, rfl, addressed, rfl⟩ := reconcileItem_eq_ok_iff.mp ok
      obtain ⟨items, rfl, others, rfl⟩ := ih.mp restOk
      exact ⟨item :: items, rfl, List.forall_mem_cons.mpr ⟨addressed, others⟩, rfl⟩
    · rintro ⟨items, cut, addressed, rfl⟩
      obtain ⟨item, items, rfl, rfl, rfl⟩ := List.map_eq_cons_iff.mp cut.symm
      rw [List.forall_mem_cons] at addressed
      exact ⟨_, _, reconcileItem_eq_ok_iff.mpr ⟨item, rfl, addressed.1, rfl⟩,
        ih.mpr ⟨items, rfl, addressed.2, rfl⟩, rfl⟩

/-- **A reconciliation is one decision for each item, in order.** -/
theorem reconcileCandidates_eq_ok_iff {pullRequests workflowRuns : Json} {result : Record} :
    reconcileCandidates host selection pullRequests workflowRuns = .ok result ↔
      ∃ (items prs runs : List Record), IsSelection selection items ∧
        flattenPullRequests pullRequests = .ok prs ∧ flattenWorkflowRuns workflowRuns = .ok runs ∧
        result = withItems selection (items.map (decisionAbout host selection prs runs)) := by
  simp only [reconcileCandidates, bind_eq_ok_iff, check_eq_ok_iff, mapM_reconcileItem_iff]
  constructor
  · rintro ⟨_, slug, raws, isList, prs, arePrs, runs, areRuns, _,
      ⟨items, rfl, addressed, rfl⟩, made⟩
    refine ⟨items, prs, runs, ⟨slug, ?_, addressed⟩, arePrs, areRuns, (Except.ok.inj made).symm⟩
    unfold listOf at isList
    split at isList
    · next held => rw [held, Except.ok.inj isList]
    · cases isList
  · rintro ⟨items, prs, runs, isSelection, arePrs, areRuns, rfl⟩
    refine ⟨(), isSelection.queueId, items.map Json.obj, ?_, prs, arePrs, runs, areRuns, _,
      ⟨items, rfl, isSelection.addressed, rfl⟩, rfl⟩
    rw [isSelection.listed]
    rfl

/-! ## Histories -/

/-- What the records of a history decide about an item. -/
structure Decides (host : Host) (selection : Record) (prs runs : List Record)
    (item decision : Record) : Prop where
  kept : ∀ key, key ∉ decisionFields → Json.get? decision key = Json.get? item key
  dispatchable : isDispatchable decision ↔
    (∀ pr ∈ prs, ¬ IsPullRequestOf host selection item pr) ∧
      ∀ run ∈ runs, ¬ IsRunOf host selection item run

theorem decides_decisionAbout (prs runs : List Record) (item : Record) :
    Decides host selection prs runs item (decisionAbout host selection prs runs item) :=
  ⟨fun _ apart => get?_decideItem apart, isDispatchable_decisionAbout⟩

/-- **An item generation is dispatched at most once.**  Every selected item gets one
decision, in order, and is dispatchable exactly if no pull request and no run speaks of it.
Any other history is reconciled too: with at least these records it makes no item
dispatchable that was not, and an item with a recorded run stays undispatchable; with the
same records, in whatever order, number and pages, it decides the same flags. -/
theorem reconcileCandidates_atMostOnce (host : Host) (selection : Record)
    (pullRequests workflowRuns : Json) (result : Record)
    (ok : reconcileCandidates host selection pullRequests workflowRuns = .ok result) :
    ∃ prs runs, flattenPullRequests pullRequests = .ok prs ∧
      flattenWorkflowRuns workflowRuns = .ok runs ∧
      List.Forall₂ (Decides host selection prs runs) (itemsOf selection) (itemsOf result) ∧
      ∀ pullRequests' workflowRuns' prs' runs', flattenPullRequests pullRequests' = .ok prs' →
        flattenWorkflowRuns workflowRuns' = .ok runs' →
        ∃ result', reconcileCandidates host selection pullRequests' workflowRuns' = .ok result' ∧
          (prs ⊆ prs' → runs ⊆ runs' →
            List.Forall₂ (fun decision decision' => isDispatchable decision' →
              isDispatchable decision) (itemsOf result) (itemsOf result') ∧
            List.Forall₂ (fun item decision' => (∃ run ∈ runs, IsRunOf host selection item run) →
              ¬ isDispatchable decision') (itemsOf selection) (itemsOf result')) ∧
          ((∀ pr, pr ∈ prs ↔ pr ∈ prs') → (∀ run, run ∈ runs ↔ run ∈ runs') →
            List.Forall₂ (fun decision decision' => isDispatchable decision ↔
              isDispatchable decision') (itemsOf result) (itemsOf result')) := by
  obtain ⟨items, prs, runs, isSelection, arePrs, areRuns, rfl⟩ :=
    reconcileCandidates_eq_ok_iff.mp ok
  have selected : itemsOf selection = items := itemsOf_of_value isSelection.listed
  refine ⟨prs, runs, arePrs, areRuns, ?_, ?_⟩
  · rw [selected, itemsOf_withItems, List.forall₂_map_right_iff, List.forall₂_same]
    exact fun item _ => decides_decisionAbout prs runs item
  intro pullRequests' workflowRuns' prs' runs' arePrs' areRuns'
  refine ⟨_, reconcileCandidates_eq_ok_iff.mpr
    ⟨items, prs', runs', isSelection, arePrs', areRuns', rfl⟩, ?_, ?_⟩
  · intro morePrs moreRuns
    rw [selected, itemsOf_withItems, itemsOf_withItems]
    simp only [List.forall₂_map_left_iff, List.forall₂_map_right_iff, List.forall₂_same,
      isDispatchable_decisionAbout]
    refine ⟨fun item _ free => ⟨fun pr member => free.1 pr (morePrs member),
      fun run member => free.2 run (moreRuns member)⟩, ?_⟩
    rintro item _ ⟨run, member, marked⟩ free
    exact free.2 run (moreRuns member) marked
  · intro samePrs sameRuns
    rw [itemsOf_withItems, itemsOf_withItems]
    simp only [List.forall₂_map_left_iff, List.forall₂_map_right_iff, List.forall₂_same,
      isDispatchable_decisionAbout, samePrs, sameRuns]
    exact fun _ _ => trivial

/-! ## An empty history -/

theorem value_selectionPayload {payload : Record} {items : List Record}
    (kept : key ∈ ["dispatch", "queue_id"]) :
    value (selectionPayload host payload items) key = value payload key := by
  simp only [List.mem_cons, List.not_mem_nil, or_false] at kept
  unfold selectionPayload
  dsimp only
  rcases kept with rfl | rfl <;> split
  · rfl
  · rw [Json.value_set_ne (by decide)]
    rfl
  · rfl
  · rw [Json.value_set_ne (by decide)]
    rfl

variable {profile : QueueProfile} {payload : Record} {request : Finalization}

/-- Whatever is selected of a valid queue can be reconciled. -/
theorem isSelection_selectionPayload (valid : ValidQueue profile payload)
    (digests : ∀ bytes, isLowerHex 64 (.str (host.sha256 bytes)) = true) {items : List Record}
    (listed : ∀ item ∈ items, item ∈ itemsOf payload) :
    IsSelection (selectionPayload host payload items) (items.map (selectItem host payload)) where
  queueId := by
    rw [value_selectionPayload (by decide)]
    have identity := valid.identity
    simp only [validateIdentity, bind_eq_ok_iff, check_eq_ok_iff] at identity
    obtain ⟨_, _, _, slug, -⟩ := identity
    exact slug
  listed := by
    rw [value_selectionPayload_items, List.map_map]
    rfl
  addressed := by
    intro selected member
    obtain ⟨item, chosen, rfl⟩ := List.mem_map.mp member
    obtain ⟨own, checks⟩ := valid.each.mem (listed item chosen)
    have present := valid.itemsPresent item (listed item chosen)
    have dispatch := valid.dispatch
    have same : value (selectionPayload host payload items) "dispatch" = value payload "dispatch" :=
      value_selectionPayload (by decide)
    unfold validateDispatch at dispatch
    split at dispatch
    next found held =>
      simp only [requireSha, bind_eq_ok_iff, check_eq_ok_iff, exists_const] at dispatch
      obtain ⟨-, branch, -, -, -, -, ref⟩ := dispatch
      refine ⟨?_, ?_, ?_, ?_, ?_⟩
      · rw [selectItem, Json.value_set_ne (by decide)]
        exact checks.wellFormed
      · rw [selectItem, Json.value_set_self]
        exact check_eq_ok_iff.mpr (digests _)
      · rw [selectItem, Json.get?_set_ne (by decide)]
        exact present "citation" (by decide)
      · rw [same, held]
        refine isSome_of_value fun (none_ : value found "rulespec_ref" = .null) => ?_
        rw [none_] at ref
        cases ref
      · rw [same, held]
        refine isSome_of_value fun (none_ : value found "pr_base_branch" = .null) => ?_
        rw [none_] at branch
        cases branch
    next => cases dispatch

/-- Without a record every item is new. -/
theorem decideItems_of_empty (valid : ValidQueue profile payload)
    (digests : ∀ bytes, isLowerHex 64 (.str (host.sha256 bytes)) = true)
    (prs : flattenPullRequests request.pullRequests = .ok [])
    (runs : flattenWorkflowRuns request.workflowRuns = .ok []) :
    ∃ decisions, decideItems host payload request = .ok decisions ∧
      ∀ decision ∈ decisions, value decision "reason" = .str "new".toList := by
  have selection := @isSelection_selectionPayload host profile payload valid digests
    ((itemsOf payload).filter fun item => statusIn item selectableStatuses)
    fun item chosen => (List.mem_filter.mp chosen).1
  have new : ∀ decision ∈ (((itemsOf payload).filter fun item =>
      statusIn item selectableStatuses).map (selectItem host payload)).map
        (decisionAbout host (selectionPayload host payload ((itemsOf payload).filter fun item =>
          statusIn item selectableStatuses)) [] []),
      value decision "reason" = .str "new".toList := by
    intro decision member
    obtain ⟨item, -, rfl⟩ := List.mem_map.mp member
    change value (decided item true "new".toList .null) "reason" = _
    rw [decided, Json.value_set_ne (by decide), Json.value_set_self]
  refine ⟨_, bind_eq_ok_iff.mpr ⟨_, reconcileCandidates_eq_ok_iff.mpr
    ⟨_, [], [], selection, prs, runs, rfl⟩, ?_⟩, new⟩
  rw [itemsOf_withItems]
  refine bind_eq_ok_iff.mpr ⟨(), check_eq_ok_iff.mpr (List.isEmpty_iff.mpr ?_), rfl⟩
  refine List.filter_eq_nil_iff.mpr fun decision member => ?_
  rw [new decision member]
  decide

/-- **A queue without a history can be activated**: what is checked of a request is enough,
and the items stay as they are. -/
theorem finalizeAndRepin_of_empty (valid : ValidQueue profile payload)
    (digests : ∀ bytes, isLowerHex 64 (.str (host.sha256 bytes)) = true)
    (verified : verifyRequest host payload request = .ok ())
    (prs : flattenPullRequests request.pullRequests = .ok [])
    (runs : flattenWorkflowRuns request.workflowRuns = .ok [])
    (evidence : isRecord request.targetEvidence = true)
    (unfinished : ∀ item ∈ itemsOf payload, hasStatus item "completed" = false) :
    finalizeAndRepin host payload request =
      .ok (activate host payload request (itemsOf payload)) := by
  obtain ⟨decisions, areDecided, new⟩ := decideItems_of_empty valid digests prs runs
  have turn : ∀ decision ∈ decisions, ∀ items items', finalizeDecision host payload request []
      (recordOf request.targetEvidence) items decision = .ok items' ↔ True ∧ items' = items := by
    intro decision member items items'
    have other : same (value decision "reason") (str "merged-rulespec-pr") = false := by
      rw [new decision member]
      decide
    rw [finalizeDecision, other]
    exact ⟨fun done => ⟨trivial, (Except.ok.inj done).symm⟩, fun done => congrArg _ done.2.symm⟩
  have folded := (@foldlM_eq_ok_iff _ _ _ _ (fun items _ => items) _ _ turn (itemsOf payload)
    (itemsOf payload)).mpr ⟨fun _ _ => trivial, (List.foldl_fixed _).symm⟩
  have completed : ((itemsOf payload).filter fun item => hasStatus item "completed") = [] :=
    List.filter_eq_nil_iff.mpr fun item listed => by rw [unfinished item listed]; decide
  have active : validateQueue (activate host payload request (itemsOf payload)) = .ok () :=
    validateQueue_eq_ok_iff.mpr
      ⟨profile, valid.activate (checkedRequest_of_verifyRequest verified) digests⟩
  simp only [finalizeAndRepin, bind_eq_ok_iff, check_eq_ok_iff, exists_const, completed]
  exact ⟨(), verified, [], prs, [], runs, (), rfl, (), rfl, decisions, areDecided, evidence,
    _, folded, (), active, rfl⟩

/-- A selection of one item. -/
def sampleSelection : Record :=
  [("queue_id".toList, str "us-ny-snap"),
    ("dispatch".toList, .obj [("rulespec_ref".toList, str "0f"), ("pr_base_branch".toList, str "main")]),
    ("items".toList, .arr [.obj [("id".toList, str "ny-0001"),
      ("citation".toList, str "us-ny/regulation/18/387/1"),
      ("generation_sha256".toList, .str (List.replicate 64 'a'))]])]

/-- A run that failed and names the generation in its title. -/
def sampleHistory : Json :=
  .arr [.obj [("workflow_runs".toList, .arr [.obj [("display_title".toList,
      .str ("Re-encode ".toList ++ runMarker sampleSelection
        ((itemsOf sampleSelection).headD []))),
    ("status".toList, str "completed"), ("conclusion".toList, str "failure")]])]]

theorem reconcileCandidates_atMostOnce_failedRun :
    ∃ result, reconcileCandidates ⟨fun _ => [], fun _ => []⟩ sampleSelection (.arr []) sampleHistory =
        .ok result ∧ (itemsOf result).map (value · "dispatchable") = [.bool false] ∧
      ∃ prs runs, List.Forall₂ (Decides ⟨fun _ => [], fun _ => []⟩ sampleSelection prs runs)
        (itemsOf sampleSelection) (itemsOf result) := by
  refine ⟨_, rfl, rfl, ?_⟩
  obtain ⟨prs, runs, -, -, decided, -⟩ := reconcileCandidates_atMostOnce ⟨fun _ => [], fun _ => []⟩
    sampleSelection (.arr []) sampleHistory _ rfl
  exact ⟨prs, runs, decided⟩

end

end AxiomEncode.Queue
