/-
# Queue.History -- runs of a queue

A run starts at a paused queue that nothing was dispatched for.  Every step is a pull
request that passed the gate or a finalization.  Items are never rewritten once they are
terminal, and an item is completed by a finalization only.  Once a queue was active the
paused queues after it carry a suspension, so their dispatch stays, and a finalization
moves it to a later commit: no two active queues have a generation in common.
-/
import AxiomEncode.Queue.Producers
import AxiomEncode.Queue.Reconcile
import AxiomEncode.Theory.Runs
import Mathlib.Tactic.IntervalCases

namespace AxiomEncode.Queue

open Theory
open Theory.Json (value same set pop isWritten sortKeys)

set_option autoImplicit false

/-- One step of a run.  The gate is given the digest of the file before, and git decides
`ancestor` in the checkout of a finalization. -/
inductive Step (host : Host) (ancestor : Text → Text → Prop) : Record → Record → Prop
  | pullRequest {previous queue : Record}
      (admitted : verifyPausedTransition queue previous (queueObjectFileSha256 host previous) =
        .ok ()) : Step host ancestor previous queue
  | activation {previous queue : Record} (request : Finalization)
      (decides : ∀ first second,
        request.rulespecRoot.isAncestor first second = true ↔ ancestor first second)
      (finalized : finalizeAndRepin host previous request = .ok queue) :
      Step host ancestor previous queue

/-- A run of queues, from a paused one without a suspension. -/
structure IsHistory (host : Host) (ancestor : Text → Text → Prop) (queues : Nat → Record)
    (last : Nat) : Prop where
  decoded : ∀ index ≤ last, isWritten (.obj (queues index)) = true
  valid : ∀ index ≤ last, validateQueue (queues index) = .ok ()
  paused : hasState (queues 0) "paused" = true
  unsuspended : value (queues 0) "suspension" = .null
  steps : ∀ index < last, Step host ancestor (queues index) (queues (index + 1))

/-- What becomes of an item: nothing, once it is terminal. -/
structure ItemContinues (item item' : Record) : Prop where
  citation : value item' "citation" = value item "citation"
  id : value item' "id" = value item "id"
  sequence : same (value item' "sequence") (value item "sequence") = true
  attempt : attemptOf item ≤ attemptOf item'
  terminal : statusIn item terminalStatuses = true → same (.obj item') (.obj item) = true

/-- The same items, each continued. -/
structure Continues (previous queue : Record) : Prop where
  ids : ∀ id, id ∈ (itemsOf previous).map idOf ↔ id ∈ (itemsOf queue).map idOf
  each : ∀ item ∈ itemsOf previous, ∀ item' ∈ itemsOf queue, idOf item' = idOf item →
    ItemContinues item item'

/-- Every item that was completed was completed by finalizing the queue before, for the
generation it had there. -/
def CompletesByActivation (host : Host) (previous queue : Record) : Prop :=
  ∀ item ∈ itemsOf previous, ∀ item' ∈ itemsOf queue, idOf item' = idOf item →
    hasStatus item "completed" = false → hasStatus item' "completed" = true →
      (∃ request, finalizeAndRepin host previous request = .ok queue) ∧
        value (recordOf (value item' "evidence")) "generation_sha256" =
          .str (itemGenerationSha256 host previous item)

/-- No generation of one queue is a generation of the other. -/
def DisjointGenerations (host : Host) (queue other : Record) : Prop :=
  ∀ item ∈ itemsOf queue, ∀ item' ∈ itemsOf other,
    itemGenerationSha256 host queue item ≠ itemGenerationSha256 host other item'

/-! ## Items along a run -/

variable {item : Record} {digest : Text}

section

variable {host : Host} {ancestor : Text → Text → Prop} {previous queue : Record}

theorem ids_nodup (valid : validateQueue queue = .ok ()) : ((itemsOf queue).map idOf).Nodup := by
  obtain ⟨profile, isValid⟩ := validateQueue_eq_ok_iff.mp valid
  exact isValid.ids

variable {members current prior item' second third : Record} {key : String}

/-- A member of a text that is not empty is that text. -/
theorem value_eq_str_of_textOf (held : textOf (value members key) ≠ []) :
    value members key = .str (textOf (value members key)) := by
  cases found : value members key with
  | str text => rfl
  | _ =>
    rw [found] at held
    exact absurd rfl held

/-- A text that was kept is the same text. -/
theorem Kept.value_eq {field : String} (kept : Kept current prior field)
    (held : textOf (value prior field) ≠ []) :
    value current field = value prior field := by
  have equal := kept.normal_eq
  rw [value_eq_str_of_textOf held] at equal ⊢
  exact Json.normal_eq_str.mp (equal.trans (by simp [Json.normal]))

theorem citation_ne_nil (valid : validateQueue queue = .ok ()) (listed : item ∈ itemsOf queue) :
    textOf (value item "citation") ≠ [] := by
  obtain ⟨profile, isValid⟩ := validateQueue_eq_ok_iff.mp valid
  obtain ⟨own, checks⟩ := isValid.each.mem listed
  intro empty
  have citation := checks.citation
  rw [empty] at citation
  cases jurisdiction : textOf (value item "jurisdiction") <;> simp [jurisdiction] at citation

theorem id_ne_nil (valid : validateQueue queue = .ok ()) (listed : item ∈ itemsOf queue) :
    textOf (value item "id") ≠ [] := by
  obtain ⟨profile, isValid⟩ := validateQueue_eq_ok_iff.mp valid
  obtain ⟨own, checks⟩ := isValid.each.mem listed
  intro empty
  have wellFormed := checks.wellFormed
  rw [idOf, empty] at wellFormed
  cases wellFormed

theorem statusIn_congr {statuses : List String} (equal : same (.obj item') (.obj item) = true) :
    statusIn item' statuses = statusIn item statuses := by
  have held := @Json.same_value _ _ "status" equal
  have each : ∀ text : Text, value item' "status" = .str text ↔ value item "status" = .str text := by
    intro text
    rw [← Json.normal_eq_str, held, Json.normal_eq_str]
  rw [Bool.eq_iff_iff, statusIn_iff, statusIn_iff]
  exact exists_congr fun other => and_congr_right fun _ => each other.toList

theorem ItemContinues.refl (item : Record) : ItemContinues item item where
  citation := rfl
  id := rfl
  sequence := Json.same_refl _
  attempt := Int.le_refl _
  terminal _ := Json.same_refl _

theorem ItemContinues.trans {first : Record} (early : ItemContinues first second)
    (late : ItemContinues second third) : ItemContinues first third where
  citation := late.citation.trans early.citation
  id := late.id.trans early.id
  sequence := Json.same_trans late.sequence early.sequence
  attempt := early.attempt.trans late.attempt
  terminal settled := by
    have still := early.terminal settled
    have settled' : statusIn second terminalStatuses = true := by
      rw [statusIn_congr still]
      exact settled
    exact Json.same_trans (late.terminal settled') still

theorem Continues.refl (valid : validateQueue queue = .ok ()) : Continues queue queue where
  ids _ := Iff.rfl
  each _ listed _ listed' ids := by
    obtain rfl := List.inj_on_of_nodup_map (ids_nodup valid) listed' listed ids
    exact .refl _

theorem Continues.trans {first : Record} (early : Continues first second)
    (late : Continues second third) : Continues first third where
  ids id := (early.ids id).trans (late.ids id)
  each item listed item'' listed'' ids := by
    obtain ⟨item', listed', same⟩ :=
      List.mem_map.mp ((early.ids (idOf item)).mp (List.mem_map_of_mem listed))
    have first := early.each item listed item' listed' same
    exact first.trans (late.each item' listed' item'' listed'' (ids.trans same.symm))

/-- An item that passed the gate continues. -/
theorem ItemStep.continues (step : ItemStep prior current)
    (citation : textOf (value prior "citation") ≠ []) (id : textOf (value prior "id") ≠ []) :
    ItemContinues prior current where
  citation := (step.kept "citation" (by decide)).value_eq citation
  id := (step.kept "id" (by decide)).value_eq id
  sequence := Json.same_iff.mpr (step.kept "sequence" (by decide)).normal_eq
  attempt := step.grows
  terminal := step.terminal

/-- The items that passed the gate, each beside the item before. -/
theorem PausedStep.itemStep (step : PausedStep digest previous queue)
    (listed : item ∈ itemsOf previous) (listed' : item' ∈ itemsOf queue)
    (ids : idOf item' = idOf item) : ItemStep item item' := by
  obtain ⟨-, each⟩ := verifyItems_eq_ok_iff.mp step.items
  obtain ⟨prior, found, kept⟩ := each item' listed'
  rw [ids, itemOfId_of_mem (ids_nodup step.validBefore) listed] at found
  exact Option.some.inj found ▸ kept

theorem PausedStep.continues (step : PausedStep digest previous queue) :
    Continues previous queue where
  ids := (verifyItems_eq_ok_iff.mp step.items).1
  each _ listed _ listed' ids := (step.itemStep listed listed' ids).continues
    (citation_ne_nil step.validBefore listed) (id_ne_nil step.validBefore listed)

theorem selectable_not_terminal (selectable : statusIn item selectableStatuses = true) :
    statusIn item terminalStatuses = false := by
  have apart : ∀ status ∈ selectableStatuses, status ∉ terminalStatuses := by decide
  obtain ⟨status, listed, held⟩ := statusIn_iff.mp selectable
  rw [Bool.eq_false_iff]
  intro terminal
  obtain ⟨other, listed', held'⟩ := statusIn_iff.mp terminal
  rw [held] at held'
  have equal := String.toList_inj.mp (Json.str.inj held')
  exact apart status listed (equal ▸ listed')

theorem Finalized.continues (finalized : Finalized host previous item item') :
    ItemContinues item item' where
  citation := finalized.value_eq (by decide) (by decide)
  id := finalized.value_eq (by decide) (by decide)
  sequence := by
    rw [finalized.value_eq (by decide) (by decide)]
    exact Json.same_refl _
  attempt := by
    rw [attemptOf, attemptOf, finalized.value_eq (by decide) (by decide)]
  terminal settled := by
    rcases finalized with rfl | completed
    · exact Json.same_refl _
    · rw [selectable_not_terminal completed.selectable] at settled
      cases settled

variable {request : Finalization}

theorem exists_of_forall₂ {α β : Type} {R : α → β → Prop} {xs : List α} {ys : List β}
    (all : List.Forall₂ R xs ys) :
    (∀ x ∈ xs, ∃ y ∈ ys, R x y) ∧ ∀ y ∈ ys, ∃ x ∈ xs, R x y := by
  induction all with
  | nil => exact ⟨nofun, nofun⟩
  | cons related _ ih =>
    obtain ⟨left, right⟩ := ih
    refine ⟨List.forall_mem_cons.mpr ⟨⟨_, List.mem_cons_self, related⟩, fun x later => ?_⟩,
      List.forall_mem_cons.mpr ⟨⟨_, List.mem_cons_self, related⟩, fun y later => ?_⟩⟩
    · obtain ⟨y, listed, related⟩ := left x later
      exact ⟨y, List.mem_cons_of_mem _ listed, related⟩
    · obtain ⟨x, listed, related⟩ := right y later
      exact ⟨x, List.mem_cons_of_mem _ listed, related⟩

/-- Every item of a finalized queue comes from one before, and the other way round. -/
theorem Activation.finalized (step : Activation host previous request queue) :
    (∀ item ∈ itemsOf previous, ∃ item' ∈ itemsOf queue, Finalized host previous item item') ∧
      ∀ item' ∈ itemsOf queue, ∃ item ∈ itemsOf previous, Finalized host previous item item' := by
  obtain ⟨items, all, rfl⟩ := step.items
  rw [itemsOf_activate]
  constructor
  · intro item listed
    obtain ⟨item', listed', -, finalized⟩ := (exists_of_forall₂ all).1 item listed
    exact ⟨item', listed', finalized⟩
  · intro item' listed'
    obtain ⟨item, listed, -, finalized⟩ := (exists_of_forall₂ all).2 item' listed'
    exact ⟨item, listed, finalized⟩

theorem Activation.finalized_of_id (step : Activation host previous request queue)
    (listed : item ∈ itemsOf previous) (listed' : item' ∈ itemsOf queue)
    (ids : idOf item' = idOf item) : Finalized host previous item item' := by
  obtain ⟨other, there, finalized⟩ := step.finalized.2 item' listed'
  rw [finalized.idOf_eq] at ids
  exact List.inj_on_of_nodup_map (ids_nodup step.validBefore) there listed ids ▸ finalized

theorem Activation.continues (step : Activation host previous request queue) :
    Continues previous queue where
  ids id := by
    rw [List.mem_map, List.mem_map]
    constructor
    · rintro ⟨item, listed, rfl⟩
      obtain ⟨item', listed', finalized⟩ := step.finalized.1 item listed
      exact ⟨item', listed', finalized.idOf_eq⟩
    · rintro ⟨item', listed', rfl⟩
      obtain ⟨item, listed, finalized⟩ := step.finalized.2 item' listed'
      exact ⟨item, listed, finalized.idOf_eq.symm⟩
  each _ listed _ listed' ids := (step.finalized_of_id listed listed' ids).continues

theorem Step.continues (step : Step host ancestor previous queue) : Continues previous queue := by
  cases step with
  | pullRequest admitted => exact (verifyPausedTransition_eq_ok_iff.mp admitted).continues
  | activation request decides finalized => exact (finalizeAndRepin_activation finalized).continues

theorem Step.completes (step : Step host ancestor previous queue) :
    CompletesByActivation host previous queue := by
  intro item listed item' listed' ids before after
  cases step with
  | pullRequest admitted =>
    have kept := (verifyPausedTransition_eq_ok_iff.mp admitted).itemStep listed listed' ids
    rw [kept.completion after] at before
    cases before
  | activation request decides finalized =>
    refine ⟨⟨request, finalized⟩, ?_⟩
    rcases (finalizeAndRepin_activation finalized).finalized_of_id listed listed' ids
      with rfl | completed
    · rw [before] at after
      cases after
    · exact completed.generation

/-! ## Dispatch along a run -/

/-- The base commit of a queue. -/
def baseOf (payload : Record) : Text := dispatchText payload "rulespec_ref"

theorem dispatch_of_valid (valid : validateQueue queue = .ok ()) :
    value queue "dispatch" = .obj (dispatchOf queue) ∧
      value (dispatchOf queue) "rulespec_ref" = .str (baseOf queue) := by
  obtain ⟨profile, isValid⟩ := validateQueue_eq_ok_iff.mp valid
  have checked := isValid.dispatch
  unfold validateDispatch at checked
  split at checked
  next dispatch found =>
    have own : dispatchOf queue = dispatch := by rw [dispatchOf, found, recordOf_obj]
    simp only [requireSha, bind_eq_ok_iff, check_eq_ok_iff, exists_const] at checked
    obtain ⟨-, -, -, -, -, -, ref⟩ := checked
    refine ⟨by rw [own, found], ?_⟩
    rw [baseOf, dispatchText]
    refine value_eq_str_of_textOf fun empty => ?_
    rw [own] at empty
    cases held : value dispatch "rulespec_ref" with
    | str text =>
      rw [held] at ref empty
      obtain rfl : text = [] := empty
      exact absurd ref (by decide)
    | _ =>
      rw [held] at ref
      cases ref
  next => cases checked

theorem baseOf_congr (valid : validateQueue queue = .ok ())
    (validBefore : validateQueue previous = .ok ())
    (equal : same (value queue "dispatch") (value previous "dispatch") = true) :
    baseOf queue = baseOf previous := by
  obtain ⟨dispatch, ref⟩ := dispatch_of_valid valid
  obtain ⟨dispatch', ref'⟩ := dispatch_of_valid validBefore
  rw [dispatch, dispatch'] at equal
  have refs := @Json.same_value _ _ "rulespec_ref" equal
  rw [ref, ref'] at refs
  have texts : Json.str (baseOf queue) = .str (baseOf previous) :=
    Json.normal_eq_str.mp (refs.trans (by simp [Json.normal]))
  exact Json.str.inj texts

theorem PausedStep.pause (step : PausedStep digest previous queue)
    (active : hasState previous "active" = true) :
    baseOf queue = baseOf previous ∧ value queue "suspension" ≠ .null := by
  obtain ⟨expected, pauses, equal⟩ := step.pauses active
  obtain ⟨-, -, -, -, rfl⟩ := pauseQueue_eq_ok_iff.mp pauses
  constructor
  · refine baseOf_congr step.valid step.validBefore (Json.same_iff.mpr ?_)
    rw [@Json.same_value _ _ "dispatch" equal, value_suspend "dispatch" (by decide)]
  · intro none_
    have held := @Json.same_value _ _ "suspension" equal
    rw [none_, value_suspend_suspension, eq_comm] at held
    exact absurd (Json.normal_eq_null.mp (held.trans (by simp [Json.normal]))) nofun

/-- A suspended queue is not repinned. -/
theorem PausedStep.suspended (step : PausedStep digest previous queue)
    (paused : hasState previous "paused" = true) (suspended : value previous "suspension" ≠ .null) :
    baseOf queue = baseOf previous ∧ value queue "suspension" ≠ .null := by
  constructor
  · refine baseOf_congr step.valid step.validBefore ?_
    by_cases repin : isToolchainRepin queue previous = true
    · have verified := step.repin repin
      simp only [verifyToolchainRepin, bind_eq_ok_iff, check_eq_ok_iff, exists_const,
        Bool.and_eq_true, decide_eq_true_eq] at verified
      obtain ⟨_, _, _, _, _, ⟨_, none_⟩, _⟩ := verified
      exact absurd none_ suspended
    · rw [isToolchainRepin, Bool.or_eq_true, not_or, Bool.not_eq_true', Bool.not_eq_false] at repin
      exact repin.1
  · intro none_
    have equal := Json.same_iff.mp (step.suspension paused)
    rw [none_, eq_comm] at equal
    exact suspended (Json.normal_eq_null.mp (equal.trans (by simp [Json.normal])))

theorem Activation.base (step : Activation host previous request queue) :
    hasState queue "active" = true ∧ baseOf queue = request.newRulespecRef := by
  obtain ⟨items, -, rfl⟩ := step.items
  constructor
  · exact hasState_iff.mpr value_activate_state
  · rw [baseOf, dispatchText, dispatchOf, value_activate_dispatch, recordOf_obj, Json.value_set_self]
    rfl

/-- The second commit contains the first and is another. -/
def IsLater (ancestor : Text → Text → Prop) (first second : Text) : Prop :=
  ancestor first second ∧ first ≠ second

/-- What holds of the queues after an active one. -/
structure After (ancestor : Text → Text → Prop) (first queue : Record) : Prop where
  suspended : hasState queue "paused" = true → value queue "suspension" ≠ .null
  base : baseOf queue = baseOf first ∨ IsLater ancestor (baseOf first) (baseOf queue)
  active : hasState queue "active" = true → IsLater ancestor (baseOf first) (baseOf queue)

theorem After.of_paused {first : Record} (paused : hasState queue "paused" = true)
    (suspended : value queue "suspension" ≠ .null)
    (base : baseOf queue = baseOf first ∨ IsLater ancestor (baseOf first) (baseOf queue)) :
    After ancestor first queue where
  suspended _ := suspended
  base := base
  active active := by
    rw [hasState_exclusive active] at paused
    cases paused

/-- An active queue is only ever paused. -/
theorem Step.after (step : Step host ancestor previous queue)
    (active : hasState previous "active" = true) : After ancestor previous queue := by
  cases step with
  | pullRequest admitted =>
    have paused := verifyPausedTransition_eq_ok_iff.mp admitted
    obtain ⟨base, suspended⟩ := paused.pause active
    exact .of_paused paused.paused suspended (.inl base)
  | activation request decides finalized =>
    have paused := (finalizeAndRepin_activation finalized).paused
    rw [hasState_exclusive active] at paused
    cases paused

theorem state_of_valid (valid : validateQueue queue = .ok ()) :
    hasState queue "active" = true ∨ hasState queue "paused" = true := by
  obtain ⟨profile, isValid⟩ := validateQueue_eq_ok_iff.mp valid
  have checked := isValid.state
  simp only [validateState, bind_eq_ok_iff, check_eq_ok_iff] at checked
  obtain ⟨known, isKnown, _, rfl, -⟩ := checked
  obtain ⟨text, listed, held⟩ := isOneOf_eq_ok_true_iff.mp isKnown
  simp only [List.mem_cons, List.not_mem_nil, or_false] at listed
  rcases listed with rfl | rfl
  · exact .inl (hasState_iff.mpr held)
  · exact .inr (hasState_iff.mpr held)

/-- One more step after an active queue: the base stays, or a finalization moves it on. -/
theorem Step.after_after {first : Record}
    (transitive : ∀ a b c, ancestor a b → ancestor b c → ancestor a c)
    (antisymmetric : ∀ a b, ancestor a b → ancestor b a → a = b)
    (before : After ancestor first previous) (step : Step host ancestor previous queue) :
    After ancestor first queue := by
  cases step with
  | pullRequest admitted =>
    have paused := verifyPausedTransition_eq_ok_iff.mp admitted
    have stays : baseOf queue = baseOf previous ∧ value queue "suspension" ≠ .null := by
      rcases state_of_valid paused.validBefore with active | was
      · exact paused.pause active
      · exact paused.suspended was (before.suspended was)
    refine .of_paused paused.paused stays.2 ?_
    rw [stays.1]
    exact before.base
  | activation request decides finalized =>
    have activation := finalizeAndRepin_activation finalized
    obtain ⟨active, base⟩ := activation.base
    have contains : ancestor (baseOf previous) (baseOf queue) := by
      rw [base]
      exact (decides _ _).mp activation.contains
    have other : baseOf previous ≠ baseOf queue := by
      rw [base]
      exact activation.advances.symm
    have later : IsLater ancestor (baseOf first) (baseOf queue) := by
      rcases before.base with same | ⟨earlier, -⟩
      · exact same ▸ ⟨contains, other⟩
      · refine ⟨transitive _ _ _ earlier contains, fun same => other ?_⟩
        exact antisymmetric _ _ contains (same ▸ earlier)
    refine ⟨fun paused => ?_, .inr later, fun _ => later⟩
    rw [hasState_exclusive active] at paused
    cases paused

/-! ## Generations -/

/-- What a generation is the digest of. -/
def generationBytes (payload item : Record) : List UInt8 :=
  utf8 (Json.compact (sortKeys (.obj (generationOf payload item))))

/-- What the generations of a run are digests of. -/
def runGenerations (queues : Nat → Record) (last : Nat) : Set (List UInt8) :=
  {bytes | ∃ index ≤ last, ∃ item ∈ itemsOf (queues index),
    bytes = generationBytes (queues index) item}

theorem isWritten_value (written : isWritten (.obj members) = true) (key : String) :
    isWritten (value members key) = true := by
  rw [value, Json.get?]
  cases found : members.lookup key.toList with
  | none => rfl
  | some held =>
    obtain ⟨before, after, rfl, -⟩ := List.lookup_eq_some_iff.mp found
    exact Json.membersAreWritten_iff.mp written (key.toList, held) (by simp)

theorem isWritten_set {held : Json} (written : isWritten (.obj members) = true)
    (writtenHeld : isWritten held = true) :
    isWritten (.obj (set members key held)) = true := by
  have each := Json.membersAreWritten_iff.mp written
  refine Json.membersAreWritten_iff.mpr fun entry member => ?_
  unfold Json.set at member
  split at member
  · obtain ⟨old, listed, rfl⟩ := List.mem_map.mp member
    split
    · exact writtenHeld
    · exact each old listed
  · rcases List.mem_append.mp member with listed | last
    · exact each entry listed
    · rw [List.mem_singleton.mp last]
      exact writtenHeld

theorem isWritten_pop (written : isWritten (.obj members) = true) :
    isWritten (.obj (pop members key)) = true :=
  Json.membersAreWritten_iff.mpr fun entry member =>
    Json.membersAreWritten_iff.mp written entry (List.mem_filter.mp member).1

theorem isWritten_item (written : isWritten (.obj queue) = true) (listed : item ∈ itemsOf queue) :
    isWritten (.obj item) = true := by
  have items := isWritten_value written "items"
  unfold itemsOf at listed
  cases found : value queue "items" with
  | arr raws =>
    rw [found] at items listed
    obtain ⟨raw, chosen, rfl⟩ := List.mem_map.mp listed
    have own := Json.areWritten_iff.mp items raw chosen
    cases raw with
    | obj members => exact own
    | _ => rfl
  | _ =>
    rw [found] at listed
    exact absurd listed List.not_mem_nil

theorem isWritten_generationOf (written : isWritten (.obj queue) = true)
    (listed : item ∈ itemsOf queue) : isWritten (.obj (generationOf queue item)) = true := by
  have own := isWritten_item written listed
  simp only [generationOf, isWritten, Json.membersAreWritten, isWritten_value written,
    isWritten_value own, Bool.and_self]

/-- Equal generations have the same base commit. -/
theorem baseOf_eq_of_generationBytes (valid : validateQueue queue = .ok ())
    (valid' : validateQueue previous = .ok ()) (written : isWritten (.obj queue) = true)
    (written' : isWritten (.obj previous) = true) (listed : item ∈ itemsOf queue)
    (listed' : item' ∈ itemsOf previous)
    (equal : generationBytes queue item = generationBytes previous item') :
    baseOf queue = baseOf previous := by
  have members := Json.get?_of_canonical_eq (isWritten_generationOf written listed)
    (isWritten_generationOf written' listed') (utf8_injective equal) "dispatch"
  obtain ⟨dispatch, ref⟩ := dispatch_of_valid valid
  obtain ⟨dispatch', ref'⟩ := dispatch_of_valid valid'
  have held : ∀ payload item : Record,
      Json.get? (generationOf payload item) "dispatch" = some (value payload "dispatch") :=
    fun _ _ => rfl
  rw [held, held, dispatch, dispatch', Option.map_some, Option.map_some, Option.some.injEq] at members
  have refs := Json.sortKeys_obj_inj members "rulespec_ref"
  have there : ∀ {members : Record} {text : Text}, value members "rulespec_ref" = .str text →
      Json.get? members "rulespec_ref" = some (.str text) := by
    intro members text found
    obtain ⟨own, isOwn⟩ := Option.isSome_iff_exists.mp (isSome_of_value (by rw [found]; nofun))
    rw [value, isOwn] at found
    rw [isOwn, ← found]
    rfl
  rw [there ref, there ref', Option.map_some, Option.map_some, Option.some.injEq] at refs
  exact Json.str.inj refs

/-! ## Runs -/

theorem IsHistory.continues {queues : Nat → Record} {last : Nat}
    (history : IsHistory host ancestor queues last) {start later : Nat} (before : start ≤ later)
    (within : later ≤ last) : Continues (queues start) (queues later) := by
  rcases Nat.eq_or_lt_of_le before with rfl | earlier
  · exact .refl (history.valid start within)
  · exact rel_of_lt (fun step inside => (history.steps step inside).continues)
      (fun start step inside early => early.trans (history.steps step inside).continues)
      earlier within

theorem IsHistory.later {queues : Nat → Record} {last : Nat}
    (transitive : ∀ a b c, ancestor a b → ancestor b c → ancestor a c)
    (antisymmetric : ∀ a b, ancestor a b → ancestor b a → a = b)
    (history : IsHistory host ancestor queues last) {start later : Nat} (before : start < later)
    (within : later ≤ last) (active : hasState (queues start) "active" = true)
    (active' : hasState (queues later) "active" = true) :
    IsLater ancestor (baseOf (queues start)) (baseOf (queues later)) := by
  have after := @rel_of_lt _ queues last
    (fun first queue => hasState first "active" = true → After ancestor first queue)
    (fun step inside => (history.steps step inside).after)
    (fun start step inside early active =>
      (history.steps step inside).after_after transitive antisymmetric (early active))
    start later before within
  exact (after active).active active'

/-- **The history of a queue is append-only, and no generation is used again.**  Along a
run a terminal item is never rewritten, citations, ids and sequence numbers stay and
attempts do not decrease; an item is completed by finalizing the queue before, for its
generation there; and two active queues have no generation in common. -/
theorem history_appendOnly {queues : Nat → Record} {last : Nat}
    (transitive : ∀ a b c, ancestor a b → ancestor b c → ancestor a c)
    (antisymmetric : ∀ a b, ancestor a b → ancestor b a → a = b)
    (injective : Set.InjOn host.sha256 (runGenerations queues last))
    (history : IsHistory host ancestor queues last) :
    (∀ start later, start ≤ later → later ≤ last → Continues (queues start) (queues later)) ∧
      (∀ index < last, CompletesByActivation host (queues index) (queues (index + 1))) ∧
      ∀ start later, start < later → later ≤ last → hasState (queues start) "active" = true →
        hasState (queues later) "active" = true →
        DisjointGenerations host (queues start) (queues later) := by
  refine ⟨fun start later before within => history.continues before within,
    fun index inside => (history.steps index inside).completes, ?_⟩
  intro start later before within active active' item listed item' listed' equal
  have within' : start ≤ last := by omega
  have bytes := injective ⟨start, within', item, listed, rfl⟩ ⟨later, within, item', listed', rfl⟩
    equal
  have bases := baseOf_eq_of_generationBytes (history.valid start within')
    (history.valid later within) (history.decoded start within') (history.decoded later within)
    listed listed' bytes
  exact (history.later transitive antisymmetric before within active active').2 bases

end

/-! ## A run of the sample -/

/-- A base commit of the sample; each is an ancestor of the later ones. -/
def sampleCommit (c : Char) : Text := List.replicate 40 c

def sampleDispatchAt (tip : Text) : Record :=
  set (dispatchOf (sampleQueue pausedState pendingFirst)) "rulespec_ref" (.str tip)

/-- What the generations of the sample are digests of, over its three base commits. -/
def sampleGenerations : List (List UInt8) :=
  ['c', 'd', 'e'].flatMap fun c => (pendingFirst :: retriedFirst :: sampleRest).map
    (generationBytes [("dispatch".toList, .obj (sampleDispatchAt (sampleCommit c))),
      ("queue_id".toList, str snapQueueId), ("release".toList, sampleRelease)])

/-- The number of a generation, as the text of a digest. -/
def numbered (number : Nat) : Text := List.replicate 60 '0' ++ (sampleId "" number).drop 1

/-- A digest that tells the generations of the sample apart. -/
def numberingHost : Host where
  repr _ := []
  sha256 bytes := numbered (sampleGenerations.idxOf bytes)

theorem isLowerHex_numbered (number : Nat) : isLowerHex 64 (.str (numbered number)) = true := by
  have digits : ∀ n, isDigitChar (lastDigit n) = true := fun n => (lastDigit_spec n).1
  have tail : (sampleId "" number).drop 1 = [lastDigit (number / 1000), lastDigit (number / 100),
      lastDigit (number / 10), lastDigit number] := rfl
  simp [isLowerHex, numbered, tail, digits]
  decide

theorem length_sampleGenerations : sampleGenerations.length = 2496 := by
  simp [sampleGenerations, sampleRest]

theorem numberingHost_injOn :
    Set.InjOn numberingHost.sha256 {bytes | bytes ∈ sampleGenerations} := by
  intro bytes listed other listed' equal
  have below := List.idxOf_lt_length_of_mem listed
  have below' := List.idxOf_lt_length_of_mem listed'
  rw [length_sampleGenerations] at below below'
  have tails : (sampleId "" (sampleGenerations.idxOf bytes)).drop 1 =
      (sampleId "" (sampleGenerations.idxOf other)).drop 1 := List.append_cancel_left equal
  have ids : sampleId "" (sampleGenerations.idxOf bytes) =
      sampleId "" (sampleGenerations.idxOf other) := congrArg ('-' :: ·) tails
  have places := sampleId_inj (by omega) (by omega) ids
  exact (List.idxOf_inj listed).mp places

def sampleHeadSha : Text := List.replicate 40 '2'
def sampleRunUrl : Text := finalizerRunStem.toList ++ ['1']

theorem sampleFinalizer_checked : isLowerHex 40 (.str sampleHeadSha) = true ∧
    isNumbered finalizerRunStem sampleRunUrl = true := by
  decide

/-- A clean checkout at its tip. -/
def sampleCheckout (tip : Text) : Checkout where
  head := some tip
  status := some []
  remoteTip _ := some tip
  isAncestor first second := decide (first ≤ second)
  releasePin := .ok ("sample".toList, List.replicate 64 'd')
  file _ := none

/-- The tip is reviewed and green, and nothing was dispatched. -/
def sampleRequest (tip : Text) : Finalization where
  rulespecRoot := sampleCheckout tip
  checkRuns := .arr [.obj [("check_runs".toList, .arr [.obj [("status".toList, str "completed"),
    ("conclusion".toList, str "success")]])]]
  pullRequests := .arr []
  workflowRuns := .arr []
  targetEvidence := .obj []
  newRulespecRef := tip
  finalizerHeadSha := sampleHeadSha
  finalizerRunUrl := sampleRunUrl
  finalizerRunAttempt := 1
  reviewedRulespecRefs := [("us".toList, sampleCommit 'd'), ("us".toList, sampleCommit 'e')]

/-- A queue of the sample at a base commit. -/
structure InSample (c : Char) (first queue : Record) : Prop where
  valid : ValidQueue snapProfile queue
  written : isWritten (.obj queue) = true
  described : (Json.get? queue "description").isSome = true
  items : itemsOf queue = first :: sampleRest
  dispatch : value queue "dispatch" = .obj (sampleDispatchAt (sampleCommit c))
  queueId : value queue "queue_id" = str snapQueueId
  release : value queue "release" = sampleRelease

section Sample

variable {c tip : Char} {first queue : Record}

theorem InSample.mem_sampleGenerations (inSample : InSample c first queue)
    (known : c ∈ ['c', 'd', 'e']) (isFirst : first = pendingFirst ∨ first = retriedFirst)
    (listed : item ∈ itemsOf queue) :
    generationBytes queue item ∈ sampleGenerations := by
  refine List.mem_flatMap.mpr ⟨c, known, List.mem_map.mpr ⟨item, ?_, ?_⟩⟩
  · rw [inSample.items] at listed
    rcases isFirst with rfl | rfl <;> rcases List.mem_cons.mp listed with rfl | later
    · exact List.mem_cons_self
    · exact List.mem_cons_of_mem _ (List.mem_cons_of_mem _ later)
    · exact List.mem_cons_of_mem _ List.mem_cons_self
    · exact List.mem_cons_of_mem _ (List.mem_cons_of_mem _ later)
  · rw [generationBytes, generationBytes, generationOf, generationOf, inSample.dispatch,
      inSample.queueId, inSample.release]
    rfl

/-- The request is checked, and the queue is activated at its tip. -/
theorem InSample.finalized (inSample : InSample c first queue) (paused : hasState queue "paused" = true)
    (later : sampleCommit c < sampleCommit tip) (known : tip = 'd' ∨ tip = 'e')
    (unfinished : hasStatus first "completed" = false) :
    finalizeAndRepin numberingHost queue (sampleRequest (sampleCommit tip)) =
      .ok (activate numberingHost queue (sampleRequest (sampleCommit tip)) (itemsOf queue)) := by
  have base : dispatchText queue "rulespec_ref" = sampleCommit c := by
    rw [dispatchText, dispatchOf, inSample.dispatch, recordOf_obj, sampleDispatchAt,
      Json.value_set_self]
    rfl
  have country : dispatchText queue "country" = "us".toList := by
    rw [dispatchText, dispatchOf, inSample.dispatch, recordOf_obj, sampleDispatchAt,
      Json.value_set_ne (by decide)]
    rfl
  have verified : verifyCheckout queue (sampleCheckout (sampleCommit tip)) (sampleCommit tip) =
      .ok () := by
    simp only [verifyCheckout, sampleCheckout, base, inSample.release, bind_eq_ok_iff,
      check_eq_ok_iff, exists_const]
    exact ⟨by simp, rfl, decide_eq_true later.le, _, rfl, by decide⟩
  have sha : isLowerHex 40 (.str (sampleCommit tip)) = true := by
    rcases known with rfl | rfl <;> decide
  refine finalizeAndRepin_of_empty inSample.valid (fun _ => isLowerHex_numbered _) ?_ rfl rfl rfl ?_
  · simp only [verifyRequest, requireSha, bind_eq_ok_iff, check_eq_ok_iff, exists_const, base,
      country]
    refine ⟨(), validateQueue_eq_ok_iff.mpr ⟨_, inSample.valid⟩, paused, sha,
      sampleFinalizer_checked.1, sampleFinalizer_checked.2, rfl, (), rfl, ?_, ?_, verified⟩
    · exact decide_eq_true later.ne'
    · rcases known with rfl | rfl <;> decide
  · intro item listed
    rw [inSample.items, List.mem_cons] at listed
    rcases listed with rfl | listed
    · exact unfinished
    · simp only [sampleRest, List.mem_append, List.mem_map] at listed
      rcases listed with ⟨n, -, rfl⟩ | ⟨n, -, rfl⟩ <;> rfl

theorem InSample.activate (inSample : InSample c first queue) (paused : hasState queue "paused" = true)
    (ref : isLowerHex 40 (.str (sampleCommit tip)) = true) :
    InSample tip first
      (activate numberingHost queue (sampleRequest (sampleCommit tip)) (itemsOf queue)) where
  valid := inSample.valid.activate ⟨validateQueue_eq_ok_iff.mpr ⟨_, inSample.valid⟩, paused, ref,
    sampleFinalizer_checked.1, sampleFinalizer_checked.2, rfl⟩ fun _ => isLowerHex_numbered _
  written := by
    have items : isWritten (.arr ((itemsOf queue).map Json.obj)) = true :=
      inSample.valid.items ▸ isWritten_value inSample.written "items"
    have dispatch : isWritten (.obj (dispatchOf queue)) = true := by
      have held := isWritten_value inSample.written "dispatch"
      rwa [dispatchOf, inSample.dispatch, recordOf_obj, ← inSample.dispatch]
    exact isWritten_set (isWritten_pop (isWritten_pop (isWritten_set (isWritten_set
      (isWritten_set inSample.written items) (isWritten_set dispatch rfl)) rfl))) rfl
  described := by
    rw [get?_activate (by decide)]
    exact inSample.described
  items := by
    rw [itemsOf_activate, inSample.items]
  dispatch := by
    rw [value_activate_dispatch, dispatchOf, inSample.dispatch, recordOf_obj]
    rfl
  queueId := (value_activate (by decide)).trans inSample.queueId
  release := (value_activate (by decide)).trans inSample.release

theorem InSample.suspend (inSample : InSample c first queue) {reason : Text}
    (nonblank : (strip reason).isEmpty = false) (hex : isLowerHex 64 (.str digest) = true) :
    InSample c first (suspend queue reason digest) where
  valid := inSample.valid.suspend nonblank hex
  written := isWritten_set (isWritten_pop (isWritten_set (isWritten_set inSample.written rfl) rfl)) rfl
  described := by
    rw [get?_suspend (by decide)]
    exact inSample.described
  items := by
    rw [itemsOf_suspend, inSample.items]
  dispatch := (value_suspend "dispatch" (by decide)).trans inSample.dispatch
  queueId := (value_suspend "queue_id" (by decide)).trans inSample.queueId
  release := (value_suspend "release" (by decide)).trans inSample.release

end Sample

/-- The queue with its retried item, activated at a later commit. -/
def sampleActivated : Record :=
  activate numberingHost (sampleQueue pausedState retriedFirst) (sampleRequest (sampleCommit 'd'))
    (itemsOf (sampleQueue pausedState retriedFirst))

def sampleSuspended : Record :=
  suspend sampleActivated "Pause.".toList (queueObjectFileSha256 numberingHost sampleActivated)

def sampleReactivated : Record :=
  activate numberingHost sampleSuspended (sampleRequest (sampleCommit 'e')) (itemsOf sampleSuspended)

def sampleRun : Nat → Record
  | 0 => sampleQueue pausedState pendingFirst
  | 1 => sampleQueue pausedState retriedFirst
  | 2 => sampleActivated
  | 3 => sampleSuspended
  | _ => sampleReactivated

theorem sampleRun_states : hasState sampleActivated "active" = true ∧
    hasState sampleSuspended "paused" = true ∧ hasState sampleReactivated "active" = true :=
  ⟨hasState_iff.mpr value_activate_state, hasState_iff.mpr value_suspend_state,
    hasState_iff.mpr value_activate_state⟩

theorem sampleRun_inSample :
    InSample 'c' pendingFirst (sampleRun 0) ∧ InSample 'c' retriedFirst (sampleRun 1) ∧
      InSample 'd' retriedFirst (sampleRun 2) ∧ InSample 'd' retriedFirst (sampleRun 3) ∧
      InSample 'e' retriedFirst (sampleRun 4) := by
  have first : InSample 'c' pendingFirst (sampleRun 0) :=
    ⟨pausedQueue_valid pendingFirst_checked rfl, by decide +kernel, rfl, itemsOf_sampleQueue _ _, rfl,
      rfl, rfl⟩
  have second : InSample 'c' retriedFirst (sampleRun 1) :=
    ⟨pausedQueue_valid retriedFirst_checked rfl, by decide +kernel, rfl, itemsOf_sampleQueue _ _, rfl,
      rfl, rfl⟩
  have third : InSample 'd' retriedFirst (sampleRun 2) := second.activate rfl (by decide)
  have fourth : InSample 'd' retriedFirst (sampleRun 3) :=
    third.suspend (by decide) (isLowerHex_numbered _)
  exact ⟨first, second, third, fourth,
    fourth.activate sampleRun_states.2.1 (by decide)⟩

theorem sampleRun_isHistory : IsHistory numberingHost (· ≤ ·) sampleRun 4 := by
  obtain ⟨first, second, third, fourth, fifth⟩ := sampleRun_inSample
  have active : hasState (sampleRun 2) "active" = true := sampleRun_states.1
  have decides (tip : Text) (first second : Text) :
      (sampleRequest tip).rulespecRoot.isAncestor first second = true ↔ first ≤ second :=
    decide_eq_true_iff
  refine ⟨fun index within => ?_, fun index within => ?_, rfl, rfl, fun index inside => ?_⟩
  · interval_cases index
    exacts [first.written, second.written, third.written, fourth.written, fifth.written]
  · interval_cases index
    exacts [validateQueue_eq_ok_iff.mpr ⟨_, first.valid⟩, validateQueue_eq_ok_iff.mpr ⟨_, second.valid⟩,
      validateQueue_eq_ok_iff.mpr ⟨_, third.valid⟩, validateQueue_eq_ok_iff.mpr ⟨_, fourth.valid⟩,
      validateQueue_eq_ok_iff.mpr ⟨_, fifth.valid⟩]
  · interval_cases index
    · exact .pullRequest ((verify_recordDisposition_iff rfl
        (retry_recorded pendingFirst_checked rfl retry_pendingFirst) _).mpr
          ⟨rfl, pendingQueue_leavesTerminal⟩)
    · exact .activation _ (decides _) (second.finalized rfl (by decide) (.inl rfl) rfl)
    · exact .pullRequest ((verify_pauseQueue_iff (pauseQueue_eq_ok_iff.mpr
        ⟨validateQueue_eq_ok_iff.mpr ⟨_, third.valid⟩, active, by decide, isLowerHex_numbered _,
          rfl⟩)).mpr third.described)
    · exact .activation _ (decides _) (fourth.finalized sampleRun_states.2.1 (by decide)
        (.inr rfl) rfl)

theorem runGenerations_sampleRun : runGenerations sampleRun 4 ⊆ {bytes | bytes ∈ sampleGenerations} := by
  obtain ⟨first, second, third, fourth, fifth⟩ := sampleRun_inSample
  rintro bytes ⟨index, within, item, listed, rfl⟩
  interval_cases index
  · exact first.mem_sampleGenerations (by decide) (.inl rfl) listed
  · exact second.mem_sampleGenerations (by decide) (.inr rfl) listed
  · exact third.mem_sampleGenerations (by decide) (.inr rfl) listed
  · exact fourth.mem_sampleGenerations (by decide) (.inr rfl) listed
  · exact fifth.mem_sampleGenerations (by decide) (.inr rfl) listed

/-- The items continue over two activations, whose generations are apart. -/
theorem history_appendOnly_sample :
    Continues (sampleRun 0) (sampleRun 4) ∧
      DisjointGenerations numberingHost (sampleRun 2) (sampleRun 4) := by
  obtain ⟨continues, -, apart⟩ := history_appendOnly (fun _ _ _ first second => first.trans second)
    (fun _ _ first second => first.antisymm second) (numberingHost_injOn.mono runGenerations_sampleRun)
    sampleRun_isHistory
  exact ⟨continues 0 4 (by decide) le_rfl, apart 2 4 (by decide) le_rfl
    sampleRun_states.1 sampleRun_states.2.2⟩

end AxiomEncode.Queue
