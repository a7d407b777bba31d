/-
# Queue.Producers -- the edits that make the next queue

What `recordDisposition` and `pauseQueue` return passes the gate under one condition
each: the queue has a description, and no terminal item is given another disposition.
Neither command looks at either.
-/
import AxiomEncode.Queue.TransitionSpec

namespace AxiomEncode.Queue

open Theory
open Theory.Json (value same set pop)

set_option autoImplicit false

/-- The item of an id is not terminal, or has the very disposition that is recorded. -/
def LeavesTerminal (payload : Record) (itemId status : Text) (evidenceUrl note : Option Text) :
    Prop :=
  ∀ item ∈ itemsOf payload, idOf item = itemId →
    statusIn item terminalStatuses = false ∨
      repeatsDisposition status evidenceUrl note item = true

/-- The last digit of a number. -/
def lastDigit (number : Nat) : Char := Char.ofNat (48 + number % 10)

def sampleId (state : String) (number : Nat) : Text :=
  state.toList ++ ['-', lastDigit (number / 1000), lastDigit (number / 100),
    lastDigit (number / 10), lastDigit number]

def sampleJurisdiction (state : String) : Text := "us-".toList ++ state.toList

/-- The priority citations for the first items, and an invented one for the others. -/
def sampleCitation (sequence : Nat) (state : String) (number : Nat) : Text :=
  match priorityCitations[sequence - 1]? with
  | some citation => citation.toList
  | none => sampleJurisdiction state ++ '/' :: sampleId state number

def sampleItem (sequence : Nat) (state : String) (number : Nat) (status : String) (attempt : Int)
    (evidence : List (Text × Json)) : Record :=
  [("attempt".toList, .int attempt),
    ("citation".toList, .str (sampleCitation sequence state number)),
    ("id".toList, .str (sampleId state number)),
    ("jurisdiction".toList, .str (sampleJurisdiction state)), ("label".toList, str "Page"),
    ("sequence".toList, .int sequence), ("source_kind".toList, str "page"),
    ("status".toList, str status)] ++ evidence

/-- The items after the first one, all pending. -/
def sampleRest : List Record :=
  ((List.range' 1 530).map fun number => sampleItem (number + 1) "or" number "pending" 1 []) ++
    (List.range' 2 300).map fun number => sampleItem (number + 530) "ut" number "pending" 1 []

def sampleDispatch : Json :=
  .obj [("corpus_ref".toList, .str (List.replicate 40 'a')), ("country".toList, str "us"),
    ("max_batch_size".toList, .int 4), ("open_pr".toList, .bool true),
    ("pr_base_branch".toList, str "hard-cut/canonical-layout-us"),
    ("rules_engine_ref".toList, .str (List.replicate 40 'b')),
    ("rulespec_ref".toList, .str (List.replicate 40 'c'))]

def sampleRelease : Json :=
  .obj [("content_sha256".toList, .str (List.replicate 64 'd')),
    ("manifest_sha256".toList, .str (List.replicate 64 'e')), ("name".toList, str "sample")]

/-- A queue, given the members of its state and its first item. -/
def sampleQueue (state first : Record) : Record :=
  [("description".toList, str "Sample."), ("dispatch".toList, sampleDispatch),
    ("expected_counts".toList, countsJson expectedCounts), ("issue".toList, .int 1257),
    ("items".toList, .arr ((first :: sampleRest).map Json.obj)),
    ("queue_id".toList, str snapQueueId), ("release".toList, sampleRelease),
    ("schema".toList, str queueSchema)] ++ state

def pausedState : Record :=
  [("pause_reason".toList, str "Sample."), ("state".toList, str "paused")]

theorem eachChecked_append {profile : QueueProfile} {items others : List Record} :
    ∀ {sequence : Int}, EachChecked profile sequence (items ++ others) ↔
      EachChecked profile sequence items ∧
        EachChecked profile (sequence + items.length) others := by
  induction items with
  | nil => simp [EachChecked]
  | cons item rest ih =>
    intro sequence
    rw [List.cons_append, EachChecked, EachChecked, ih, and_assoc, List.length_cons]
    have next : sequence + 1 + (rest.length : Int) = sequence + ((rest.length + 1 : Nat) : Int) := by
      omega
    rw [next]

theorem eachChecked_range' {profile : QueueProfile} {make : Nat → Record} {count : Nat} :
    ∀ {start sequence : Nat},
      (∀ step < count, ItemChecks profile (sequence + step : Nat) (make (start + step))) →
      EachChecked profile sequence ((List.range' start count).map make) := by
  induction count with
  | zero => intros; trivial
  | succ count ih =>
    intro start sequence each
    refine ⟨each 0 (Nat.succ_pos _), ?_⟩
    refine @ih _ (sequence + 1) fun step few => ?_
    have later := each (step + 1) (by omega)
    rwa [show sequence + (step + 1) = sequence + 1 + step by omega,
      show start + (step + 1) = start + 1 + step by omega] at later

/-- What an item's number shows in. -/
def numberFits (sequence : Nat) (state : String) (number : Nat) : Bool :=
  let id := sampleId state number
  let jurisdiction := sampleJurisdiction state
  let citation := sampleCitation sequence state number
  isItemId id && isItemIdOf 4 jurisdiction id && (jurisdiction ++ ['/']).isPrefixOf citation &&
    !citation.any isSpace

variable {sequence number : Nat} {state status : String} {attempt : Int}
  {evidence : List (Text × Json)} {first : Record} {evidenceUrl note : Option Text}

theorem sampleItem_checked
    (known : ∃ text ∈ snapProfile.jurisdictions, .str (sampleJurisdiction state) = str text)
    (fits : numberFits sequence state number = true) (positive : 0 < attempt)
    (allowed : ∃ other ∈ allowedStatuses, str status = str other)
    (supported : validateEvidence snapProfile.issue (String.ofList (sampleId state number))
      (sampleItem sequence state number status attempt evidence) = .ok ()) :
    ItemChecks snapProfile sequence (sampleItem sequence state number status attempt evidence) := by
  simp only [numberFits, Bool.and_eq_true] at fits
  obtain ⟨⟨⟨wellFormed, own⟩, inside⟩, solid⟩ := fits
  refine ⟨wellFormed, own, isOneOf_eq_ok_true_iff.mpr known, ?_, Json.same_refl _,
    decide_eq_true positive, isOneOf_eq_ok_true_iff.mpr allowed, supported, rfl, rfl⟩
  rw [Bool.and_eq_true]
  exact ⟨inside, solid⟩

theorem pendingItem_checked
    (known : ∃ text ∈ snapProfile.jurisdictions, .str (sampleJurisdiction state) = str text)
    (fits : numberFits sequence state number = true) :
    ItemChecks snapProfile sequence (sampleItem sequence state number "pending" 1 []) :=
  sampleItem_checked known fits (by decide) ⟨"pending", by decide, rfl⟩ rfl

theorem lastDigit_spec (number : Nat) :
    isDigitChar (lastDigit number) = true ∧ isSpace (lastDigit number) = false ∧
      (lastDigit number).toNat = 48 + number % 10 := by
  have each : ∀ digit < 10, isDigitChar (Char.ofNat (48 + digit)) = true ∧
      isSpace (Char.ofNat (48 + digit)) = false ∧
      (Char.ofNat (48 + digit)).toNat = 48 + digit := by decide
  exact each (number % 10) (Nat.mod_lt _ (by omega))

theorem sampleId_inj {other : String} {number' : Nat} (small : number < 10000)
    (small' : number' < 10000) (equal : sampleId state number = sampleId other number') :
    number = number' := by
  obtain ⟨-, tails⟩ := List.append_inj' equal rfl
  simp only [List.cons.injEq, and_true, true_and] at tails
  have digits : ∀ {a b}, lastDigit a = lastDigit b → a % 10 = b % 10 := by
    intro a b same
    have codes := congrArg Char.toNat same
    rw [(lastDigit_spec a).2.2, (lastDigit_spec b).2.2] at codes
    omega
  have thousands := digits tails.1
  have hundreds := digits tails.2.1
  have tens := digits tails.2.2.1
  have ones := digits tails.2.2.2
  omega

/-- Past the priority citations every number fits. -/
theorem numberFits_of_late (late : 5 ≤ sequence) (known : state = "or" ∨ state = "ut")
    (number : Nat) :
    numberFits sequence state number = true := by
  have none_ : priorityCitations[sequence - 1]? = none :=
    List.getElem?_eq_none (by simp only [priorityCitations, List.length_cons, List.length_nil]; omega)
  have digits := fun n => (lastDigit_spec n).1
  have solid := fun n => (lastDigit_spec n).2.1
  have plain : isSpace 'u' = false ∧ isSpace 's' = false ∧ isSpace '-' = false ∧
      isSpace '/' = false ∧ isSpace 'o' = false ∧ isSpace 'r' = false ∧ isSpace 't' = false := by
    decide
  rcases known with rfl | rfl <;>
    simp [numberFits, sampleCitation, none_, sampleJurisdiction, sampleId, isItemId, isItemIdOf,
      digits, solid, isLowerChar, plain]

theorem sampleRest_checked : EachChecked snapProfile 2 sampleRest := by
  have oregon : ∀ step, numberFits (2 + step) "or" (1 + step) = true := by
    intro step
    by_cases early : step < 3
    · have first : ∀ step < 3, numberFits (2 + step) "or" (1 + step) = true := by decide
      exact first step early
    · exact numberFits_of_late (by omega) (.inl rfl) _
  refine eachChecked_append.mpr ⟨?_, ?_⟩
  · refine @eachChecked_range' _ _ _ _ 2 fun step few => ?_
    rw [show 1 + step + 1 = 2 + step by omega]
    exact pendingItem_checked ⟨"us-or", by decide, rfl⟩ (oregon step)
  · rw [List.length_map, List.length_range']
    refine @eachChecked_range' _ _ _ _ 532 fun step few => ?_
    rw [show 2 + step + 530 = 532 + step by omega]
    exact pendingItem_checked ⟨"us-ut", by decide, rfl⟩
      (numberFits_of_late (by omega) (.inr rfl) _)

/-- The keys of all items: the priority tranche, then Oregon, then Utah. -/
def sampleKeys : List ItemKeys :=
  (sampleItem 1 "ut" 1 "pending" 1 [] :: sampleRest).map keysOf

/-- The characters of a text as the digits of a number. -/
def textCode (text : Text) : Nat := text.foldl (fun code c => code * 256 + c.toNat) 0

/-- Texts whose codes ascend, behind a few that are compared one by one. -/
theorem nodup_of_codes (front : Nat) {texts : List Text}
    (apart : ((texts.map textCode).take front).Nodup ∧
      (∀ code ∈ (texts.map textCode).take front, code ∉ (texts.map textCode).drop front) ∧
      ((texts.map textCode).drop front).IsChain (· < ·)) : texts.Nodup := by
  obtain ⟨first, between, later⟩ := apart
  refine List.Nodup.of_map textCode ?_
  rw [← List.take_append_drop front (texts.map textCode)]
  refine List.nodup_append'.mpr ⟨first, (List.isChain_iff_pairwise.mp later).imp Nat.ne_of_lt, ?_⟩
  exact fun code member => between code member

theorem sampleIds_nodup : (sampleKeys.map ItemKeys.id).Nodup :=
  nodup_of_codes 1 (by decide +kernel)

theorem sampleCitations_nodup : (sampleKeys.map ItemKeys.citation).Nodup :=
  nodup_of_codes 4 (by decide +kernel)

theorem itemsOf_sampleQueue (state first : Record) :
    itemsOf (sampleQueue state first) = first :: sampleRest := itemsOf_of_value rfl

theorem sampleQueue_valid {state : Record}
    (identity : validateIdentity (sampleQueue state first) = .ok snapProfile)
    (validState : validateState (sampleQueue state first) = .ok ())
    (checks : ItemChecks snapProfile 1 first)
    (keys : keysOf first = keysOf (sampleItem 1 "ut" 1 "pending" 1 [])) :
    ValidQueue snapProfile (sampleQueue state first) := by
  have items := itemsOf_sampleQueue state first
  have allKeys : (itemsOf (sampleQueue state first)).map keysOf = sampleKeys := by
    rw [items, List.map_cons, keys]
    rfl
  have counted : countItems snapProfile sampleKeys = expectedCounts := by decide +kernel
  have tranche : (sampleKeys.take 4).map ItemKeys.citation = priorityCitations.map String.toList := by
    decide +kernel
  refine ⟨identity, validState, rfl, rfl, Json.same_refl _, ?_, ?_, ?_, ?_, ?_, ?_, ?_⟩
  · rw [items]
    rfl
  · rw [← List.length_map keysOf, allKeys]
    simp only [sampleKeys, sampleRest, List.length_map, List.length_cons, List.length_append,
      List.length_range']
    rfl
  · rw [items]
    exact ⟨checks, sampleRest_checked⟩
  · have ids := sampleIds_nodup
    rwa [← allKeys, List.map_map] at ids
  · have citations := sampleCitations_nodup
    rwa [← allKeys, List.map_map] at citations
  · rw [allKeys]
    exact counted
  · rw [allKeys, Bool.or_eq_true, decide_eq_true_eq]
    exact .inr tranche

/-- The first item, in a status with its evidence. -/
def firstItem (status : String) (attempt : Int) (evidence : List (Text × Json)) : Record :=
  sampleItem 1 "ut" 1 status attempt evidence

theorem firstItem_checked (positive : 0 < attempt)
    (allowed : ∃ other ∈ allowedStatuses, str status = str other)
    (supported : validateEvidence snapProfile.issue (String.ofList (sampleId "ut" 1))
      (firstItem status attempt evidence) = .ok ()) :
    ItemChecks snapProfile 1 (firstItem status attempt evidence) := by
  have fits : numberFits 1 "ut" 1 = true := by decide +kernel
  exact sampleItem_checked ⟨"us-ut", by decide, rfl⟩ fits positive allowed supported

def pendingFirst : Record := firstItem "pending" 1 []

def retriedFirst : Record := firstItem "retryable" 2 []

theorem pendingFirst_checked : ItemChecks snapProfile 1 pendingFirst :=
  firstItem_checked (by decide) ⟨"pending", by decide, rfl⟩ rfl

theorem retriedFirst_checked : ItemChecks snapProfile 1 retriedFirst :=
  firstItem_checked (by decide) ⟨"retryable", by decide, rfl⟩ rfl

theorem retry_pendingFirst : disposeItem "retryable".toList none none pendingFirst = retriedFirst := by
  decide +kernel

theorem pausedQueue_valid (checks : ItemChecks snapProfile 1 first)
    (keys : keysOf first = keysOf pendingFirst) :
    ValidQueue snapProfile (sampleQueue pausedState first) :=
  sampleQueue_valid rfl rfl checks keys

/-- Recording a disposition of the first item of the sample. -/
theorem recordDisposition_sampleQueue {status : Text} (checks : ItemChecks snapProfile 1 first)
    (keys : keysOf first = keysOf pendingFirst)
    (allowed : ∃ other ∈ dispositionStatuses, other.toList = status)
    (checks' : ItemChecks snapProfile 1 (disposeItem status evidenceUrl note first))
    (keys' : keysOf (disposeItem status evidenceUrl note first) = keysOf pendingFirst) :
    recordDisposition (sampleQueue pausedState first) (sampleId "ut" 1) status evidenceUrl note =
      .ok (sampleQueue pausedState (disposeItem status evidenceUrl note first)) := by
  have items := itemsOf_sampleQueue pausedState first
  have valid := pausedQueue_valid checks keys
  have target : idOf first = sampleId "ut" 1 := congrArg ItemKeys.id keys
  have others : ∀ item ∈ sampleRest, idOf item ≠ sampleId "ut" 1 := by
    intro item listed same
    have ids := valid.ids
    rw [items, List.map_cons, List.nodup_cons, target] at ids
    exact ids.1 (same ▸ List.mem_map_of_mem listed)
  have changed : changeItem (sampleId "ut" 1) (disposeItem status evidenceUrl note)
      (first :: sampleRest) = disposeItem status evidenceUrl note first :: sampleRest := by
    rw [changeItem, List.map_cons, if_pos target]
    refine congrArg _ ((List.map_congr_left fun item listed => ?_).trans (List.map_id _))
    exact if_neg (others item listed)
  refine recordDisposition_eq_ok_iff.mpr ⟨validateQueue_eq_ok_iff.mpr ⟨_, valid⟩, allowed, ?_, ?_,
    validateQueue_eq_ok_iff.mpr ⟨_, pausedQueue_valid checks' keys'⟩⟩
  · rw [items, List.filter_cons_of_pos (by simpa using target),
      List.filter_eq_nil_iff.mpr fun item listed => by simpa using others item listed]
    rfl
  · rw [items, changed]
    rfl

theorem retry_recorded (checks : ItemChecks snapProfile 1 first)
    (keys : keysOf first = keysOf pendingFirst)
    (retried : disposeItem "retryable".toList none none first = retriedFirst) :
    recordDisposition (sampleQueue pausedState first) (sampleId "ut" 1) "retryable".toList
        none none = .ok (sampleQueue pausedState retriedFirst) := by
  rw [← retried]
  refine recordDisposition_sampleQueue checks keys ⟨"retryable", by decide, rfl⟩ ?_ ?_
  · rw [retried]
    exact retriedFirst_checked
  · rw [retried]
    rfl

theorem pendingQueue_leavesTerminal {itemId status : Text} :
    LeavesTerminal (sampleQueue pausedState pendingFirst) itemId status evidenceUrl note := by
  intro item listed target
  rw [itemsOf_sampleQueue, List.mem_cons] at listed
  rcases listed with rfl | later
  · exact .inl (by decide)
  · simp only [sampleRest, List.mem_append, List.mem_map] at later
    rcases later with ⟨n, -, rfl⟩ | ⟨n, -, rfl⟩ <;> exact .inl rfl

end AxiomEncode.Queue
