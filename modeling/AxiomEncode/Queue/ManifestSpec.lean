/-
# Queue.ManifestSpec -- what a valid queue has

The checks of an item look at the items before it only for an id or a citation that
comes again.  So the items of a valid queue are the items that pass on their own, at
their sequence numbers, with no id and no citation twice.
-/
import AxiomEncode.Queue.Transition
import Mathlib.Data.List.Nodup

namespace AxiomEncode.Queue

open Theory
open Theory.Json (value same set pop)

set_option autoImplicit false

/-! ## Items one by one -/

/-- The checks of one item that look at no other. -/
structure ItemChecks (profile : QueueProfile) (sequence : Int) (item : Record) : Prop where
  wellFormed : isItemId (idOf item) = true
  fits : isItemIdOf profile.itemWidth (textOf (value item "jurisdiction")) (idOf item) = true
  jurisdiction : isOneOf (value item "jurisdiction") profile.jurisdictions = .ok true
  citation : ((textOf (value item "jurisdiction") ++ ['/']).isPrefixOf
      (textOf (value item "citation")) && !(textOf (value item "citation")).any isSpace) = true
  sequence : same (value item "sequence") (.int sequence) = true
  attempt : isAttempt (value item "attempt") = true
  status : isOneOf (value item "status") allowedStatuses = .ok true
  evidence : validateEvidence profile.issue (String.ofList (idOf item)) item = .ok ()
  sourceKind : isSourceKind (textOf (value item "source_kind")) = true
  label : isNonblank (value item "label") = true

def keysOf (item : Record) : ItemKeys :=
  ⟨idOf item, textOf (value item "citation"), textOf (value item "jurisdiction")⟩

variable {profile : QueueProfile} {sequence : Int} {raw : Json} {payload members item : Record}
  {items : List Record} {key : String}

theorem validateItem_eq_ok_iff {seen : List ItemKeys} {keys : ItemKeys} :
    validateItem profile seen sequence raw = .ok keys ↔
      ∃ item, raw = .obj item ∧ ItemChecks profile sequence item ∧ keys = keysOf item ∧
        keys.id ∉ seen.map ItemKeys.id ∧ keys.citation ∉ seen.map ItemKeys.citation := by
  cases raw with
  | obj item =>
    simp only [validateItem, bind_eq_ok_iff, check_eq_ok_iff, exists_const, Bool.not_eq_true',
      ← Bool.not_eq_true, List.contains_iff_mem, Json.obj.injEq, exists_eq_left']
    constructor
    · rintro ⟨wellFormed, fits, freshId, _, jurisdiction, rfl, citation, freshCitation, sequence,
        attempt, _, status, rfl, _, evidence, sourceKind, label, last⟩
      cases Except.ok.inj last
      exact ⟨⟨wellFormed, fits, jurisdiction, citation, sequence, attempt, status, evidence,
        sourceKind, label⟩, rfl, freshId, freshCitation⟩
    · rintro ⟨checks, rfl, freshId, freshCitation⟩
      exact ⟨checks.wellFormed, checks.fits, freshId, true, checks.jurisdiction, rfl,
        checks.citation, freshCitation, checks.sequence, checks.attempt, true, checks.status,
        rfl, (), checks.evidence, checks.sourceKind, checks.label, rfl⟩
  | _ => simp [validateItem]

/-- The items pass their own checks, numbered from one sequence number on. -/
def EachChecked (profile : QueueProfile) : Int → List Record → Prop
  | _, [] => True
  | sequence, item :: rest =>
    ItemChecks profile sequence item ∧ EachChecked profile (sequence + 1) rest

theorem nodup_map_snoc {α β : Type} {f : α → β} {xs : List α} {x : α} :
    ((xs ++ [x]).map f).Nodup ↔ (xs.map f).Nodup ∧ f x ∉ xs.map f := by
  rw [List.map_append, List.map_singleton, List.nodup_append', List.disjoint_singleton]
  exact and_congr_right fun _ => and_iff_right (List.nodup_singleton _)

theorem validateItems_eq_ok_iff {profile : QueueProfile} {raws : List Json} :
    ∀ {seen : List ItemKeys} {sequence : Int} {keys : List ItemKeys},
      (seen.map ItemKeys.id).Nodup → (seen.map ItemKeys.citation).Nodup →
      (validateItems profile seen sequence raws = .ok keys ↔
        ∃ items, raws = items.map Json.obj ∧ EachChecked profile sequence items ∧
          keys = seen ++ items.map keysOf ∧ (keys.map ItemKeys.id).Nodup ∧
          (keys.map ItemKeys.citation).Nodup) := by
  induction raws with
  | nil =>
    intro seen sequence keys ids citations
    rw [validateItems, Except.ok.injEq]
    constructor
    · rintro rfl
      exact ⟨[], rfl, trivial, (List.append_nil _).symm, ids, citations⟩
    · rintro ⟨items, none_, -, rfl, -⟩
      cases List.map_eq_nil_iff.mp none_.symm
      exact (List.append_nil _).symm
  | cons raw rest ih =>
    intro seen sequence keys ids citations
    rw [validateItems, bind_eq_ok_iff]
    constructor
    · rintro ⟨first, here, later⟩
      obtain ⟨item, rfl, checks, rfl, freshId, freshCitation⟩ := validateItem_eq_ok_iff.mp here
      have ids' := nodup_map_snoc.mpr ⟨ids, freshId⟩
      have citations' := nodup_map_snoc.mpr ⟨citations, freshCitation⟩
      obtain ⟨items, rfl, each, rfl, distinct⟩ := (ih ids' citations').mp later
      refine ⟨item :: items, rfl, ⟨checks, each⟩, ?_, distinct⟩
      rw [List.append_assoc, List.singleton_append, List.map_cons]
    · rintro ⟨items, whole, each, rfl, distinct⟩
      obtain ⟨item, items, rfl, rfl, rfl⟩ := List.map_eq_cons_iff.mp whole.symm
      rw [List.map_cons, ← List.singleton_append, ← List.append_assoc] at distinct
      have first : ∀ {β : Type} {f : ItemKeys → β},
          ((seen ++ [keysOf item] ++ items.map keysOf).map f).Nodup →
            ((seen ++ [keysOf item]).map f).Nodup := by
        intro β f all
        rw [List.map_append, List.nodup_append'] at all
        exact all.1
      have ids' := first distinct.1
      have citations' := first distinct.2
      refine ⟨keysOf item, validateItem_eq_ok_iff.mpr ⟨item, rfl, each.1, rfl,
        (nodup_map_snoc.mp ids').2, (nodup_map_snoc.mp citations').2⟩,
        (ih ids' citations').mpr ⟨items, rfl, each.2, ?_, ?_⟩⟩
      · rw [List.append_assoc, List.singleton_append, List.map_cons]
      · rw [List.map_cons, ← List.singleton_append, ← List.append_assoc]
        exact distinct

theorem validateItems_nil_eq_ok_iff {raws : List Json} {keys : List ItemKeys} :
    validateItems profile [] 1 raws = .ok keys ↔
      ∃ items, raws = items.map Json.obj ∧ EachChecked profile 1 items ∧
        keys = items.map keysOf ∧ (keys.map ItemKeys.id).Nodup ∧
        (keys.map ItemKeys.citation).Nodup :=
  @validateItems_eq_ok_iff profile raws [] 1 keys List.nodup_nil List.nodup_nil

/-! ## The whole queue -/

/-- What a valid queue has, its items as records. -/
structure ValidQueue (profile : QueueProfile) (payload : Record) : Prop where
  identity : validateIdentity payload = .ok profile
  state : validateState payload = .ok ()
  release : validateRelease payload = .ok ()
  dispatch : validateDispatch payload = .ok ()
  counts : same (value payload "expected_counts") (countsJson profile.expectedCounts) = true
  items : value payload "items" = .arr ((itemsOf payload).map Json.obj)
  total : ((itemsOf payload).length : Int) = profile.total
  each : EachChecked profile 1 (itemsOf payload)
  ids : ((itemsOf payload).map idOf).Nodup
  citations : ((itemsOf payload).map fun item => textOf (value item "citation")).Nodup
  counted : countItems profile ((itemsOf payload).map keysOf) = profile.expectedCounts
  priority : (profile.priorityCitations.isEmpty ||
    (((itemsOf payload).map keysOf).take profile.priorityCitations.length).map ItemKeys.citation =
      profile.priorityCitations.map String.toList) = true

@[simp] theorem recordOf_obj (members : Record) : recordOf (.obj members) = members := rfl

theorem map_recordOf_obj (items : List Record) : (items.map Json.obj).map recordOf = items := by
  rw [List.map_map]
  exact List.map_id _

theorem itemsOf_of_value (found : value payload "items" = .arr (items.map Json.obj)) :
    itemsOf payload = items := by
  rw [itemsOf, found]
  exact map_recordOf_obj items

theorem validateQueue_eq_ok_iff {u : Unit} :
    validateQueue payload = .ok u ↔ ∃ profile, ValidQueue profile payload := by
  simp only [validateQueue, bind_eq_ok_iff]
  refine exists_congr fun profile => ?_
  constructor
  · rintro ⟨identity, _, state, _, release, _, dispatch, inventory⟩
    simp only [validateInventory, bind_eq_ok_iff, check_eq_ok_iff, exists_const] at inventory
    obtain ⟨counts, inventory⟩ := inventory
    split at inventory
    next raws found =>
      simp only [bind_eq_ok_iff, check_eq_ok_iff, exists_const, decide_eq_true_eq] at inventory
      obtain ⟨total, keys, checked, counted, priority⟩ := inventory
      obtain ⟨items, rfl, each, rfl, ids, citations⟩ :=
        validateItems_nil_eq_ok_iff.mp checked
      obtain rfl := itemsOf_of_value found
      rw [List.length_map] at total
      rw [List.map_map] at ids citations
      exact ⟨identity, state, release, dispatch, counts, found, total, each, ids, citations,
        counted, priority⟩
    next => cases inventory
  · intro valid
    refine ⟨valid.identity, (), valid.state, (), valid.release, (), valid.dispatch, ?_⟩
    simp only [validateInventory, bind_eq_ok_iff, check_eq_ok_iff, exists_const, valid.items,
      decide_eq_true_eq]
    refine ⟨valid.counts, ?_, (itemsOf payload).map keysOf,
      validateItems_nil_eq_ok_iff.mpr ⟨itemsOf payload, rfl, valid.each, rfl, ?_, ?_⟩,
      valid.counted, valid.priority⟩
    · rw [List.length_map]
      exact valid.total
    · rw [List.map_map]
      exact valid.ids
    · rw [List.map_map]
      exact valid.citations

/-! ## Members that are there -/

theorem isSome_of_value (held : value members key ≠ .null) :
    (Json.get? members key).isSome = true := by
  unfold value at held
  cases found : Json.get? members key with
  | none => exact absurd (by rw [found]; rfl) held
  | some _ => rfl

theorem value_ne_null_of_textOf (held : textOf (value members key) ≠ []) :
    value members key ≠ .null := by
  intro none_
  rw [none_] at held
  exact held rfl

theorem isOneOf_eq_ok_true_iff {texts : List String} :
    isOneOf raw texts = .ok true ↔ ∃ text ∈ texts, raw = str text := by
  cases raw with
  | str own =>
    simp only [isOneOf, Except.ok.injEq, List.any_eq_true, beq_iff_eq, str, Json.str.injEq]
    exact exists_congr fun text => and_congr_right fun _ => eq_comm
  | _ => simp [isOneOf, str]

instance {profile : QueueProfile} {sequence : Int} {item : Record} :
    Decidable (ItemChecks profile sequence item) :=
  decidable_of_iff
    (isItemId (idOf item) = true ∧
      isItemIdOf profile.itemWidth (textOf (value item "jurisdiction")) (idOf item) = true ∧
      isOneOf (value item "jurisdiction") profile.jurisdictions = .ok true ∧
      ((textOf (value item "jurisdiction") ++ ['/']).isPrefixOf
        (textOf (value item "citation")) && !(textOf (value item "citation")).any isSpace) = true ∧
      same (value item "sequence") (.int sequence) = true ∧
      isAttempt (value item "attempt") = true ∧
      isOneOf (value item "status") allowedStatuses = .ok true ∧
      validateEvidence profile.issue (String.ofList (idOf item)) item = .ok () ∧
      isSourceKind (textOf (value item "source_kind")) = true ∧
      isNonblank (value item "label") = true)
    ⟨fun ⟨wellFormed, fits, jurisdiction, citation, sequence, attempt, status, evidence, sourceKind,
        label⟩ => ⟨wellFormed, fits, jurisdiction, citation, sequence, attempt, status, evidence,
        sourceKind, label⟩,
      fun checks => ⟨checks.wellFormed, checks.fits, checks.jurisdiction, checks.citation,
        checks.sequence, checks.attempt, checks.status, checks.evidence, checks.sourceKind,
        checks.label⟩⟩

instance decidableEachChecked {profile : QueueProfile} :
    ∀ (sequence : Int) (items : List Record), Decidable (EachChecked profile sequence items)
  | _, [] => isTrue trivial
  | sequence, item :: rest =>
    haveI := @decidableEachChecked profile (sequence + 1) rest
    inferInstanceAs (Decidable (ItemChecks profile sequence item ∧
      EachChecked profile (sequence + 1) rest))

theorem EachChecked.mem :
    ∀ {sequence : Int}, EachChecked profile sequence items → item ∈ items →
      ∃ own, ItemChecks profile own item := by
  induction items with
  | nil => exact fun _ none_ => absurd none_ List.not_mem_nil
  | cons first rest ih =>
    intro sequence each member
    rcases List.mem_cons.mp member with rfl | later
    · exact ⟨sequence, each.1⟩
    · exact ih each.2 later

/-- The profile of a valid queue, and the members its identity is read from. -/
theorem validateIdentity_eq_ok (identity : validateIdentity payload = .ok profile) :
    queueProfile (textOf (value payload "queue_id")) = .ok profile ∧
      value payload "schema" = str queueSchema ∧ textOf (value payload "queue_id") ≠ [] ∧
      value payload "issue" = .int profile.issue := by
  simp only [validateIdentity, bind_eq_ok_iff, check_eq_ok_iff, exists_const] at identity
  obtain ⟨schema, slug, own, isOwn, _, issue, -, -, last⟩ := identity
  cases Except.ok.inj last
  refine ⟨isOwn, Json.same_str.mp schema, fun empty => ?_, ?_⟩
  · rw [empty] at slug
    cases slug
  · unfold validateIssue at issue
    split at issue
    next number held =>
      simp only [bind_eq_ok_iff, check_eq_ok_iff, exists_const, decide_eq_true_eq] at issue
      rw [held, issue.2]
    next => cases issue

/-- The trusted members are there, the description aside. -/
theorem ValidQueue.present (valid : ValidQueue profile payload) :
    ∀ field ∈ ["expected_counts", "issue", "queue_id", "schema"],
      (Json.get? payload field).isSome = true := by
  obtain ⟨-, schema, queueId, issue⟩ := validateIdentity_eq_ok valid.identity
  intro field listed
  simp only [List.mem_cons, List.not_mem_nil, or_false] at listed
  rcases listed with rfl | rfl | rfl | rfl
  · refine isSome_of_value fun none_ => ?_
    have counts := valid.counts
    rw [none_, Json.same_iff, countsJson] at counts
    simp [Json.normal] at counts
  · exact isSome_of_value (by rw [issue]; exact Json.noConfusion)
  · exact isSome_of_value (value_ne_null_of_textOf queueId)
  · exact isSome_of_value (by rw [schema]; exact Json.noConfusion)

/-- Every field that must not change is there. -/
theorem ItemChecks.present (checks : ItemChecks profile sequence item) :
    ∀ field ∈ immutableFields, (Json.get? item field).isSome = true := by
  have nonempty : ∀ {key}, textOf (value item key) ≠ [] → (Json.get? item key).isSome = true :=
    fun held => isSome_of_value (value_ne_null_of_textOf held)
  intro field listed
  simp only [immutableFields, List.mem_cons, List.not_mem_nil, or_false] at listed
  rcases listed with rfl | rfl | rfl | rfl | rfl | rfl
  · refine nonempty fun empty => ?_
    have citation := checks.citation
    rw [empty] at citation
    cases jurisdiction : textOf (value item "jurisdiction") <;> simp [jurisdiction] at citation
  · refine nonempty fun empty => ?_
    have wellFormed := checks.wellFormed
    rw [idOf, empty] at wellFormed
    cases wellFormed
  · obtain ⟨text, -, held⟩ := isOneOf_eq_ok_true_iff.mp checks.jurisdiction
    exact isSome_of_value (by rw [held]; nofun)
  · refine nonempty fun empty => ?_
    have label := checks.label
    rw [isNonblank, empty] at label
    cases label
  · refine isSome_of_value fun none_ => ?_
    have sequence := checks.sequence
    rw [none_, Json.same_iff, Json.normal_int] at sequence
    simp [Json.normal] at sequence
  · refine nonempty fun empty => ?_
    have sourceKind := checks.sourceKind
    rw [empty] at sourceKind
    cases sourceKind

end AxiomEncode.Queue
