/-
# Oracle.PendingSpec -- a sync settles the ratchet

After a sync with the unmapped ids of a report, the file that is loaded declares exactly these
ids, those that were declared keep their provenance, and the ratchet finds no problem
(`sync_settles`).  A note without text is dropped, and the counts of a report without items are left
alone; both are the design of the writer and of the report.
-/
import AxiomEncode.Oracle.PendingFile
import Mathlib.Algebra.BigOperators.Group.List.Lemmas

namespace AxiomEncode.Oracle

open Theory Theory.Typed Value

set_option autoImplicit false

/-- The ids of the unmapped items. -/
def unmappedIds (report : Report) : List Text :=
  (report.items.filter fun item => item.status = unmappedStatus).map Item.legalId

/-- An item stays as it is, or is unmapped and declared and becomes a pending one. -/
inductive Turns (declared : Declared) : Item → Item → Prop
  | same {item : Item} (other : item.status ≠ unmappedStatus ∨ declared.lookup item.legalId = none) :
      Turns declared item item
  | pending {item : Item} {entry : PendingEntry} (unmapped : item.status = unmappedStatus)
      (found : declared.lookup item.legalId = some entry) :
      Turns declared item { item with status := pendingStatus, pending := some entry.provenance }

section Sync

variable (repr : Text → Text) (load : Text → Except Text Value) (dump : Value → Text)

/-- Dumping and loading a payload is the identity, and its text has no carriage return. -/
structure Faithful (payload : Value) : Prop where
  loads : load (pendingHeader ++ '\n' :: dump payload) = .ok payload
  plain : '\r' ∉ dump payload

/-- The payload that a sync writes. -/
def Writes (checkout : Checkout) (ids : List Text) (source since : Text) (issue : Option Text)
    (payload : Value) : Prop :=
  ∃ place existing issue' since' entries, pendingSyncPath checkout = .ok place
    ∧ existingDeclaration repr load checkout place issue = .ok (existing, issue')
    ∧ coerceDate repr (.scalar (.text since)) "sync".toList = .ok since'
    ∧ entries = (ids.dedup.insertionSort (· ≤ ·)).map
        (entryFor existing source since' checkout.name (checkout.pathOf place))
    ∧ payload = pendingPayload entries entries.length issue'

/-- What holds after a sync: `noteOf` is the note that an entry keeps, and `counted` is when the counts
are those of the items; otherwise they are left as they were. -/
structure Settled (noteOf : PendingEntry → Option Text) (counted : Prop) (before : List PendingEntry)
    (report : Report) (source since : Text) (issue : Option Text) (after : Checkout) (file : PendingFile)
    (declared : Declared) : Prop where
  loaded : loadPendingFiles repr load after = .ok [file]
  declares : declarationsFromFiles [file] = .ok declared
  satisfied : ratchetProblems (applyPendingToReport report declared) [file] = []
  ids : ∀ legalId, (declared.lookup legalId).isSome ↔ legalId ∈ unmappedIds report
  kept : ∀ prior ∈ before, prior.legalId ∈ unmappedIds report →
    ∃ entry, declared.lookup prior.legalId = some entry ∧ entry.source = prior.source
      ∧ entry.since = prior.since ∧ entry.note = noteOf prior
  fresh : ∀ legalId ∈ unmappedIds report, legalId ∉ before.map PendingEntry.legalId →
    ∃ entry, declared.lookup legalId = some entry ∧ entry.source = source ∧ entry.since = since
      ∧ entry.note = none
  turned : List.Forall₂ (Turns declared) report.items (applyPendingToReport report declared).items
  counts : counted →
    ((applyPendingToReport report declared).statusCounts.map Prod.snd).sum = report.items.length
  uncounted : ¬ counted →
    (applyPendingToReport report declared).statusCounts = report.statusCounts
  again : ∀ source' since' since'' issue', source' ∈ allowedSources →
    coerceDate repr (.scalar (.text since')) "sync".toList = .ok since'' →
    issue' = none ∨ issue' = issue →
    ∃ result, syncRepoPending repr load dump after (unmappedIds report) source' since' issue'
      = .ok (after, result) ∧ result.changed = false

end Sync

/-! ## The file that is written -/

section Write

variable {repr : Text → Text} {load : Text → Except Text Value} {dump : Value → Text}
  {checkout : Checkout} {place : Place} {places : List Place} {content : Text} {ids : List Text}
  {source since : Text} {issue : Option Text} {existing : List PendingEntry}

theorem universalNewlines_of_plain : ∀ {content : Text}, '\r' ∉ content →
    universalNewlines content = content
  | [], _ => rfl
  | c :: content, plain => by
    rw [List.mem_cons, not_or] at plain
    have rest := universalNewlines_of_plain plain.2
    have other : c ≠ '\r' := fun same => plain.1 same.symm
    rw [universalNewlines, rest]
    · rintro _ rfl
      exact absurd rfl other
    · rintro rfl
      exact absurd rfl other

theorem read_write (other : Place) :
    (checkout.write content place).read other = if other = place then some content else checkout.read other := by
  cases place <;> cases other <;> rfl

theorem write_rest (checkout : Checkout) (content : Text) (place : Place) :
    (checkout.write content place).canonical = checkout.canonical
    ∧ (checkout.write content place).nestedLink = checkout.nestedLink
    ∧ (checkout.write content place).name = checkout.name
    ∧ (checkout.write content place).candidates = checkout.candidates
    ∧ (checkout.write content place).isLink = checkout.isLink
    ∧ (checkout.write content place).pathOf = checkout.pathOf := by
  cases place <;> exact ⟨rfl, rfl, rfl, rfl, by funext place; cases place <;> rfl,
    by funext place; cases place <;> rfl⟩

/-- What `iter_pending_file_paths` says. -/
theorem iter_iff :
    iterPendingFilePaths checkout = .ok places
      ↔ checkout.canonical = true ∧ checkout.nestedLink = false
        ∧ checkout.candidates.find? checkout.isLink = none
        ∧ (checkout.candidates.filter fun place => (checkout.read place).isSome) = places
        ∧ places.length ≤ 1 := by
  rw [iterPendingFilePaths]
  cases checkout.canonical
  · simp
  cases checkout.nestedLink
  swap
  · simp
  cases checkout.candidates.find? checkout.isLink with
  | some place => simp
  | none =>
    simp only [Bool.not_true, Bool.false_eq_true, if_false, true_and]
    split_ifs with ambiguous
    · constructor
      · intro found
        cases found
      · rintro ⟨rfl, single⟩
        omega
    · rw [Except.ok.injEq]
      constructor
      · rintro rfl
        exact ⟨rfl, not_lt.mp ambiguous⟩
      · exact And.left

theorem mem_candidates (isPlace : pendingSyncPath checkout = .ok place) :
    place ∈ checkout.candidates := by
  rw [pendingSyncPath] at isPlace
  split at isPlace
  · cases isPlace
  · next rest found =>
      cases isPlace
      obtain ⟨-, -, -, isFound, -⟩ := iter_iff.mp found
      have member : place ∈ place :: rest := List.mem_cons_self
      rw [← isFound] at member
      exact (List.mem_filter.mp member).1
  · cases isPlace
    rw [Checkout.candidates]
    cases checkout.nestedDirectory <;> simp

theorem nodup_candidates : checkout.candidates.Nodup := by
  rw [Checkout.candidates]
  cases checkout.nestedDirectory <;> decide

/-- The place of the sync is the one that is found, if any is. -/
theorem found_of_read (isPlace : pendingSyncPath checkout = .ok place) {other : Place}
    (isCandidate : other ∈ checkout.candidates) (exists' : (checkout.read other).isSome) :
    other = place := by
  rw [pendingSyncPath] at isPlace
  split at isPlace
  · cases isPlace
  · next first rest found =>
      cases isPlace
      obtain ⟨-, -, -, isFound, single⟩ := iter_iff.mp found
      have member := List.mem_filter (p := fun place => (checkout.read place).isSome).mpr
        ⟨isCandidate, exists'⟩
      rw [isFound] at member
      rw [List.length_cons] at single
      have noRest : rest = [] := List.length_eq_zero_iff.mp (by omega)
      rw [noRest] at member
      exact List.mem_singleton.mp member
  · next found =>
      obtain ⟨-, -, -, isFound, -⟩ := iter_iff.mp found
      have member := List.mem_filter (p := fun place => (checkout.read place).isSome).mpr
        ⟨isCandidate, exists'⟩
      rw [isFound] at member
      cases member

/-- After writing, the place of the sync is the one that is found. -/
theorem iter_write (found : iterPendingFilePaths checkout = .ok places)
    (isPlace : pendingSyncPath checkout = .ok place) :
    iterPendingFilePaths (checkout.write content place) = .ok [place] := by
  obtain ⟨canonical, noLink, noFileLink, -, -⟩ := iter_iff.mp found
  obtain ⟨sameCanonical, sameLink, -, sameCandidates, sameFileLink, -⟩ :=
    write_rest checkout content place
  refine iter_iff.mpr ⟨sameCanonical.trans canonical, sameLink.trans noLink, ?_, ?_, le_refl 1⟩
  · rw [sameCandidates, sameFileLink]
    exact noFileLink
  · rw [sameCandidates]
    have only : ∀ other ∈ checkout.candidates,
        ((checkout.write content place).read other).isSome = (other == place) := by
      intro other isCandidate
      rw [read_write]
      by_cases same : other = place
      · simp [same]
      · rw [if_neg same, beq_eq_false_iff_ne.mpr same]
        cases isRead : checkout.read other with
        | none => rfl
        | some held => exact absurd (found_of_read isPlace isCandidate (by rw [isRead]; rfl)) same
    rw [List.filter_congr only, List.filter_beq,
      List.count_eq_one_of_mem nodup_candidates (mem_candidates isPlace)]
    rfl

end Write

/-! ## The entries of a sync -/

variable {name : Text}

section Entries

variable {repr : Text → Text} {load : Text → Except Text Value} {existing : List PendingEntry}
  {checkout : Checkout} {files : List PendingFile} {source since repo path legalId : Text}
  {ids : List Text} {issue : Option Text}

/-- The ids of a sync, in order. -/
def wantedIds (ids : List Text) : List Text := ids.dedup.insertionSort (· ≤ ·)

theorem mem_wantedIds : legalId ∈ wantedIds ids ↔ legalId ∈ ids := by
  rw [wantedIds, List.mem_insertionSort, List.mem_dedup]

theorem nodup_wantedIds : (wantedIds ids).Nodup :=
  (List.perm_insertionSort _ _).nodup_iff.mpr (List.nodup_dedup ids)

variable {entry : PendingEntry}

theorem of_find (isFound : (existing.find? fun entry => entry.legalId = legalId) = some entry) :
    entry ∈ existing ∧ entry.legalId = legalId := by
  have named := List.find?_some isFound
  exact ⟨List.mem_of_find?_eq_some isFound, of_decide_eq_true named⟩

theorem legalId_entryFor : (entryFor existing source since repo path legalId).legalId = legalId := by
  rw [entryFor]
  cases isFound : existing.find? fun entry => entry.legalId = legalId with
  | none => rfl
  | some entry => exact (of_find isFound).2

theorem map_legalId_entryFor :
    ((wantedIds ids).map (entryFor existing source since repo path)).map PendingEntry.legalId
      = wantedIds ids := by
  rw [List.map_map]
  exact (List.map_congr_left fun legalId _ => legalId_entryFor).trans (List.map_id _)

theorem clean_entryFor (clean : ∀ entry ∈ existing, entry.Clean) (named : legalId ≠ [])
    (trimmed : strip legalId = legalId) (allowed : source ∈ allowedSources)
    (isSince : strip since = since) (isDate : isIsoDate since = true) :
    (entryFor existing source since repo path legalId).Clean := by
  rw [entryFor]
  cases isFound : existing.find? fun entry => entry.legalId = legalId with
  | none => exact ⟨trimmed, named, allowed, isSince, isDate, rfl⟩
  | some entry => exact clean entry (of_find isFound).1

theorem find_of_mem (distinct : (existing.map PendingEntry.legalId).Nodup)
    (declared : entry ∈ existing) :
    (existing.find? fun other => other.legalId = entry.legalId) = some entry := by
  cases isFound : existing.find? fun other => other.legalId = entry.legalId with
  | none =>
    have none' := List.find?_eq_none.mp isFound entry declared
    exact absurd (decide_eq_true rfl) none'
  | some other =>
    obtain ⟨isOther, named⟩ := of_find isFound
    exact congrArg some (List.inj_on_of_nodup_map distinct isOther declared named)

/-- A declared id keeps its entry. -/
theorem entryFor_of_mem (distinct : (existing.map PendingEntry.legalId).Nodup)
    (declared : entry ∈ existing) :
    entryFor existing source since repo path entry.legalId = entry := by
  rw [entryFor, find_of_mem distinct declared, Option.getD_some]

theorem entryFor_of_not_mem (undeclared : legalId ∉ existing.map PendingEntry.legalId) :
    entryFor existing source since repo path legalId = ⟨legalId, source, since, none, repo, path⟩ := by
  rw [entryFor]
  cases isFound : existing.find? fun other => other.legalId = legalId with
  | none => rfl
  | some other =>
    obtain ⟨isOther, named⟩ := of_find isFound
    exact absurd (named ▸ List.mem_map_of_mem isOther) undeclared

/-- Entries in the order of their ids stay as they are. -/
theorem insertionSort_entries {entries : List PendingEntry}
    (ordered : entries.map PendingEntry.legalId = wantedIds ids) :
    entries.insertionSort (fun a b => a.legalId ≤ b.legalId) = entries := by
  refine List.Pairwise.insertionSort_eq (List.pairwise_map.mp ?_)
  rw [ordered]
  exact List.pairwise_insertionSort _ _

/-- What a sync finds of the declaration that exists. -/
theorem existing_of_load (issue : Option Text)
    (loaded : loadPendingFiles repr load checkout = .ok files) :
    ∃ place issue', pendingSyncPath checkout = .ok place
      ∧ existingDeclaration repr load checkout place issue = .ok (files.flatMap PendingFile.entries, issue')
      ∧ (∀ entry ∈ files.flatMap PendingFile.entries, entry.Clean)
      ∧ ((files.flatMap PendingFile.entries).map PendingEntry.legalId).Nodup
      ∧ (issue = none ∨ issue' = issue) := by
  rw [loadPendingFiles] at loaded
  split at loaded
  · cases loaded
  · next places found =>
      obtain ⟨-, -, -, isFound, single⟩ := iter_iff.mp found
      rcases places with _ | ⟨place, _ | ⟨other, rest⟩⟩
      · cases loaded
        have isPlace : pendingSyncPath checkout
            = .ok (if checkout.nestedDirectory then .nested else .direct) := by
          rw [pendingSyncPath, found]
        have missing := List.filter_eq_nil_iff.mp isFound _ (mem_candidates isPlace)
        refine ⟨_, issue, isPlace, ?_, (by simp), List.nodup_nil, .inr rfl⟩
        rw [existingDeclaration]
        split
        · rfl
        · next content isRead => simp [isRead] at missing
      · have isPlace : pendingSyncPath checkout = .ok place := by rw [pendingSyncPath, found]
        have member : place ∈ [place] := List.mem_singleton_self place
        rw [← isFound] at member
        obtain ⟨content, isRead⟩ := Option.isSome_iff_exists.mp (List.mem_filter.mp member).2
        obtain ⟨file, rest, isFile, isRest, rfl⟩ := mapM_cons_eq_ok_iff.mp loaded
        rw [List.mapM_nil] at isRest
        cases isRest
        rw [isRead, Option.getD_some] at isFile
        have parsed := isFile
        rw [loadPendingFile] at parsed
        split at parsed
        · cases parsed
        · obtain ⟨clean, distinct⟩ := parsePendingPayload_clean parsed
          rw [List.flatMap_singleton]
          refine ⟨place, if issue.isSome then issue else file.issue, isPlace, ?_, clean, distinct, ?_⟩
          · rw [existingDeclaration, isRead]
            exact bind_eq_ok_iff.mpr ⟨file, isFile, rfl⟩
          · cases issue <;> simp
      · simp only [List.length_cons] at single
        omega

theorem nodup_reread {entries : List PendingEntry} (place name : Text)
    (ordered : entries.map PendingEntry.legalId = wantedIds ids) :
    ((entries.map (PendingEntry.reread place name)).map PendingEntry.legalId).Nodup := by
  have sameIds : (entries.map (PendingEntry.reread place name)).map PendingEntry.legalId
      = entries.map PendingEntry.legalId := by
    rw [List.map_map]
    rfl
  rw [sameIds, ordered]
  exact nodup_wantedIds

/-- Reading back keeps the entry of an id, as it is read. -/
theorem entryFor_reread {entries : List PendingEntry} {place : Text}
    (ordered : entries.map PendingEntry.legalId = wantedIds ids) (declared : entry ∈ entries) :
    entryFor (entries.map (PendingEntry.reread place name)) source since repo path entry.legalId
      = entry.reread place name :=
  entryFor_of_mem (nodup_reread _ _ ordered) (List.mem_map_of_mem declared)

theorem shownNote_reread (entry : PendingEntry) (place name : Text) :
    (entry.reread place name).shownNote = entry.shownNote := by
  rw [PendingEntry.reread, PendingEntry.shownNote, PendingEntry.shownNote, Option.filter_filter]
  simp

theorem asDict_reread (entry : PendingEntry) (place name : Text) :
    (entry.reread place name).asDict = entry.asDict := by
  rw [PendingEntry.asDict, PendingEntry.asDict, shownNote_reread]
  rfl

end Entries

/-! ## The report -/

section Report

variable {report : Report} {declared : Declared} {file : PendingFile}

theorem pendingStatus_ne : pendingStatus ≠ unmappedStatus := by decide

theorem turns_applyTo (item : Item) : Turns declared item (applyTo declared item) := by
  rw [applyTo]
  split_ifs with unmapped
  · cases found : declared.lookup item.legalId with
    | none => exact .same (.inr found)
    | some entry => exact .pending unmapped found
  · exact .same (.inl unmapped)

theorem turned_items : List.Forall₂ (Turns declared) report.items
    (applyPendingToReport report declared).items := by
  have each : List.Forall₂ (fun item item' => Turns declared item (applyTo declared item'))
      report.items report.items := List.forall₂_same.mpr fun item _ => turns_applyTo item
  exact List.forall₂_map_right_iff.mpr each

theorem sum_counter {α : Type} [LinearOrder α] (values : List α) :
    ((counter values).map Prod.snd).sum = values.length := by
  have perm : ((values.dedup.insertionSort (· ≤ ·)).map fun value => values.count value).Perm
      (values.dedup.map fun value => values.count value) := (List.perm_insertionSort _ _).map _
  rw [counter, List.map_map]
  exact perm.sum_eq.trans (List.sum_map_count_dedup_eq_length values)

theorem sum_statusCounts (items : report.items ≠ []) :
    ((applyPendingToReport report declared).statusCounts.map Prod.snd).sum = report.items.length := by
  have mapped : report.items.map (applyTo declared) ≠ [] := by simpa using items
  rw [applyPendingToReport]
  simp only [if_neg mapped, sum_counter, List.length_map]

theorem statusCounts_of_nil (none_ : report.items = []) :
    (applyPendingToReport report declared).statusCounts = report.statusCounts := by
  rw [applyPendingToReport]
  simp only [none_, List.map_nil, if_true]

/-- **The ratchet is satisfied by a file that declares the unmapped ids.** -/
theorem ratchetProblems_eq_nil
    (same : ∀ legalId, (declared.lookup legalId).isSome ↔ legalId ∈ unmappedIds report)
    (keys : ∀ entry ∈ declared, entry.1 ∈ unmappedIds report)
    (ceiling : file.ceiling = some (file.entries.length : Int)) :
    ratchetProblems (applyPendingToReport report declared) [file] = [] := by
  have noneUnmapped : (applyPendingToReport report declared).items.filter
      (fun item => item.status = unmappedStatus) = [] := by
    refine List.filter_eq_nil_iff.mpr fun item isItem => ?_
    obtain ⟨before, isBefore, rfl⟩ := List.mem_map.mp isItem
    rw [decide_eq_true_eq, applyTo]
    split_ifs with unmapped
    · have isUnmapped : before.legalId ∈ unmappedIds report :=
        List.mem_map_of_mem (List.mem_filter.mpr ⟨isBefore, decide_eq_true unmapped⟩)
      obtain ⟨entry, found⟩ := Option.isSome_iff_exists.mp ((same _).mpr isUnmapped)
      rw [found]
      exact pendingStatus_ne
    · exact unmapped
  have noStale : declared.filter (fun entry => entry.1 ∉ unmappedIds report) = [] :=
    List.filter_eq_nil_iff.mpr fun entry isEntry => by simpa using keys entry isEntry
  have stale : (applyPendingToReport report declared).pending.elim [] PendingSummary.stale = [] := by
    have isStale : (applyPendingToReport report declared).pending.elim [] PendingSummary.stale
        = (((declared.filter fun entry => entry.1 ∉ unmappedIds report).map fun entry =>
            (⟨entry.1, _, entry.2.repo⟩ : StaleRow)).insertionSort fun a b => a.legalId ≤ b.legalId) := rfl
    rw [isStale, noStale]
    rfl
  rw [ratchetProblems, noneUnmapped, stale]
  simp [ceiling]

end Report

/-! ## Declarations -/

section Declarations

variable {entries : List PendingEntry} {file : PendingFile}

theorem declarationsFrom_eq : ∀ (entries : List PendingEntry) (declared : Declared),
    (entries.map PendingEntry.legalId).Nodup →
    (∀ entry ∈ entries, declared.lookup entry.legalId = none) →
    declarationsFrom declared entries
      = .ok (declared ++ entries.map fun entry => (entry.legalId, entry)) := by
  intro entries
  induction entries with
  | nil =>
    intro declared _ _
    rw [declarationsFrom, List.map_nil, List.append_nil]
  | cons entry entries ih =>
    intro declared distinct fresh
    rw [List.map_cons, List.nodup_cons] at distinct
    rw [List.forall_mem_cons] at fresh
    rw [declarationsFrom, fresh.1]
    simp only
    rw [ih _ distinct.2, List.append_assoc, List.singleton_append, List.map_cons]
    intro other isOther
    have differs : other.legalId ≠ entry.legalId := by
      intro same
      exact distinct.1 (same ▸ List.mem_map_of_mem isOther)
    rw [List.lookup_append, fresh.2 other isOther, Option.none_or, List.lookup_cons,
      beq_eq_false_iff_ne.mpr differs]
    rfl

theorem lookup_declarations (legalId : Text) : ∀ entries : List PendingEntry,
    ((entries.map fun entry => (entry.legalId, entry)).lookup legalId)
      = entries.find? fun entry => entry.legalId = legalId
  | [] => rfl
  | entry :: entries => by
    have rest := lookup_declarations legalId entries
    by_cases same : entry.legalId = legalId
    · simp [same]
    · rw [List.map_cons, List.lookup_cons, beq_eq_false_iff_ne.mpr (Ne.symm same), rest,
        List.find?_cons_of_neg (by simpa using same)]

end Declarations

/-! ## The sync -/

section Settles

variable {repr : Text → Text} {load : Text → Except Text Value} {dump : Value → Text}
  {checkout : Checkout} {place : Place} {content : Text} {ids : List Text} {source since since' : Text}
  {issue issue' : Option Text} {existing entries : List PendingEntry} {files : List PendingFile}
  {report : Report}

/-- What a sync answers. -/
theorem sync_eq (canonical : checkout.canonical = true) (admitted : source ∈ allowedSources)
    (isSince : coerceDate repr (.scalar (.text since)) "sync".toList = .ok since')
    (isPlace : pendingSyncPath checkout = .ok place)
    (isExisting : existingDeclaration repr load checkout place issue = .ok (existing, issue')) :
    syncRepoPending repr load dump checkout ids source since issue
      = .ok (rewriteDeclaration dump checkout place existing issue' ids source since') := by
  rw [syncRepoPending, canonical, if_neg (by decide), if_neg (not_not.mpr admitted)]
  exact bind_eq_ok_iff.mpr ⟨since', isSince, bind_eq_ok_iff.mpr ⟨place, isPlace,
    bind_eq_ok_iff.mpr ⟨(existing, issue'), isExisting, rfl⟩⟩⟩

/-- The text that a sync wants at its place. -/
def wantedContent (dump : Value → Text) (checkout : Checkout) (place : Place)
    (existing : List PendingEntry) (issue : Option Text) (ids : List Text) (source since : Text) : Text :=
  let entries := (wantedIds ids).map
    (entryFor existing source since checkout.name (checkout.pathOf place))
  dumpPendingFile dump entries entries.length issue

theorem rewrite_changed :
    (rewriteDeclaration dump checkout place existing issue ids source since).2.changed
      = decide ((checkout.read place).map universalNewlines
          ≠ some (wantedContent dump checkout place existing issue ids source since)) := rfl

theorem rewrite_fst :
    (rewriteDeclaration dump checkout place existing issue ids source since).1
      = if (checkout.read place).map universalNewlines
          = some (wantedContent dump checkout place existing issue ids source since) then checkout
        else checkout.write (wantedContent dump checkout place existing issue ids source since) place := by
  have isFst : (rewriteDeclaration dump checkout place existing issue ids source since).1
      = if (decide ((checkout.read place).map universalNewlines
          ≠ some (wantedContent dump checkout place existing issue ids source since))) = true then
          checkout.write (wantedContent dump checkout place existing issue ids source since) place
        else checkout := rfl
  by_cases same : (checkout.read place).map universalNewlines
      = some (wantedContent dump checkout place existing issue ids source since)
  · rw [isFst, if_pos same, if_neg (by simp [same])]
  · rw [isFst, if_neg same, if_pos (by simp [same])]

variable {after : Checkout} {text : Text}

/-- After a sync the wanted text is read at its place. -/
theorem rewrite_spec (isPlace : pendingSyncPath checkout = .ok place)
    (isContent : wantedContent dump checkout place existing issue ids source since = content)
    (plain : '\r' ∉ content)
    (isAfter : (rewriteDeclaration dump checkout place existing issue ids source since).1 = after) :
    (∃ text, after.read place = some text ∧ universalNewlines text = content)
      ∧ iterPendingFilePaths after = .ok [place] ∧ after.name = checkout.name
      ∧ after.pathOf = checkout.pathOf := by
  have found : ∃ places, iterPendingFilePaths checkout = .ok places := by
    rw [pendingSyncPath] at isPlace
    split at isPlace
    · cases isPlace
    · next first rest found => exact ⟨_, found⟩
    · next found => exact ⟨_, found⟩
  obtain ⟨places, found⟩ := found
  rw [rewrite_fst, isContent] at isAfter
  by_cases same : (checkout.read place).map universalNewlines = some content
  · rw [if_pos same] at isAfter
    subst isAfter
    obtain ⟨text, isRead, isText⟩ := Option.map_eq_some_iff.mp same
    refine ⟨⟨text, isRead, isText⟩, ?_, rfl, rfl⟩
    obtain ⟨-, -, -, isFound, single⟩ := iter_iff.mp found
    have member : place ∈ places := by
      rw [← isFound]
      exact List.mem_filter.mpr ⟨mem_candidates isPlace, by rw [isRead]; rfl⟩
    obtain ⟨other, rfl⟩ := List.length_eq_one_iff.mp
      (Nat.le_antisymm single (List.length_pos_of_mem member))
    rw [found, List.mem_singleton.mp member]
  · rw [if_neg same] at isAfter
    subst isAfter
    obtain ⟨-, -, sameName, -, -, samePath⟩ :=
      write_rest checkout content place
    refine ⟨⟨content, ?_, universalNewlines_of_plain plain⟩, iter_write found isPlace, sameName, samePath⟩
    rw [read_write, if_pos rfl]

/-- The entries that a sync writes. -/
def syncEntries (checkout : Checkout) (place : Place) (existing : List PendingEntry) (ids : List Text)
    (source since : Text) : List PendingEntry :=
  (wantedIds ids).map (entryFor existing source since checkout.name (checkout.pathOf place))

/-- The file as it is read after a sync. -/
def syncFile (checkout : Checkout) (place : Place) (entries : List PendingEntry)
    (issue : Option Text) : PendingFile :=
  ⟨checkout.pathOf place, checkout.name,
    entries.map (PendingEntry.reread (checkout.pathOf place) checkout.name), some entries.length,
    issue.filter fun issue => issue ≠ []⟩

theorem map_legalId_syncEntries :
    (syncEntries checkout place existing ids source since).map PendingEntry.legalId = wantedIds ids :=
  map_legalId_entryFor

theorem clean_syncEntries (checkout : Checkout) (place : Place)
    (clean : ∀ entry ∈ existing, entry.Clean)
    (trimmed : ∀ legalId ∈ ids, legalId ≠ [] ∧ strip legalId = legalId)
    (admitted : source ∈ allowedSources) (isSince : strip since = since)
    (isDate : isIsoDate since = true) :
    ∀ entry ∈ syncEntries checkout place existing ids source since, entry.Clean := by
  intro entry isEntry
  obtain ⟨legalId, wanted, rfl⟩ := List.mem_map.mp isEntry
  obtain ⟨named, isTrimmed⟩ := trimmed legalId (mem_wantedIds.mp wanted)
  exact clean_entryFor clean named isTrimmed admitted isSince isDate

/-- The text of a sync is loaded as its file. -/
theorem loadPendingFile_written (clean : ∀ entry ∈ entries, entry.Clean)
    (ordered : entries.map PendingEntry.legalId = wantedIds ids)
    (faithful : Faithful load dump (pendingPayload entries entries.length issue))
    (isText : universalNewlines content = dumpPendingFile dump entries entries.length issue)
    (sameName : after.name = checkout.name) (samePath : after.pathOf = checkout.pathOf) :
    loadPendingFile repr load after place content = .ok (syncFile checkout place entries issue) := by
  have distinct : (entries.map PendingEntry.legalId).Nodup := by
    rw [ordered]
    exact nodup_wantedIds
  rw [loadPendingFile, isText, dumpPendingFile, faithful.loads, sameName, samePath]
  refine (parsePendingPayload_written clean distinct).trans ?_
  rw [insertionSort_entries ordered]
  rfl

theorem plain_dumpPendingFile (faithful : Faithful load dump (pendingPayload entries entries.length issue)) :
    '\r' ∉ dumpPendingFile dump entries entries.length issue := by
  have header : '\r' ∉ pendingHeader := by decide +kernel
  rw [dumpPendingFile, List.mem_append, List.mem_cons, not_or, not_or]
  exact ⟨header, by decide, faithful.plain⟩

/-- The ids that were written are written again with the same entries. -/
theorem asDict_syncEntries (after : Checkout) (place : Place) (source since path name : Text)
    (ordered : entries.map PendingEntry.legalId = wantedIds ids) :
    (syncEntries after place (entries.map (PendingEntry.reread path name)) ids source since).map
        PendingEntry.asDict
      = entries.map PendingEntry.asDict := by
  rw [syncEntries, ← ordered, List.map_map, List.map_map]
  refine List.map_congr_left fun entry declared => ?_
  rw [Function.comp_apply, Function.comp_apply, entryFor_reread ordered declared, asDict_reread]

/-- The payload is that of the entries as they are written. -/
theorem pendingPayload_congr {others : List PendingEntry} {issue other : Option Text}
    (ordered : entries.map PendingEntry.legalId = wantedIds ids)
    (ordered' : others.map PendingEntry.legalId = wantedIds ids)
    (same : others.map PendingEntry.asDict = entries.map PendingEntry.asDict)
    (sameIssue : (other.filter fun issue => issue ≠ []) = issue.filter fun issue => issue ≠ []) :
    pendingPayload others others.length other = pendingPayload entries entries.length issue := by
  have sameLength : others.length = entries.length := by
    rw [← List.length_map PendingEntry.asDict, same, List.length_map]
  rw [pendingPayload, pendingPayload, insertionSort_entries ordered, insertionSort_entries ordered',
    same, sameIssue, sameLength]

/-- The entry that is declared for an id after a sync. -/
theorem lookup_syncEntries (path name : Text) {legalId : Text} (wanted : legalId ∈ ids)
    (isEntries : syncEntries checkout place existing ids source since = entries) :
    (((entries.map (PendingEntry.reread path name)).map fun entry => (entry.legalId, entry)).lookup legalId)
      = some ((entryFor existing source since checkout.name (checkout.pathOf place) legalId).reread
          path name) := by
  have ordered : entries.map PendingEntry.legalId = wantedIds ids := isEntries ▸ map_legalId_syncEntries
  have member : entryFor existing source since checkout.name (checkout.pathOf place) legalId ∈ entries :=
    isEntries ▸ List.mem_map_of_mem (mem_wantedIds.mpr wanted)
  have found := find_of_mem (nodup_reread path name ordered)
    (List.mem_map_of_mem (f := PendingEntry.reread path name) member)
  rw [lookup_declarations, ← found]
  have sameId : ((entryFor existing source since checkout.name (checkout.pathOf place) legalId).reread
      path name).legalId = legalId := legalId_entryFor
  rw [sameId]

/-- What is declared for the entries of a sync, and for no other id. -/
theorem declares_syncEntries
    (isEntries : syncEntries checkout place existing ids source since = entries)
    {declared : Declared} {path legalId : Text}
    (isDeclared : declared = (entries.map (PendingEntry.reread path name)).map
      fun entry => (entry.legalId, entry)) :
    ((declared.lookup legalId).isSome ↔ legalId ∈ ids) ∧ ∀ entry ∈ declared, entry.1 ∈ ids := by
  have ordered : entries.map PendingEntry.legalId = wantedIds ids := isEntries ▸ map_legalId_syncEntries
  have keys : ∀ entry ∈ declared, entry.1 ∈ ids := by
    rw [isDeclared]
    intro entry isEntry
    obtain ⟨_, isReread, rfl⟩ := List.mem_map.mp isEntry
    obtain ⟨written, isWritten, rfl⟩ := List.mem_map.mp isReread
    have member : written.legalId ∈ entries.map PendingEntry.legalId := List.mem_map_of_mem isWritten
    rw [ordered] at member
    exact mem_wantedIds.mp member
  refine ⟨⟨fun found => ?_, fun wanted => ?_⟩, keys⟩
  · obtain ⟨entry, found⟩ := Option.isSome_iff_exists.mp found
    obtain ⟨before, after, rfl, -⟩ := List.lookup_eq_some_iff.mp found
    exact keys (legalId, entry) (by simp)
  · rw [isDeclared, lookup_syncEntries path name wanted isEntries]
    rfl

/-- The checkout after a sync that writes these entries. -/
structure Synced (repr : Text → Text) (load : Text → Except Text Value) (dump : Value → Text)
    (before after : Checkout) (place : Place) (entries : List PendingEntry) (issue : Option Text)
    (text : Text) : Prop where
  found : iterPendingFilePaths after = .ok [place]
  isRead : after.read place = some text
  name : after.name = before.name
  paths : after.pathOf = before.pathOf
  content : universalNewlines text = dumpPendingFile dump entries entries.length issue
  file : loadPendingFile repr load after place text = .ok (syncFile before place entries issue)

theorem Synced.loads (synced : Synced repr load dump checkout after place entries issue text) :
    loadPendingFiles repr load after = .ok [syncFile checkout place entries issue] := by
  rw [loadPendingFiles, synced.found]
  refine mapM_cons_eq_ok_iff.mpr ⟨_, [], ?_, rfl, rfl⟩
  rw [synced.isRead, Option.getD_some]
  exact synced.file

/-- What a sync of the ids does to a checkout whose declaration is loaded. -/
theorem exists_synced (trimmed : ∀ legalId ∈ ids, legalId ≠ [] ∧ strip legalId = legalId)
    (loaded : loadPendingFiles repr load checkout = .ok files) (admitted : source ∈ allowedSources)
    (isSince : coerceDate repr (.scalar (.text since)) "sync".toList = .ok since')
    (faithful : ∀ payload, Writes repr load checkout ids source since issue payload →
      Faithful load dump payload) :
    ∃ place issue' after result text,
      pendingSyncPath checkout = .ok place ∧ (issue = none ∨ issue' = issue)
        ∧ syncRepoPending repr load dump checkout ids source since issue = .ok (after, result)
        ∧ Synced repr load dump checkout after place
            (syncEntries checkout place (files.flatMap PendingFile.entries) ids source since') issue' text := by
  obtain ⟨place, issue', isPlace, isExisting, clean, distinct, isIssue⟩ := existing_of_load issue loaded
  have canonical : checkout.canonical = true := by
    rw [loadPendingFiles] at loaded
    split at loaded
    · cases loaded
    · next places found => exact (iter_iff.mp found).1
  obtain ⟨isStripped, isDate⟩ := clean_of_coerceDate isSince
  have cleanEntries := clean_syncEntries checkout place clean trimmed admitted isStripped isDate
  have written : Faithful load dump (pendingPayload
      (syncEntries checkout place (files.flatMap PendingFile.entries) ids source since') _ issue') :=
    faithful _ ⟨place, _, issue', since', _, isPlace, isExisting, isSince, rfl, rfl⟩
  obtain ⟨after, isAfter⟩ : ∃ after, (rewriteDeclaration dump checkout place
    (files.flatMap PendingFile.entries) issue' ids source since').1 = after := ⟨_, rfl⟩
  obtain ⟨⟨text, isRead, isText⟩, isFound, sameName, samePath⟩ :=
    rewrite_spec isPlace rfl (plain_dumpPendingFile written) isAfter
  refine ⟨place, issue', after, _, text, isPlace, isIssue,
    (sync_eq canonical admitted isSince isPlace isExisting).trans
      (congrArg Except.ok (Prod.ext isAfter rfl)), ?_⟩
  exact
    { found := isFound
      isRead := isRead
      name := sameName
      paths := samePath
      content := isText
      file := loadPendingFile_written cleanEntries map_legalId_syncEntries written isText sameName samePath }

/-- Syncing the same ids after a sync changes nothing. -/
theorem sync_again
    (synced : Synced repr load dump checkout after place
      (syncEntries checkout place existing ids source since) issue text) {issue' : Option Text}
    (sameIssue : issue' = none ∨ issue' = issue) {source' since' since'' : Text}
    (admitted : source' ∈ allowedSources)
    (isSince : coerceDate repr (.scalar (.text since')) "sync".toList = .ok since'') :
    ∃ result, syncRepoPending repr load dump after ids source' since' issue' = .ok (after, result)
      ∧ result.changed = false := by
  obtain ⟨entries, isEntries⟩ : ∃ entries, syncEntries checkout place existing ids source since = entries :=
    ⟨_, rfl⟩
  rw [isEntries] at synced
  have ordered : entries.map PendingEntry.legalId = wantedIds ids := isEntries ▸ map_legalId_syncEntries
  have isPlace : pendingSyncPath after = .ok place := by rw [pendingSyncPath, synced.found]
  obtain ⟨kept, isKept⟩ : ∃ kept,
    (if issue'.isSome then issue' else issue.filter fun issue => issue ≠ []) = kept := ⟨_, rfl⟩
  have isExisting : existingDeclaration repr load after place issue'
      = .ok ((syncFile checkout place entries issue).entries, kept) := by
    rw [existingDeclaration, synced.isRead]
    exact bind_eq_ok_iff.mpr ⟨_, synced.file, congrArg Except.ok (Prod.ext rfl isKept)⟩
  have isIssue : (kept.filter fun issue => issue ≠ []) = issue.filter fun issue => issue ≠ [] := by
    rw [← isKept]
    rcases issue' with _ | issue'
    · simp [Option.filter_filter]
    · rw [← sameIssue.resolve_left (by simp)]
      rfl
  have samePayload := pendingPayload_congr ordered map_legalId_syncEntries
    (asDict_syncEntries after place source' since'' (checkout.pathOf place) checkout.name ordered) isIssue
  have unchanged : (after.read place).map universalNewlines = some (wantedContent dump after place
      (syncFile checkout place entries issue).entries kept ids source' since'') := by
    rw [synced.isRead, Option.map_some, synced.content, dumpPendingFile, ← samePayload]
    rfl
  refine ⟨(rewriteDeclaration dump after place (syncFile checkout place entries issue).entries kept ids
    source' since'').2, ?_, ?_⟩
  · rw [sync_eq (iter_iff.mp synced.found).1 admitted isSince isPlace isExisting]
    have isAfter := @rewrite_fst dump after place ids source' since'' kept
      (syncFile checkout place entries issue).entries
    rw [if_pos unchanged] at isAfter
    exact congrArg Except.ok (Prod.ext isAfter rfl)
  · rw [rewrite_changed, unchanged]
    simp

/-- **A sync settles the ratchet.** -/
theorem sync_settles {report : Report}
    (trimmed : ∀ item ∈ report.items, item.legalId ≠ [] ∧ strip item.legalId = item.legalId)
    (loaded : loadPendingFiles repr load checkout = .ok files) (admitted : source ∈ allowedSources)
    (isSince : coerceDate repr (.scalar (.text since)) "sync".toList = .ok since')
    (faithful : ∀ payload, Writes repr load checkout (unmappedIds report) source since issue payload →
      Faithful load dump payload) :
    ∃ after result file declared,
      syncRepoPending repr load dump checkout (unmappedIds report) source since issue
          = .ok (after, result)
        ∧ Settled repr load dump PendingEntry.shownNote (report.items ≠ [])
            (files.flatMap PendingFile.entries) report source since' issue after file declared := by
  have trimmedIds : ∀ legalId ∈ unmappedIds report, legalId ≠ [] ∧ strip legalId = legalId := by
    intro legalId unmapped
    obtain ⟨item, isItem, rfl⟩ := List.mem_map.mp unmapped
    exact trimmed item (List.mem_filter.mp isItem).1
  obtain ⟨-, -, -, -, -, distinct, -⟩ := existing_of_load issue loaded
  obtain ⟨place, issue', after, result, text, isPlace, isIssue, isSync, synced⟩ :=
    exists_synced trimmedIds loaded admitted isSince faithful
  obtain ⟨entries, isEntries⟩ : ∃ entries, syncEntries checkout place (files.flatMap PendingFile.entries)
    (unmappedIds report) source since' = entries := ⟨_, rfl⟩
  have ordered : entries.map PendingEntry.legalId = wantedIds (unmappedIds report) :=
    isEntries ▸ map_legalId_syncEntries
  obtain ⟨declared, isDeclared⟩ : ∃ declared, (syncFile checkout place entries issue').entries.map
    (fun entry => (entry.legalId, entry)) = declared := ⟨_, rfl⟩
  have declares : ∀ legalId, ((declared.lookup legalId).isSome ↔ legalId ∈ unmappedIds report)
      ∧ ∀ entry ∈ declared, entry.1 ∈ unmappedIds report :=
    fun legalId => declares_syncEntries isEntries isDeclared.symm
  refine ⟨after, result, syncFile checkout place entries issue', declared, isSync, ?_⟩
  refine
    { loaded := isEntries ▸ synced.loads
      declares := ?_
      satisfied := ratchetProblems_eq_nil (fun legalId => (declares legalId).1) (declares []).2 ?_
      ids := fun legalId => (declares legalId).1
      kept := ?_
      fresh := ?_
      turned := turned_items
      counts := sum_statusCounts
      uncounted := fun empty => statusCounts_of_nil (not_ne_iff.mp empty)
      again := ?_ }
  · rw [declarationsFromFiles, List.flatMap_singleton,
      declarationsFrom_eq _ [] ?_ (fun _ _ => rfl), List.nil_append, isDeclared]
    exact nodup_reread _ _ ordered
  · rw [syncFile, List.length_map]
  · intro prior isPrior unmapped
    have found := lookup_syncEntries (checkout.pathOf place) checkout.name unmapped isEntries
    rw [entryFor_of_mem distinct isPrior] at found
    exact ⟨_, (congrArg _ isDeclared.symm).trans found, rfl, rfl, rfl⟩
  · intro legalId unmapped undeclared
    have found := lookup_syncEntries (checkout.pathOf place) checkout.name unmapped isEntries
    rw [entryFor_of_not_mem undeclared] at found
    exact ⟨_, (congrArg _ isDeclared.symm).trans found, rfl, rfl, rfl⟩
  · intro source' since₂ since₃ issue₂ admitted₂ isSince₂ sameIssue
    refine sync_again synced ?_ admitted₂ isSince₂
    rcases sameIssue with rfl | rfl
    · exact .inl rfl
    · rcases isIssue with rfl | rfl
      · exact .inl rfl
      · exact .inr rfl

end Settles

/-! ## A blank note and a report without items -/

/-- A sync settles the ratchet, for these notes of the entries and these reports. -/
def Settles (noteOf : PendingEntry → Option Text) (counted : Report → Prop) : Prop :=
  ∀ (repr : Text → Text) (load : Text → Except Text Value) (dump : Value → Text) (checkout : Checkout)
    (files : List PendingFile) (report : Report) (source since since' : Text) (issue : Option Text),
    (∀ item ∈ report.items, item.legalId ≠ [] ∧ strip item.legalId = item.legalId) →
    loadPendingFiles repr load checkout = .ok files → source ∈ allowedSources →
    coerceDate repr (.scalar (.text since)) "sync".toList = .ok since' →
    (∀ payload, Writes repr load checkout (unmappedIds report) source since issue payload →
      Faithful load dump payload) →
    ∃ after result file declared,
      syncRepoPending repr load dump checkout (unmappedIds report) source since issue
          = .ok (after, result)
        ∧ Settled repr load dump noteOf (counted report) (files.flatMap PendingFile.entries) report
            source since' issue after file declared

section Samples

/-- An entry of a declaration, as `yaml.safe_load` gives it. -/
def sampleMember (legalId source : String) (note : Option String) : Value :=
  .map ([(.text "legal_id".toList, .scalar (.text legalId.toList)),
    (.text "source".toList, .scalar (.text source.toList)),
    (.text "since".toList, .scalar (.text "2026-01-02".toList))]
      ++ (note.map fun note => ((.text "note".toList : Scalar), text note)).toList)

def samplePrior (entries : List Value) : Value :=
  .map [(.text "version".toList, .scalar (.int 1)), (.text "entries".toList, .seq entries)]

/-- An entry in a checkout of `rulespec-us`. -/
def sampleEntry (legalId source since : String) (note : Option Text) : PendingEntry :=
  ⟨legalId.toList, source.toList, since.toList, note, "rulespec-us".toList,
    "/rulespec-us/oracle-coverage-pending.yaml".toList⟩

def sampleFile (entries : List PendingEntry) : PendingFile :=
  ⟨"/rulespec-us/oracle-coverage-pending.yaml".toList, "rulespec-us".toList, entries, none, none⟩

/-- `yaml.safe_load` on the document before a sync and on the one that is written. -/
def sampleLoad (priorText : Text) (prior : Value) (afterText : Text) (entries : List PendingEntry)
    (content : Text) : Except Text Value :=
  if content = priorText then .ok prior
  else if content = pendingHeader ++ '\n' :: afterText then
    .ok (pendingPayload entries entries.length none)
  else .error "unknown".toList

/-- `yaml.safe_dump` of the payload that is written. -/
def sampleDump (afterText : Text) (_ : Value) : Text := afterText

def sampleCheckout (content : Text) : Checkout where
  path := "/rulespec-us".toList
  name := "rulespec-us".toList
  canonical := true
  nestedLink := false
  nestedDirectory := false
  directFileLink := false
  nestedFileLink := false
  direct := some content
  nested := none

theorem since_sample {repr : Text → Text} :
    coerceDate repr (.scalar (.text "2026-03-04".toList)) "sync".toList = .ok "2026-03-04".toList :=
  coerceDate_text (by decide +kernel) (by decide +kernel)

variable {priorText afterText : Text} {prior : Value} {entries kept : List PendingEntry}
  {report : Report}

theorem load_sample (plain : '\r' ∉ priorText)
    (parsed : parsePendingPayload id prior "/rulespec-us/oracle-coverage-pending.yaml".toList
      "rulespec-us".toList = .ok (sampleFile kept)) :
    loadPendingFiles id (sampleLoad priorText prior afterText entries) (sampleCheckout priorText)
      = .ok [sampleFile kept] := by
  have isFile : loadPendingFile id (sampleLoad priorText prior afterText entries)
      (sampleCheckout priorText) .direct priorText = .ok (sampleFile kept) := by
    rw [loadPendingFile, universalNewlines_of_plain plain, sampleLoad, if_pos rfl]
    exact parsed
  exact mapM_cons_eq_ok_iff.mpr ⟨_, [], isFile, rfl, rfl⟩

/-- The one payload of the sync is loaded again. -/
theorem faithful_sample
    (loaded : loadPendingFiles id (sampleLoad priorText prior afterText entries)
      (sampleCheckout priorText) = .ok [sampleFile kept])
    (isEntries : syncEntries (sampleCheckout priorText) .direct kept (unmappedIds report)
      "backfill".toList "2026-03-04".toList = entries)
    (differs : pendingHeader ++ '\n' :: afterText ≠ priorText) (plain : '\r' ∉ afterText)
    (payload : Value)
    (writes : Writes id (sampleLoad priorText prior afterText entries) (sampleCheckout priorText)
      (unmappedIds report) "backfill".toList "2026-03-04".toList none payload) :
    Faithful (sampleLoad priorText prior afterText entries) (sampleDump afterText) payload := by
  obtain ⟨place, existing, issue, since, written, isPlace, isExisting, isSince, rfl, rfl⟩ := writes
  have isDirect : pendingSyncPath (sampleCheckout priorText) = .ok .direct := rfl
  have isKept : existingDeclaration id (sampleLoad priorText prior afterText entries)
      (sampleCheckout priorText) .direct none = .ok (kept, none) := by
    obtain ⟨file, _, isFile, isRest, same⟩ := mapM_cons_eq_ok_iff.mp loaded
    cases isRest
    cases same
    exact bind_eq_ok_iff.mpr ⟨_, isFile, rfl⟩
  cases since_sample.symm.trans isSince
  cases isDirect.symm.trans isPlace
  cases isKept.symm.trans isExisting
  rw [syncEntries, wantedIds] at isEntries
  rw [isEntries]
  refine ⟨?_, plain⟩
  rw [sampleDump, sampleLoad, if_neg differs, if_pos rfl]

/-- A declaration of `us:a` with a note of one blank. -/
def blankText : Text :=
  ("version: 1\nentries:\n- legal_id: us:a\n  source: manual\n  since: '2026-01-02'\n  note: ' '\n").toList

def blankEntry : PendingEntry := sampleEntry "us:a" "manual" "2026-01-02" (some [])

/-- What is loaded of it. -/
theorem load_blank {afterText : Text} {entries : List PendingEntry} :
    loadPendingFiles id (sampleLoad blankText (samplePrior [sampleMember "us:a" "manual" (some " ")])
      afterText entries) (sampleCheckout blankText) = .ok [sampleFile [blankEntry]] :=
  load_sample (by decide +kernel) (by decide +kernel)

/-- `us:a` is unmapped. -/
def blankReport : Report where
  items := [⟨"us:a".toList, unmappedStatus, none, []⟩]
  statusCounts := [(unmappedStatus, 1)]
  pending := none

/-- Nothing is reported, and three unmapped items are counted. -/
def emptyReport : Report where
  items := []
  statusCounts := [(unmappedStatus, 3)]
  pending := none

/-- **A declared note without text is dropped by a sync, and the counts of a report without items
are left as they are.** -/
theorem not_settles :
    ¬ Settles PendingEntry.note (fun _ => True) ∧ ¬ Settles PendingEntry.shownNote (fun _ => True) := by
  have admitted : "backfill".toList ∈ allowedSources := by decide +kernel
  constructor
  · intro claim
    have trimmed : ∀ legalId ∈ unmappedIds blankReport, legalId ≠ [] ∧ strip legalId = legalId := by
      decide +kernel
    have trimmedItems : ∀ item ∈ blankReport.items,
        item.legalId ≠ [] ∧ strip item.legalId = item.legalId := by
      intro item isItem
      rw [List.mem_singleton.mp isItem]
      decide +kernel
    have isEntries (place : Place) : syncEntries (sampleCheckout blankText) place [blankEntry]
        (unmappedIds blankReport) "backfill".toList "2026-03-04".toList = [blankEntry] := by
      cases place <;> decide +kernel
    have faithful := @faithful_sample blankText
      ("version: 1\nceiling: 1\nentries:\n- legal_id: us:a\n  source: manual\n  since: '2026-01-02'\n").toList
      _ _ _ _ load_blank (isEntries .direct) (by decide +kernel) (by decide +kernel)
    obtain ⟨place, issue, after, result, text, -, -, isSync, synced⟩ :=
      exists_synced trimmed load_blank admitted since_sample faithful
    obtain ⟨after', result', file, declared, isSync', settled⟩ := claim id _ _ _ _ blankReport _ _ _
      none trimmedItems load_blank admitted since_sample faithful
    cases isSync.symm.trans isSync'
    cases synced.loads.symm.trans settled.loaded
    obtain ⟨entry, found, -, -, isNote⟩ := settled.kept blankEntry (List.mem_singleton_self _)
      (List.mem_singleton_self _)
    have declares := settled.declares
    change declarationsFromFiles [syncFile _ _ (syncEntries _ _ [blankEntry] _ _ _) _] = _ at declares
    rw [isEntries place] at declares
    cases declares
    cases found
    cases isNote
  · intro claim
    obtain ⟨_, _, _, declared, -, settled⟩ := claim id _ _ _ _ emptyReport _ _ _ none nofun
      load_blank admitted since_sample
      (@faithful_sample blankText "version: 1\nceiling: 0\nentries: []\n".toList _ _ _ emptyReport
        load_blank rfl (by decide +kernel) (by decide +kernel))
    have counts := settled.counts trivial
    rw [statusCounts_of_nil rfl] at counts
    exact absurd counts (by decide)

/-- A declaration of `us:a` and `us:c`. -/
def settledPrior : Text :=
  ("version: 1\nentries:\n- legal_id: us:a\n  source: manual\n  since: '2026-01-02'\n  note: later\n"
    ++ "- legal_id: us:c\n  source: bulk\n  since: '2026-01-02'\n").toList

def settledText : Text :=
  ("version: 1\nceiling: 2\nentries:\n- legal_id: us:a\n  source: manual\n  since: '2026-01-02'\n"
    ++ "  note: later\n- legal_id: us:b\n  source: backfill\n  since: '2026-03-04'\n").toList

/-- `us:a` is still unmapped, `us:b` is new, and `us:c` is mapped. -/
def settledReport : Report where
  items := [⟨"us:b".toList, unmappedStatus, none, []⟩, ⟨"us:a".toList, unmappedStatus, none, []⟩,
    ⟨"us:c".toList, "mapped".toList, none, []⟩]
  statusCounts := [("mapped".toList, 1), (unmappedStatus, 2)]
  pending := none

def settledKept : List PendingEntry :=
  [sampleEntry "us:a" "manual" "2026-01-02" (some "later".toList),
    sampleEntry "us:c" "bulk" "2026-01-02" none]

def settledEntries : List PendingEntry :=
  [sampleEntry "us:a" "manual" "2026-01-02" (some "later".toList),
    sampleEntry "us:b" "backfill" "2026-03-04" none]

def settledLoad : Text → Except Text Value :=
  sampleLoad settledPrior (samplePrior [sampleMember "us:a" "manual" (some "later"),
    sampleMember "us:c" "bulk" none]) settledText settledEntries

/-- An id is kept, one is new and one is dropped. -/
theorem sync_settles_sample :
    ∃ after result file declared,
      syncRepoPending id settledLoad (sampleDump settledText) (sampleCheckout settledPrior)
          (unmappedIds settledReport) "backfill".toList "2026-03-04".toList none = .ok (after, result)
        ∧ Settled id settledLoad (sampleDump settledText) PendingEntry.shownNote
            (settledReport.items ≠ []) ([sampleFile settledKept].flatMap PendingFile.entries)
            settledReport "backfill".toList "2026-03-04".toList none after file declared := by
  have loaded : loadPendingFiles id settledLoad (sampleCheckout settledPrior) =
      .ok [sampleFile settledKept] := load_sample (by decide +kernel) (by decide +kernel)
  have isEntries : syncEntries (sampleCheckout settledPrior) .direct settledKept
      (unmappedIds settledReport) "backfill".toList "2026-03-04".toList = settledEntries := by
    decide +kernel
  have trimmed : ∀ item ∈ settledReport.items,
      item.legalId ≠ [] ∧ strip item.legalId = item.legalId := by
    have each : ∀ legalId ∈ settledReport.items.map Item.legalId,
        legalId ≠ [] ∧ strip legalId = legalId := by
      decide +kernel
    exact fun item isItem => each item.legalId (List.mem_map_of_mem isItem)
  exact sync_settles trimmed loaded (by decide +kernel) since_sample
    (faithful_sample loaded isEntries (by decide +kernel) (by decide +kernel))

end Samples

end AxiomEncode.Oracle
