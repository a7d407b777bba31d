/-
# Corpus.IterateAgrees -- what the scan gives out and what resolution accepts

A row the scan gives out is the only active row of its citation path, so resolving
that path reads the same row of the same file.  Resolution looks at more of it: a
repealed row and a row with a malformed ordering field are refused there, and the
scan never looks at either.  The two readers agree exactly on the rows that
`isCurrentRow` accepts.
-/
import AxiomEncode.Corpus.Iterate
import AxiomEncode.Corpus.ResolveUnique
import AxiomEncode.Theory.JsonText

namespace AxiomEncode.Corpus

open Theory

set_option autoImplicit false

variable {row : RowPlace × Record} {citationPath : CitationPath}

section Row

variable {host : Host} {release : LocalCorpusRelease} {activeScopes : List ReleaseScope}
  {bucket : ScopeBucket} {place : RowPlace} {record : Record} {part : List ActiveEntry}

/-- What the scan has checked of an active row. -/
structure Scanned (host : Host) (release : LocalCorpusRelease) (bucket : ScopeBucket)
    (place : RowPlace) (record : Record) (scope : ReleaseScope) (metadata : ReleaseRowMetadata)
    (citationPath : CitationPath) (body : Option Text) : Prop where
  bucket : scope.bucket = bucket
  metadata : releaseRowMetadata (place.text release) record = .ok metadata
  claimed : rowPath record = some citationPath.text
  normalized : normalizeCitationPath host citationPath.text = .ok citationPath
  inScope : pathInScope citationPath scope = true
  body : recordBody (place.text release) record = .ok body

/-- What reading a row of a bucket does. -/
theorem readActiveRow_eq_ok (read : readActiveRow host release activeScopes bucket place record =
      .ok part) :
    ∃ scope, recordScope (place.text release) record = .ok scope ∧
      (scope ∉ activeScopes ∧ part = [] ∨
        scope ∈ activeScopes ∧ ∃ metadata citationPath body,
          Scanned host release bucket place record scope metadata citationPath body ∧
          part = [⟨rowIdentity host place citationPath scope metadata body, body, record⟩]) := by
  obtain ⟨scope, hasScope, rest⟩ := bind_eq_ok_iff.mp read
  refine ⟨scope, hasScope, ?_⟩
  by_cases active : scope ∈ activeScopes
  · rw [if_neg (not_not.mpr active)] at rest
    simp only [bind_eq_ok_iff, require_eq_ok_iff, decide_eq_true_eq, exists_const,
      cleanStringValue_eq_ok_iff] at rest
    obtain ⟨inBucket, metadata, hm, raw, ⟨named, -, -⟩, citationPath, normalized, whole, inScope,
      body, hb, last⟩ := rest
    subst whole
    refine .inr ⟨active, metadata, citationPath, body, ?_, (Except.ok.inj last).symm⟩
    refine ⟨inBucket, hm, ?_, normalized, inScope, hb⟩
    rw [rowPath, named]
    rfl
  · rw [if_pos active] at rest
    exact .inl ⟨active, (Except.ok.inj rest).symm⟩

theorem readActiveRow_skips (counts : inActiveScope release activeScopes row = false)
    (read : readActiveRow host release activeScopes bucket row.1 row.2 = .ok part) :
    part = [] := by
  obtain ⟨scope, hasScope, ⟨-, empty⟩ | ⟨active, -⟩⟩ := readActiveRow_eq_ok read
  · exact empty
  · simp [inActiveScope, hasScope, active] at counts

theorem readActiveRow_single (counts : inActiveScope release activeScopes row = true)
    (read : readActiveRow host release activeScopes bucket row.1 row.2 = .ok part) :
    ∃ entry, part = [entry] := by
  obtain ⟨scope, hasScope, ⟨inactive, -⟩ | ⟨-, _, _, _, -, single⟩⟩ := readActiveRow_eq_ok read
  · simp [inActiveScope, hasScope, inactive] at counts
  · exact ⟨_, single⟩

/-- The scan reads a row that claims a path as an entry of that path. -/
theorem claims_iff_text {entry : ActiveEntry}
    (read : readActiveRow host release activeScopes bucket row.1 row.2 = .ok [entry])
    (text : Text) : rowPath row.2 = some text ↔ entry.text = text := by
  obtain ⟨scope, -, ⟨-, none_⟩ | ⟨-, metadata, citationPath, body, scanned, single⟩⟩ :=
    readActiveRow_eq_ok read
  · cases none_
  · cases single
    rw [scanned.claimed, Option.some.injEq]
    exact Iff.rfl

end Row

/-! ## A bucket reads what a resolution of its class reads -/

section Bucket

variable {host : Host} {release : LocalCorpusRelease}

/-- A smaller budget suffices for what a larger one was enough for. -/
theorem readWithinBudget_mono {paths : List Text} {byteCount rowCount byteCount' rowCount' : Nat}
    {artifacts : List ParsedCorpusArtifact} (fewerBytes : byteCount' ≤ byteCount)
    (fewerRows : rowCount' ≤ rowCount)
    (read : readWithinBudget host release paths byteCount rowCount = .ok artifacts) :
    readWithinBudget host release paths byteCount' rowCount' = .ok artifacts := by
  induction paths generalizing byteCount rowCount byteCount' rowCount' artifacts with
  | nil => exact read
  | cons path rest ih =>
    simp only [readWithinBudget, bind_eq_ok_iff, require_eq_ok_iff, decide_eq_true_eq,
      exists_const] at read ⊢
    obtain ⟨artifact, first, bytes, rows, later, tail, last⟩ := read
    exact ⟨artifact, first, by omega, by omega, later, ih (by omega) (by omega) tail, last⟩

variable {jurisdiction documentClass : Option Text}

/-- The filters keep a bucket whole. -/
theorem bucketScopes_eq {bucket : ScopeBucket}
    (listed : bucket ∈ scopeBuckets (selectedScopes release jurisdiction documentClass)) :
    (selectedScopes release jurisdiction documentClass).filter
        (fun scope => scope.bucket = bucket) =
      scopesOf release (ofLex bucket).1 (ofLex bucket).2 := by
  obtain ⟨scope, selected, rfl⟩ : ∃ scope ∈ selectedScopes release jurisdiction documentClass,
      scope.bucket = bucket := by
    simpa only [scopeBuckets, List.mem_insertionSort, List.mem_dedup, List.mem_map] using listed
  obtain ⟨-, passes⟩ := List.mem_filter.mp selected
  rw [selectedScopes, List.filter_filter, scopesOf]
  refine List.filter_congr fun other _ => ?_
  have same : other.bucket = scope.bucket ↔
      other.jurisdiction = scope.jurisdiction ∧ other.documentClass = scope.documentClass :=
    Prod.mk_inj
  rw [Bool.eq_iff_iff]
  simp only [Bool.and_eq_true, decide_eq_true_eq, same] at passes ⊢
  constructor
  · exact And.left
  · intro both
    refine ⟨both, ?_⟩
    rw [both.1, both.2]
    exact passes

/-- The entries a bucket gives, over the artifacts a resolution of its class reads. -/
structure BucketRead (host : Host) (release : LocalCorpusRelease) (bucket : ScopeBucket)
    (artifacts : List ParsedCorpusArtifact) (entries : List ActiveEntry) : Prop where
  read : readClassArtifacts host release (ofLex bucket).1 (ofLex bucket).2 = .ok artifacts
  placed : ∀ row ∈ placedRows artifacts, ∃ scope,
    recordScope (row.1.text release) row.2 = .ok scope
  entries : List.Forall₂ (fun row entry => readActiveRow host release
      (scopesOf release (ofLex bucket).1 (ofLex bucket).2) bucket row.1 row.2 = .ok [entry])
    ((placedRows artifacts).filter
      (inActiveScope release (scopesOf release (ofLex bucket).1 (ofLex bucket).2))) entries

theorem collect_readActiveArtifact (activeScopes : List ReleaseScope) (bucket : ScopeBucket)
    (artifacts : List ParsedCorpusArtifact) :
    collect (readActiveArtifact host release activeScopes bucket) artifacts =
      collect (fun row => readActiveRow host release activeScopes bucket row.1 row.2)
        (placedRows artifacts) := by
  rw [placedRows, ← collect_flatMap]
  congr 1
  funext artifact
  rw [collect_map]
  rfl

theorem readClassArtifacts_of_shared {bucket : ScopeBucket} {budget : LocalCorpusReadBudget}
    {files : List Text} {artifacts : List ParsedCorpusArtifact}
    (listed : candidateProvisionFiles host release (ofLex bucket).1 (ofLex bucket).2
      (scopesOf release (ofLex bucket).1 (ofLex bucket).2) = .ok files)
    (read : readSharedArtifacts host release budget files = .ok artifacts) :
    readClassArtifacts host release (ofLex bucket).1 (ofLex bucket).2 = .ok artifacts := by
  simp only [readSharedArtifacts, bind_eq_ok_iff, require_eq_ok_iff, decide_eq_true_eq,
    exists_const] at read
  obtain ⟨few, within⟩ := read
  refine bind_eq_ok_iff.mpr ⟨files, listed, bind_eq_ok_iff.mpr ⟨(), ?_, ?_⟩⟩
  · rw [require_eq_ok_iff, decide_eq_true_eq]
    omega
  · exact readWithinBudget_mono (Nat.zero_le _) (Nat.zero_le _) within

/-- Every entry of the scan comes from the reading of one bucket. -/
theorem mem_readBuckets :
    ∀ {buckets : List ScopeBucket} {budget : LocalCorpusReadBudget} {entries : List ActiveEntry},
      (∀ bucket ∈ buckets,
        bucket ∈ scopeBuckets (selectedScopes release jurisdiction documentClass)) →
      readBuckets host release (selectedScopes release jurisdiction documentClass) buckets budget =
        .ok entries →
      ∀ entry ∈ entries, ∃ bucket artifacts here, BucketRead host release bucket artifacts here ∧
        here.Sublist entries ∧ entry ∈ here
  | [], _, entries, _, read => by
    cases Except.ok.inj read
    exact nofun
  | bucket :: rest, budget, entries, listed, read => by
    simp only [readBuckets, bind_eq_ok_iff,
      bucketScopes_eq (listed bucket List.mem_cons_self)] at read
    obtain ⟨files, candidates, artifacts, shared, here, scanned, later, tail, last⟩ := read
    cases Except.ok.inj last
    rw [collect_readActiveArtifact] at scanned
    intro entry member
    rcases List.mem_append.mp member with first | second
    · refine ⟨bucket, artifacts, here, ⟨readClassArtifacts_of_shared candidates shared, ?_, ?_⟩,
        List.sublist_append_left _ _, first⟩
      · intro row placed
        obtain ⟨part, one⟩ := (collect_eq_ok_iff.mp scanned).1 row placed
        obtain ⟨scope, hasScope, -⟩ := readActiveRow_eq_ok one
        exact ⟨scope, hasScope⟩
      · exact collect_singles (fun _ _ => readActiveRow_skips) (fun _ _ => readActiveRow_single)
          scanned
    · obtain ⟨other, found, those, bucketRead, sub, inside⟩ := mem_readBuckets
        (fun other member => listed other (List.mem_cons_of_mem _ member)) tail entry second
      exact ⟨other, found, those, bucketRead, sub.trans (List.sublist_append_right _ _), inside⟩

end Bucket

/-! ## The only claim of a path -/

section Claim

variable {host : Host} {release : LocalCorpusRelease} {bucket : ScopeBucket}
  {artifacts : List ParsedCorpusArtifact} {here entries : List ActiveEntry} {entry : ActiveEntry}

/-- When no path is ambiguous, an entry shares its path with no other. -/
theorem entriesAt_eq_singleton (fresh : ambiguousText entries = none)
    (sub : here.Sublist entries) (member : entry ∈ here) : entriesAt here entry.text = [entry] := by
  have listed : entry.text ∈ (entries.map ActiveEntry.text).dedup.insertionSort (· ≤ ·) := by
    rw [List.mem_insertionSort, List.mem_dedup]
    exact List.mem_map_of_mem (sub.subset member)
  have few : ¬ 1 < (entriesAt entries entry.text).length := by
    simpa using List.find?_eq_none.mp fresh _ listed
  have shorter : (entriesAt here entry.text).length ≤ (entriesAt entries entry.text).length :=
    (sub.filter _).length_le
  have among : entry ∈ entriesAt here entry.text := List.mem_filter.mpr ⟨member, by simp⟩
  match entriesAt here entry.text, among, shorter with
  | [only], among, _ => rw [List.mem_singleton.mp among]
  | _ :: _ :: _, _, shorter => simp only [List.length_cons] at shorter; omega

/-- The row of such an entry is the one active claim of its path. -/
theorem BucketRead.activeClaims_eq (bucketRead : BucketRead host release bucket artifacts here)
    (alone : entriesAt here entry.text = [entry]) :
    ∃ row, activeClaims release (scopesOf release (ofLex bucket).1 (ofLex bucket).2) artifacts
        entry.row.citationPath = [row] ∧
      readActiveRow host release (scopesOf release (ofLex bucket).1 (ofLex bucket).2) bucket
        row.1 row.2 = .ok [entry] := by
  have aligned := List.rel_filter (p := fun row => rowPath row.2 = some entry.text)
    (q := fun other => other.text = entry.text) (fun row other read => by
      simp only [decide_eq_true_eq]
      exact claims_iff_text read entry.text) bucketRead.entries
  rw [← entriesAt, alone, List.filter_filter] at aligned
  obtain ⟨row, rest, read, none_, claims⟩ := List.forall₂_cons_right_iff.mp aligned
  cases List.forall₂_nil_right_iff.mp none_
  exact ⟨row, claims, read⟩

/-- A scope on the path's class is a scope of its first two segments. -/
theorem class_of_pathInScope {scope : ReleaseScope}
    (inScope : pathInScope citationPath scope = true) :
    (citationPath.map Subtype.val).getD 0 [] = scope.jurisdiction ∧
      (citationPath.map Subtype.val).getD 1 [] = scope.documentClass := by
  rw [pathInScope, decide_eq_true_eq] at inScope
  cases citationPath with
  | nil => simp at inScope
  | cons first rest =>
    cases rest with
    | nil => simp at inScope
    | cons second rest =>
      obtain ⟨jurisdiction, tail⟩ := List.cons.inj inScope
      exact ⟨jurisdiction, (List.cons.inj tail).1⟩

/-- With one claim, the records of a path are the one record of that row. -/
theorem collect_one_claim {activeScopes : List ReleaseScope} {selected : StoredRecord}
    (claims : activeClaims release activeScopes artifacts citationPath = [row])
    (placed : ∀ row ∈ placedRows artifacts, ∃ scope,
      recordScope (row.1.text release) row.2 = .ok scope) :
    collect (readMatchingRecords host release citationPath activeScopes) artifacts =
        .ok [selected] ↔
      readMatchingRow host release citationPath activeScopes row.1 row.2 = .ok [selected] := by
  constructor
  · intro read
    have each := forall₂_activeClaims read
    rw [claims] at each
    exact (List.forall₂_cons.mp each).1
  · intro one
    obtain ⟨records, read⟩ : ∃ records,
        collect (readMatchingRecords host release citationPath activeScopes) artifacts =
          .ok records := by
      rw [collect_readMatchingRecords]
      refine ⟨_, collect_eq_ok_iff.mpr ⟨fun other stored => ?_, rfl⟩⟩
      obtain ⟨scope, hasScope⟩ := placed other stored
      by_cases claimed : rowPath other.2 = some citationPath.text
      · by_cases active : scope ∈ activeScopes
        · have counted : other ∈ activeClaims release activeScopes artifacts citationPath := by
            refine List.mem_filter.mpr ⟨stored, ?_⟩
            simp [claimsPath, claimed, inActiveScope, hasScope, active]
          rw [claims, List.mem_singleton] at counted
          exact ⟨_, counted ▸ one⟩
        · exact ⟨[], readMatchingRow_eq_ok_iff.mpr
            (.inr ⟨claimed, scope, hasScope, .inl ⟨active, rfl⟩⟩)⟩
      · exact ⟨[], readMatchingRow_eq_ok_iff.mpr (.inl ⟨claimed, rfl⟩)⟩
    have each := forall₂_activeClaims read
    rw [claims] at each
    obtain ⟨stored, rest, first, none_, rfl⟩ := List.forall₂_cons_left_iff.mp each
    cases List.forall₂_nil_left_iff.mp none_
    rw [read, ← Except.ok.inj (first.symm.trans one)]

end Claim

/-! ## Agreement -/

theorem isOrderingField_of_optionalInt {host : Host} {value : Option Json} {n : Option Nat}
    (read : optionalInt host value = .ok n) : isOrderingField value = true := by
  cases value with
  | none => rfl
  | some json =>
    cases json with
    | null => rfl
    | int m =>
      simp only [optionalInt] at read
      split at read
      next => cases read
      next nonneg => simpa [isOrderingField] using nonneg
    | _ => cases read

/-- A row that no check of the resolver refuses which the scan does not make: it is
not marked repealed, and its ordering fields are absent, null or non-negative. -/
def isCurrentRow (record : Record) : Bool :=
  !recordRepealed record && isOrderingField (Json.get? record "level") &&
    isOrderingField (Json.get? record "ordinal")

/-- The record stored at the place of a row, in the files of its class. -/
def StoredAt (host : Host) (release : LocalCorpusRelease) (row : CorpusRowIdentity)
    (record : Record) : Prop :=
  ∃ artifacts,
    readClassArtifacts host release row.jurisdiction row.documentClass = .ok artifacts ∧
      (row.place, record) ∈ placedRows artifacts

/-- Resolving the citation path of a given-out row gives the same row and body. -/
def ResolvesAs (host : Host) (release : LocalCorpusRelease) (sliceParentBody : Slicer)
    (given : ActiveCorpusBodyRow) : Prop :=
  ∃ source, resolveLocalCorpusSource host release sliceParentBody given.row.citationPath.text =
      .ok source ∧
    source.row = given.row ∧ source.body = given.body ∧ source.sliceRequired = false

section Agreement

variable {host : Host} {release : LocalCorpusRelease} {sliceParentBody : Slicer}

/-- One place holds one record. -/
theorem StoredAt.unique {row : CorpusRowIdentity} {record record' : Record}
    (stored : StoredAt host release row record) (stored' : StoredAt host release row record') :
    record = record' := by
  obtain ⟨artifacts, read, member⟩ := stored
  obtain ⟨artifacts', read', member'⟩ := stored'
  cases Except.ok.inj (read.symm.trans read')
  obtain ⟨files, lines⟩ := readClassArtifacts_distinct read
  obtain ⟨artifact, listed, inside⟩ := List.mem_flatMap.mp member
  obtain ⟨artifact', listed', inside'⟩ := List.mem_flatMap.mp member'
  obtain ⟨line, mem, same⟩ := List.mem_map.mp inside
  obtain ⟨line', mem', same'⟩ := List.mem_map.mp inside'
  obtain ⟨here, rfl⟩ := Prod.mk.inj same
  obtain ⟨there, rfl⟩ := Prod.mk.inj same'
  have place := here.trans there.symm
  obtain rfl : artifact = artifact' :=
    List.inj_on_of_nodup_map files listed listed' (congrArg RowPlace.path place)
  obtain rfl : line = line' :=
    List.inj_on_of_nodup_map (lines artifact listed) mem mem' (congrArg RowPlace.lineNumber place)
  rfl

/-- What resolving the path of a single claim takes: the row is read as one record,
and that record is not repealed. -/
theorem resolveAmong_one_claim {identifier : Text} {artifacts : List ParsedCorpusArtifact}
    (claims : activeClaims release (activeScopesOf release citationPath) artifacts citationPath =
      [row])
    (placed : ∀ row ∈ placedRows artifacts, ∃ scope,
      recordScope (row.1.text release) row.2 = .ok scope) {source : ResolvedCorpusSource} :
    resolveAmong host release sliceParentBody identifier citationPath artifacts false =
        .ok source ↔
      ∃ selected, readMatchingRow host release citationPath (activeScopesOf release citationPath)
          row.1 row.2 = .ok [selected] ∧
        resolveSelected host release sliceParentBody identifier artifacts
          (activeScopesOf release citationPath) ⟨citationPath, citationPath, false⟩ selected =
            .ok source := by
  rw [resolveAmong, if_neg Bool.false_ne_true, resolveCandidates_eq_ok_iff]
  constructor
  · rintro ⟨passed, candidate, rest, selected, whole, empty, one, used⟩
    cases passed with
    | nil =>
      obtain ⟨rfl, rfl⟩ := List.cons.inj whole
      exact ⟨selected, (collect_one_claim claims placed).mp one, used⟩
    | cons head passed =>
      -- the path itself has a claim, so the lookup does not go past it
      obtain ⟨rfl, -⟩ := List.cons.inj whole
      have each := forall₂_activeClaims (empty _ List.mem_cons_self)
      rw [claims] at each
      cases each
  · rintro ⟨selected, one, used⟩
    exact ⟨[], _, _, selected, rfl, List.forall_mem_nil _, (collect_one_claim claims placed).mpr one,
      used⟩

/-- An entry's row resolves as itself exactly when its record is current. -/
theorem resolvesAs_iff {bucket : ScopeBucket} {artifacts : List ParsedCorpusArtifact}
    {here : List ActiveEntry} {entry : ActiveEntry} {given : ActiveCorpusBodyRow}
    (bucketRead : BucketRead host release bucket artifacts here)
    (alone : entriesAt here entry.text = [entry])
    (givenOut : activeBodyRow release entry = some given) :
    StoredAt host release given.row entry.record ∧
      (ResolvesAs host release sliceParentBody given ↔ isCurrentRow entry.record = true) := by
  obtain ⟨row, claims, read⟩ := bucketRead.activeClaims_eq alone
  obtain ⟨scope, hasScope, ⟨-, none_⟩ | ⟨active, metadata, citationPath, body, scanned, single⟩⟩ :=
    readActiveRow_eq_ok read
  · cases none_
  cases single
  obtain ⟨text, rfl, rfl⟩ := Option.map_eq_some_iff.mp givenOut
  obtain rfl := scanned.bucket
  obtain ⟨first, second⟩ := class_of_pathInScope scanned.inScope
  have scopes : activeScopesOf release citationPath =
      scopesOf release scope.jurisdiction scope.documentClass := by
    rw [activeScopesOf]
    exact congrArg₂ (scopesOf release) first second
  have run : resolveLocalCorpusSource host release sliceParentBody citationPath.text =
      resolveAmong host release sliceParentBody citationPath.text citationPath artifacts false := by
    rw [resolveLocalCorpusSource, scanned.normalized]
    change (readClassArtifacts host release _ _ >>= _) = _
    rw [first, second, show readClassArtifacts host release scope.jurisdiction
      scope.documentClass = .ok artifacts from bucketRead.read]
    rfl
  have stored : row ∈ placedRows artifacts :=
    (List.mem_filter.mp (claims ▸ List.mem_singleton_self row :
      row ∈ activeClaims release _ artifacts citationPath)).1
  rw [show scopesOf release (ofLex scope.bucket).1 (ofLex scope.bucket).2 =
    activeScopesOf release citationPath from scopes.symm] at claims active
  refine ⟨⟨artifacts, bucketRead.read, stored⟩, ?_⟩
  change (∃ source, resolveLocalCorpusSource host release sliceParentBody citationPath.text =
      .ok source ∧ source.row = rowIdentity host row.1 citationPath scope metadata (some text) ∧
      source.body = text ∧ source.sliceRequired = false) ↔ isCurrentRow row.2 = true
  rw [run, isCurrentRow, Bool.and_eq_true, Bool.and_eq_true, Bool.not_eq_true']
  constructor
  · rintro ⟨source, resolved, -, -, -⟩
    obtain ⟨selected, one, used⟩ :=
      (resolveAmong_one_claim claims bucketRead.placed).mp resolved
    obtain ⟨current, -⟩ := resolveSelected_eq_ok_iff.mp used
    rcases readMatchingRow_eq_ok_iff.mp one with ⟨-, none_⟩ | ⟨-, _, -, ⟨-, none_⟩ | ⟨-, _, _, level,
      ordinal, -, -, -, hl, ho, single⟩⟩
    · cases none_
    · cases none_
    · cases single
      exact ⟨⟨current, isOrderingField_of_optionalInt hl⟩, isOrderingField_of_optionalInt ho⟩
  · rintro ⟨⟨current, levelField⟩, ordinalField⟩
    obtain ⟨level, hl⟩ := exists_optionalInt host levelField
    obtain ⟨ordinal, ho⟩ := exists_optionalInt host ordinalField
    have one := readMatchingRow_eq_ok_iff.mpr (.inr ⟨scanned.claimed, scope, hasScope,
      .inr ⟨active, metadata, _, level, ordinal, scanned.metadata, scanned.inScope, scanned.body,
        hl, ho, rfl⟩⟩)
    refine ⟨_, (resolveAmong_one_claim claims bucketRead.placed).mpr ⟨_, one,
      resolveSelected_eq_ok_iff.mpr ⟨current, text, [], text, rfl, rfl, rfl⟩⟩, rfl, rfl, rfl⟩

/-- **The scan and the resolver agree on the current rows.**  Every row that the scan
gives out is stored as one record of its class, and resolving its citation path gives
the same row and the same body, unsliced, if and only if that record is current. -/
theorem iterActiveLocalCorpusRows_resolvesAs_iff (sliceParentBody : Slicer)
    (jurisdiction documentClass : Option Text) {rows : List ActiveCorpusBodyRow}
    (iterated : iterActiveLocalCorpusRows host release jurisdiction documentClass = .ok rows) :
    ∀ row ∈ rows, ∃ record, StoredAt host release row.row record ∧
      (∀ other, StoredAt host release row.row other → other = record) ∧
      (ResolvesAs host release sliceParentBody row ↔ isCurrentRow record = true) := by
  simp only [iterActiveLocalCorpusRows, bind_eq_ok_iff, refuse_eq_ok_iff, exists_const]
    at iterated
  obtain ⟨-, -, entries, scan, fresh, last⟩ := iterated
  cases Except.ok.inj last
  intro row givenOut
  rw [List.mem_insertionSort, List.mem_filterMap] at givenOut
  obtain ⟨entry, member, isRow⟩ := givenOut
  obtain ⟨bucket, artifacts, here, bucketRead, sub, inside⟩ :=
    mem_readBuckets (fun _ listed => listed) scan entry member
  obtain ⟨stored, agrees⟩ :=
    resolvesAs_iff bucketRead (entriesAt_eq_singleton fresh sub inside) isRow
  exact ⟨entry.record, stored, fun other another => another.unique stored, agrees⟩

end Agreement

/-- The row of section one with a status in its metadata. -/
def statusRow (status : String) : Record :=
  sectionOneRow (some "a") ++ [("metadata".toList, .obj [("status".toList, .str status.toList)])]

def statusLine (status : String) : Text := Json.compact (.obj (statusRow status))

/-- A checkout whose one provision file holds that row. -/
def statusHost (status digest : String) : Host where
  repr _ := ""
  sha256 raw :=
    if raw = utf8 (statusLine status ++ ['\n']) then digest
    else if raw = utf8 "Text.".toList then
      "f06dce27b84e18ccb3c7e94a0679c279cd42027da23bcf1e1ca1f94e365ea420"
    else ""
  decodeUtf8 raw := some (raw.map fun byte => Char.ofNat byte.toNat)
  loads line := if line = statusLine status then some (.obj (statusRow status)) else none
  lookupFile path :=
    if path = sectionOneScope.provisionsPath then .regular (utf8 (statusLine status ++ ['\n']))
    else .missing

def statusRelease (status digest : String) : LocalCorpusRelease where
  root := "/corpus".toList
  name := "sample".toList
  contentSha256 := ""
  selectorSha256 := ""
  scopes := [sectionOneScope]
  artifacts := [⟨.provisions, sectionOneScope.provisionsPath, digest,
    (statusLine status ++ ['\n']).length⟩]
  scopeComponents := sectionOneScope_components
  scopesDistinct := sectionOneScope_nodup
  pathsDistinct := by simp
  claimed := by simp
  provided := by simp

def iterateStatus (status digest : String) : Except ResolveError (List ActiveCorpusBodyRow) :=
  iterActiveLocalCorpusRows (statusHost status digest) (statusRelease status digest) none none

def resolveStatus (status digest : String) : Except ResolveError ResolvedCorpusSource :=
  resolveLocalCorpusSource (statusHost status digest) (statusRelease status digest)
    (fun text _ _ => .ok text) "us/statute/1/1".toList

/-- The citation paths that are given out, each with its class. -/
def givenOut (status digest : String) : Except ResolveError (List (Text × Text × Text)) :=
  (iterateStatus status digest).map fun rows =>
    rows.map fun row => (row.row.citationPath.text, row.row.jurisdiction, row.row.documentClass)

def repealedDigest : String := "f2110dec571a9196aef68aa597501f81eba08d544fc659b567818df64059f5e3"
def currentDigest : String := "8966904b5c987750f4e1e49dd17035eac6ed78524ec7c6b74621e69d1d0d0b7e"

theorem exists_iterateStatus {status digest : String} {path : Text × Text × Text}
    (one : givenOut status digest = .ok [path]) :
    ∃ row, iterateStatus status digest = .ok [row] ∧
      (row.row.citationPath.text, row.row.jurisdiction, row.row.documentClass) = path := by
  unfold givenOut at one
  cases iterated : iterateStatus status digest with
  | error e =>
    rw [iterated] at one
    cases one
  | ok rows =>
    rw [iterated] at one
    obtain ⟨row, rest, rfl, pair, none_⟩ := List.map_eq_cons_iff.mp (Except.ok.inj one)
    cases List.map_eq_nil_iff.mp none_
    exact ⟨row, rfl, pair⟩

/-- A repealed row is given out as current text, and its citation path resolves to
nothing. -/
theorem iterActiveLocalCorpusRows_repealed :
    ∃ rows, iterateStatus "repealed" repealedDigest = .ok rows ∧ ∃ row ∈ rows,
      ¬ ResolvesAs (statusHost "repealed" repealedDigest) (statusRelease "repealed" repealedDigest)
        (fun text _ _ => .ok text) row := by
  have one : givenOut "repealed" repealedDigest =
      .ok [("us/statute/1/1".toList, "us".toList, "statute".toList)] := by decide +kernel
  have refused : resolveStatus "repealed" repealedDigest = .error (.invalidActiveSource
      "Active corpus source 'us/statute/1/1' is repealed") := by decide +kernel
  obtain ⟨row, iterated, path⟩ := exists_iterateStatus one
  refine ⟨[row], iterated, row, List.mem_singleton_self row, ?_⟩
  rintro ⟨source, resolved, -⟩
  rw [(Prod.mk.inj path).1] at resolved
  cases refused.symm.trans resolved

/-- A row whose status is another text is given out and resolves as itself. -/
theorem iterActiveLocalCorpusRows_current :
    ∃ rows, iterateStatus "current" currentDigest = .ok rows ∧ rows.length = 1 ∧ ∀ row ∈ rows,
      ResolvesAs (statusHost "current" currentDigest) (statusRelease "current" currentDigest)
        (fun text _ _ => .ok text) row := by
  have one : givenOut "current" currentDigest =
      .ok [("us/statute/1/1".toList, "us".toList, "statute".toList)] := by decide +kernel
  obtain ⟨row, iterated, path⟩ := exists_iterateStatus one
  refine ⟨[row], iterated, rfl, fun other member => ?_⟩
  have current : (readClassArtifacts (statusHost "current" currentDigest)
      (statusRelease "current" currentDigest) "us".toList "statute".toList).map
        (fun artifacts => (placedRows artifacts).all fun row => isCurrentRow row.2) =
      .ok true := by decide +kernel
  obtain ⟨record, ⟨artifacts, read, stored⟩, -, agrees⟩ := iterActiveLocalCorpusRows_resolvesAs_iff
    (fun text _ _ => .ok text) none none iterated other member
  obtain rfl := List.mem_singleton.mp member
  obtain ⟨-, jurisdiction, documentClass⟩ := Prod.mk.inj path |>.imp id Prod.mk.inj
  rw [jurisdiction, documentClass] at read
  rw [read] at current
  exact agrees.mpr (List.all_eq_true.mp (Except.ok.inj current) _ stored)

end AxiomEncode.Corpus
