/-
# Corpus.ResolveUnique -- the unique nearest active row, in any order

`ResolvesNearest` says what a returned source is: the one active claim of the
nearest claimed lookup path, with the digest of its own body or of the
composition of its active descendants.  The row checks that can stop a
resolution earlier are those of `WellFormedRow`.
-/
import AxiomEncode.Corpus.ResolveNearest
import AxiomEncode.Corpus.ReleaseFiles

namespace AxiomEncode.Corpus

open Theory

set_option autoImplicit false

/-! ## Another order of rows and artifacts -/

variable {row : RowPlace × Record} {selected selected' : StoredRecord}
  {rows : List CorpusRowIdentity} {candidate : LookupCandidate} {source : ResolvedCorpusSource}
  {stored : Text}

section Order

variable {host : Host} {release : LocalCorpusRelease} {activeScopes : List ReleaseScope}
  {path : CitationPath} {move : RowPlace → RowPlace}

theorem storedRecord_relocate (host : Host) (move : RowPlace → RowPlace) (place : RowPlace)
    (citationPath : CitationPath) (scope : ReleaseScope) (metadata : ReleaseRowMetadata)
    (record : Record) (body : Option Text) (level ordinal : Option Nat) :
    (storedRecord host place citationPath scope metadata record body level ordinal).relocate move =
      storedRecord host (move place) citationPath scope metadata record body level ordinal :=
  rfl

variable {row' : RowPlace × Record} {part : List StoredRecord}

/-- Reading a row at another place gives the same record at that place. -/
theorem readMatchingRow_respects (same : Prod.map move id row = Prod.map move id row')
    (read : readMatchingRow host release path activeScopes row.1 row.2 = .ok part) :
    ∃ part', readMatchingRow host release path activeScopes row'.1 row'.2 = .ok part' ∧
      part'.map (StoredRecord.relocate move) = part.map (StoredRecord.relocate move) := by
  obtain ⟨place, record⟩ := row
  obtain ⟨place', record'⟩ := row'
  obtain ⟨moved, equal⟩ := Prod.mk.inj same
  obtain rfl : record = record' := equal
  rcases readMatchingRow_eq_ok_iff.mp read with ⟨other, rfl⟩ | ⟨claimed, scope, hasScope, rest⟩
  · exact ⟨[], readMatchingRow_eq_ok_iff.mpr (.inl ⟨other, rfl⟩), rfl⟩
  · have hasScope' : recordScope (place'.text release) record = .ok scope :=
      recordScope_congr.mp hasScope
    rcases rest with ⟨inactive, rfl⟩ | ⟨active, metadata, body, level, ordinal, hm, inScope, hb,
      hl, ho, rfl⟩
    · exact ⟨[], readMatchingRow_eq_ok_iff.mpr
        (.inr ⟨claimed, scope, hasScope', .inl ⟨inactive, rfl⟩⟩), rfl⟩
    · refine ⟨_, readMatchingRow_eq_ok_iff.mpr (.inr ⟨claimed, scope, hasScope', .inr ⟨active,
        metadata, body, level, ordinal, releaseRowMetadata_congr.mp hm, inScope,
        recordBody_congr.mp hb, hl, ho, rfl⟩⟩), ?_⟩
      simp only [List.map_cons, List.map_nil, storedRecord_relocate, moved]

theorem readDescendantRow_respects (same : Prod.map move id row = Prod.map move id row')
    (read : readDescendantRow host release path activeScopes row.1 row.2 = .ok part) :
    ∃ part', readDescendantRow host release path activeScopes row'.1 row'.2 = .ok part' ∧
      part'.map (StoredRecord.relocate move) = part.map (StoredRecord.relocate move) := by
  obtain ⟨place, record⟩ := row
  obtain ⟨place', record'⟩ := row'
  obtain ⟨moved, equal⟩ := Prod.mk.inj same
  obtain rfl : record = record' := equal
  rcases readDescendantRow_eq_ok_iff.mp read with
    ⟨outside, rfl⟩ | ⟨recordPath, scope, named, below, hasScope, rest⟩
  · exact ⟨[], readDescendantRow_eq_ok_iff.mpr (.inl ⟨outside, rfl⟩), rfl⟩
  · have hasScope' : recordScope (place'.text release) record = .ok scope :=
      recordScope_congr.mp hasScope
    rcases rest with ⟨inactive, rfl⟩ | ⟨active, citation, metadata, body, level, ordinal, hc,
      whole, inScope, hm, hb, hl, ho, rfl⟩
    · exact ⟨[], readDescendantRow_eq_ok_iff.mpr
        (.inr ⟨recordPath, scope, named, below, hasScope', .inl ⟨inactive, rfl⟩⟩), rfl⟩
    · refine ⟨_, readDescendantRow_eq_ok_iff.mpr (.inr ⟨recordPath, scope, named, below, hasScope',
        .inr ⟨active, citation, metadata, body, level, ordinal, hc, whole, inScope,
        releaseRowMetadata_congr.mp hm, recordBody_congr.mp hb, hl, ho, rfl⟩⟩), ?_⟩
      simp only [List.map_cons, List.map_nil, storedRecord_relocate, moved]

/-- The same rows, up to their order and to what `move` forgets of their places. -/
def SameRows (move : RowPlace → RowPlace) (artifacts artifacts' : List ParsedCorpusArtifact) :
    Prop :=
  ((placedRows artifacts).map (Prod.map move id)).Perm
    ((placedRows artifacts').map (Prod.map move id))

variable {artifacts artifacts' : List ParsedCorpusArtifact}

theorem collect_readMatchingRecords_sameRows (same : SameRows move artifacts artifacts')
    {records : List StoredRecord}
    (read : collect (readMatchingRecords host release path activeScopes) artifacts = .ok records) :
    ∃ records', collect (readMatchingRecords host release path activeScopes) artifacts' =
        .ok records' ∧
      (records'.map (StoredRecord.relocate move)).Perm
        (records.map (StoredRecord.relocate move)) := by
  rw [collect_readMatchingRecords] at read ⊢
  exact collect_perm_map (fun _ _ _ => readMatchingRow_respects) same read

theorem readDescendants_sameRows (same : SameRows move artifacts artifacts')
    {descendants : List StoredRecord}
    (read : readDescendants host release path activeScopes artifacts [] = .ok descendants) :
    ∃ descendants', readDescendants host release path activeScopes artifacts' [] =
        .ok descendants' ∧
      (descendants'.map (StoredRecord.relocate move)).Perm
        (descendants.map (StoredRecord.relocate move)) := by
  obtain ⟨all, few⟩ := readDescendants_nil_eq_ok_iff.mp read
  rw [collect_readDescendantRecords] at all
  obtain ⟨descendants', all', perm⟩ :=
    collect_perm_map (fun _ _ _ => readDescendantRow_respects) same all
  refine ⟨descendants', readDescendants_nil_eq_ok_iff.mpr ⟨?_, ?_⟩, perm⟩
  · rw [collect_readDescendantRecords, all']
  · have length := perm.length_eq
    rw [List.length_map, List.length_map] at length
    omega

/-- The stored text is the same, and the component rows up to their places. -/
theorem storedBody_sameRows (same : SameRows move artifacts artifacts')
    (moved : selected'.relocate move = selected.relocate move) {text : Text}
    (stored : storedBody host release artifacts activeScopes selected = .ok (text, rows)) :
    ∃ rows', storedBody host release artifacts' activeScopes selected' = .ok (text, rows') ∧
      rows'.map (CorpusRowIdentity.relocate move) = rows.map (CorpusRowIdentity.relocate move) := by
  have body : selected'.body = selected.body := (congrArg StoredRecord.body moved :)
  have path : selected'.path = selected.path := (congrArg StoredRecord.path moved :)
  have scope : selected'.row.scope = selected.row.scope :=
    (congrArg (fun record : StoredRecord => record.row.scope) moved :)
  unfold storedBody at stored ⊢
  rw [body, path, scope]
  cases own : selected.body with
  | some found =>
    rw [own] at stored
    obtain ⟨rfl, rfl⟩ := Prod.mk.inj (Except.ok.inj stored)
    exact ⟨[], rfl, rfl⟩
  | none =>
    rw [own] at stored
    obtain ⟨descendants, read, composed⟩ := bind_eq_ok_iff.mp stored
    obtain ⟨descendants', read', perm⟩ := readDescendants_sameRows same read
    have carried :=
      (composeDescendantText_relocate_iff move descendants).mpr ⟨rows, rfl, composed⟩
    obtain ⟨rows', kept, composed'⟩ := (composeDescendantText_relocate_iff move descendants').mp
      (composeDescendantText_perm perm.symm carried)
    exact ⟨rows', bind_eq_ok_iff.mpr ⟨descendants', read', composed'⟩, kept.symm⟩

end Order

namespace ResolvedCorpusSource

/-- The file a source was read from, its digest and the line of its row. -/
def place (source : ResolvedCorpusSource) : RowPlace :=
  ⟨source.provisionFile, source.provisionFileSha256, source.row.lineNumber⟩

/-- The same source with its rows at other places. -/
def relocate (move : RowPlace → RowPlace) (source : ResolvedCorpusSource) :
    ResolvedCorpusSource :=
  { source with
    provisionFile := (move source.place).path
    provisionFileSha256 := (move source.place).fileSha256
    row := source.row.relocate move
    componentRows := source.componentRows.map (CorpusRowIdentity.relocate move) }

@[simp] theorem relocate_id (source : ResolvedCorpusSource) : source.relocate id = source := by
  have rows : source.componentRows.map (CorpusRowIdentity.relocate id) = source.componentRows :=
    List.map_id _
  rw [relocate, rows]
  rfl

end ResolvedCorpusSource

section Resolve

variable {host : Host} {release : LocalCorpusRelease} {sliceParentBody : Slicer}
  {identifier : Text} {citationPath : CitationPath}
  {artifacts artifacts' : List ParsedCorpusArtifact} {activeScopes : List ReleaseScope}
  {move : RowPlace → RowPlace}

theorem resolveSelected_eq_ok_iff :
    resolveSelected host release sliceParentBody identifier artifacts activeScopes candidate
        selected = .ok source ↔
      selected.repealed = false ∧ ∃ stored rows body,
        storedBody host release artifacts activeScopes selected = .ok (stored, rows) ∧
        candidateBody sliceParentBody candidate stored = .ok body ∧
        source = resolvedSource host release identifier body stored selected rows
          candidate.sliceRequired := by
  simp only [resolveSelected, bind_eq_ok_iff, require_eq_ok_iff, Bool.not_eq_true', exists_const,
    Prod.exists]
  refine and_congr_right fun _ => ⟨?_, ?_⟩
  · rintro ⟨stored, rows, read, body, sliced, last⟩
    exact ⟨stored, rows, body, read, sliced, (Except.ok.inj last).symm⟩
  · rintro ⟨stored, rows, body, read, sliced, rfl⟩
    exact ⟨stored, rows, read, body, sliced, rfl⟩

/-- The source of a moved record is the moved source. -/
theorem resolvedSource_relocate {body : Text} {sliceRequired : Bool}
    (digest : selected.place = selected.row.place) :
    (resolvedSource host release identifier body stored selected rows sliceRequired).relocate move =
      resolvedSource host release identifier body stored (selected.relocate move)
        (rows.map (CorpusRowIdentity.relocate move)) sliceRequired := by
  have file : (move selected.place).path = (selected.row.relocate move).provisionFile := by
    rw [digest]
    rfl
  unfold ResolvedCorpusSource.relocate resolvedSource
  rw [ResolvedCorpusSource.mk.injEq]
  exact ⟨rfl, rfl, rfl, rfl, rfl, file, rfl, rfl, rfl, rfl, rfl, rfl, rfl, rfl⟩

theorem resolveSelected_sameRows (same : SameRows move artifacts artifacts')
    (digest : selected.place = selected.row.place)
    (digest' : selected'.place = selected'.row.place)
    (moved : selected'.relocate move = selected.relocate move)
    (resolved : resolveSelected host release sliceParentBody identifier artifacts activeScopes
      candidate selected = .ok source) :
    ∃ source', resolveSelected host release sliceParentBody identifier artifacts' activeScopes
        candidate selected' = .ok source' ∧ source'.relocate move = source.relocate move := by
  obtain ⟨current, stored, rows, body, read, sliced, rfl⟩ := resolveSelected_eq_ok_iff.mp resolved
  obtain ⟨rows', read', kept⟩ := storedBody_sameRows same moved read
  have repealed : selected'.repealed = selected.repealed := (congrArg StoredRecord.repealed moved :)
  refine ⟨_, resolveSelected_eq_ok_iff.mpr
    ⟨repealed.trans current, stored, rows', body, read', sliced, rfl⟩, ?_⟩
  rw [resolvedSource_relocate digest', resolvedSource_relocate digest, moved, kept]

/-- The place of a record that was read is the place of its row. -/
theorem place_of_readMatchingRow {path : CitationPath}
    (read : readMatchingRow host release path activeScopes row.1 row.2 = .ok [selected]) :
    selected.place = selected.row.place := by
  rcases readMatchingRow_eq_ok_iff.mp read with ⟨-, none_⟩ | ⟨-, scope, -, rest⟩
  · cases none_
  · rcases rest with ⟨-, none_⟩ | ⟨-, _, _, _, _, -, -, -, -, -, one⟩
    · cases none_
    · cases one
      rfl

theorem place_of_collect {path : CitationPath}
    (read : collect (readMatchingRecords host release path activeScopes) artifacts =
      .ok [selected]) : selected.place = selected.row.place := by
  obtain ⟨row, rest, one, -, -⟩ := List.forall₂_cons_right_iff.mp (forall₂_activeClaims read)
  exact place_of_readMatchingRow one

/-- Another order of rows and artifacts resolves to the same source. -/
theorem resolveAmong_sameRows (same : SameRows move artifacts artifacts') {exactOnly : Bool}
    (resolved : resolveAmong host release sliceParentBody identifier citationPath artifacts
      exactOnly = .ok source) :
    ∃ source', resolveAmong host release sliceParentBody identifier citationPath artifacts'
        exactOnly = .ok source' ∧ source'.relocate move = source.relocate move := by
  obtain ⟨passed, candidate, rest, selected, whole, empty, one, used⟩ :=
    resolveCandidates_eq_ok_iff.mp resolved
  have empty' : ∀ other ∈ passed, collect (readMatchingRecords host release other.citationPath
      (activeScopesOf release citationPath)) artifacts' = .ok [] := by
    intro other member
    obtain ⟨records', read', perm⟩ :=
      collect_readMatchingRecords_sameRows same (empty other member)
    rw [List.map_nil, List.perm_nil, List.map_eq_nil_iff] at perm
    rw [read', perm]
  obtain ⟨records', read', perm⟩ := collect_readMatchingRecords_sameRows same one
  rw [List.map_singleton, List.perm_singleton] at perm
  obtain ⟨selected', rest', rfl, moved, none_⟩ := List.map_eq_cons_iff.mp perm
  cases List.map_eq_nil_iff.mp none_
  obtain ⟨source', used', kept⟩ := resolveSelected_sameRows same (place_of_collect one)
    (place_of_collect read') moved used
  exact ⟨source', resolveCandidates_eq_ok_iff.mpr
    ⟨passed, candidate, rest, selected', whole, empty', read', used'⟩, kept⟩

end Resolve

/-! ## The nearest claimed path -/

/-- The text a selected record stores: its own body, or the composition of the
active rows below it. -/
def StoredText (host : Host) (release : LocalCorpusRelease) (activeScopes : List ReleaseScope)
    (artifacts : List ParsedCorpusArtifact) (row : RowPlace × Record) (selected : StoredRecord)
    (stored : Text) (componentRows : List CorpusRowIdentity) : Prop :=
  match ownBody row.2 with
  | some body => stored = body ∧ componentRows = []
  | none => ∃ descendants,
      List.Forall₂ (fun below record => readDescendantRow host release selected.path activeScopes
          below.1 below.2 = .ok [record])
        (activeDescendants release activeScopes artifacts selected.path) descendants ∧
      composeDescendantText selected.path descendants selected.row.scope =
        .ok (stored, componentRows)

/-- What a returned source is. -/
structure ResolvesNearest (host : Host) (release : LocalCorpusRelease) (sliceParentBody : Slicer)
    (citationPath : CitationPath) (artifacts : List ParsedCorpusArtifact)
    (source : ResolvedCorpusSource) : Prop where
  lookedUp : source.citationPath ∈ lookupPaths citationPath
  nearest : ∀ path ∈ lookupPaths citationPath, source.citationPath.length < path.length →
    activeClaims release (activeScopesOf release citationPath) artifacts path = []
  sliced : source.sliceRequired = true ↔ source.citationPath ≠ citationPath
  unique : ∃ row selected stored,
    activeClaims release (activeScopesOf release citationPath) artifacts source.citationPath =
      [row] ∧
    readMatchingRow host release source.citationPath (activeScopesOf release citationPath)
      row.1 row.2 = .ok [selected] ∧
    source.row = selected.row ∧ selected.repealed = false ∧
    StoredText host release (activeScopesOf release citationPath) artifacts row selected stored
      source.componentRows ∧
    source.storedBodySha256 = host.sha256Text stored ∧
    (if source.sliceRequired then sliceParentBody stored citationPath source.citationPath
      else .ok stored) = .ok source.body

section Nearest

variable {host : Host} {release : LocalCorpusRelease} {sliceParentBody : Slicer}
  {identifier : Text} {citationPath : CitationPath} {artifacts : List ParsedCorpusArtifact}

theorem fields_of_readMatchingRow {activeScopes : List ReleaseScope} {path : CitationPath}
    (read : readMatchingRow host release path activeScopes row.1 row.2 = .ok [selected]) :
    selected.path = path ∧ selected.body = ownBody row.2 := by
  rcases readMatchingRow_eq_ok_iff.mp read with ⟨-, none_⟩ | ⟨-, scope, -, rest⟩
  · cases none_
  · rcases rest with ⟨-, none_⟩ | ⟨-, metadata, body, level, ordinal, -, -, hb, -, -, one⟩
    · cases none_
    · cases one
      exact ⟨rfl, (recordBody_eq_ok_iff.mp hb).2⟩

theorem storedText_of_storedBody {activeScopes : List ReleaseScope}
    (own : selected.body = ownBody row.2)
    (read : storedBody host release artifacts activeScopes selected = .ok (stored, rows)) :
    StoredText host release activeScopes artifacts row selected stored rows := by
  unfold storedBody at read
  unfold StoredText
  rw [own] at read
  cases body : ownBody row.2 with
  | some found =>
    rw [body] at read
    obtain ⟨rfl, rfl⟩ := Prod.mk.inj (Except.ok.inj read)
    exact ⟨rfl, rfl⟩
  | none =>
    rw [body] at read
    obtain ⟨descendants, all, composed⟩ := bind_eq_ok_iff.mp read
    exact ⟨descendants, forall₂_activeDescendants (readDescendants_nil_eq_ok_iff.mp all).1,
      composed⟩

/-- The candidate a resolution stops at, as a lookup path. -/
theorem lookup_split {passed rest : List LookupCandidate}
    (whole : citationLookupGroups citationPath = passed ++ candidate :: rest) :
    ∃ nearer path farther, lookupPaths citationPath = nearer ++ path :: farther ∧
      passed = nearer.map (fun path => ⟨path, citationPath, path ≠ citationPath⟩) ∧
      candidate = ⟨path, citationPath, path ≠ citationPath⟩ := by
  rw [citationLookupGroups_eq] at whole
  obtain ⟨nearer, later, split, rfl, tail⟩ := List.map_eq_append_iff.mp whole
  obtain ⟨path, farther, rfl, rfl, rfl⟩ := List.map_eq_cons_iff.mp tail
  exact ⟨nearer, path, farther, split, rfl, rfl⟩

/-- A lookup path longer than the one at the split stands before it. -/
theorem mem_nearer_of_longer {nearer farther : List CitationPath} {path other : CitationPath}
    (split : lookupPaths citationPath = nearer ++ path :: farther)
    (member : other ∈ lookupPaths citationPath) (longer : path.length < other.length) :
    other ∈ nearer := by
  have decreasing := lookupPaths_pairwise citationPath
  rw [split] at decreasing member
  obtain ⟨-, tail, -⟩ := List.pairwise_append.mp decreasing
  rcases List.mem_append.mp member with here | later
  · exact here
  · rcases List.mem_cons.mp later with rfl | later
    · exact absurd longer (lt_irrefl _)
    · have := (List.pairwise_cons.mp tail).1 other later
      omega

theorem resolvesNearest_of_resolveAmong
    (resolved : resolveAmong host release sliceParentBody identifier citationPath artifacts
      false = .ok source) :
    ResolvesNearest host release sliceParentBody citationPath artifacts source := by
  obtain ⟨passed, candidate, rest, selected, whole, empty, one, used⟩ :=
    resolveCandidates_eq_ok_iff.mp resolved
  obtain ⟨nearer, path, farther, split, rfl, rfl⟩ := lookup_split whole
  obtain ⟨current, stored, rows, body, read, sliced, rfl⟩ := resolveSelected_eq_ok_iff.mp used
  obtain ⟨row, others, single, none_, claims⟩ :=
    List.forall₂_cons_right_iff.mp (forall₂_activeClaims one)
  cases List.forall₂_nil_right_iff.mp none_
  obtain ⟨rfl, own⟩ := fields_of_readMatchingRow single
  refine ⟨?_, ?_, ?_, row, selected, stored, claims, single, rfl, current,
    storedText_of_storedBody own read, rfl, sliced⟩
  · rw [split]
    exact List.mem_append_right _ List.mem_cons_self
  · intro other member longer
    have before := empty _ (List.mem_map_of_mem (mem_nearer_of_longer split member longer))
    exact List.forall₂_nil_right_iff.mp (forall₂_activeClaims before)
  · exact decide_eq_true_iff

/-! ## Ambiguity -/

/-- An ordering field `_optional_int` accepts. -/
def isOrderingField (value : Option Json) : Bool :=
  match value with
  | none => true
  | some .null => true
  | some (.int n) => 0 ≤ n
  | _ => false

/-- What the readers ask of a row beyond its scope. -/
structure WellFormedContent (record : Record) : Prop where
  metadata : ∃ metadata : ReleaseRowMetadata, CleanField record "id" metadata.id ∧
    CleanField record "source_path" metadata.sourcePath ∧
    CleanField record "source_as_of" metadata.sourceAsOf ∧
    CleanField record "expression_date" metadata.expressionDate
  noText : (Json.get? record "text").isNone = true
  level : isOrderingField (Json.get? record "level") = true
  ordinal : isOrderingField (Json.get? record "ordinal") = true

/-- A row that no check of the readers refuses: its scope can be read and, where the
scope is active, the rest of it. -/
structure WellFormedRow (activeScopes : List ReleaseScope) (record : Record) : Prop where
  noDocType : (Json.get? record "doc_type").isNone = true
  scope : ∃ scope : ReleaseScope, CleanField record "jurisdiction" scope.jurisdiction ∧
    CleanField record "document_class" scope.documentClass ∧
    CleanField record "version" scope.version ∧
    (scope ∈ activeScopes → WellFormedContent record)

theorem exists_optionalInt (host : Host) {value : Option Json} (accepted : isOrderingField value = true) :
    ∃ n, optionalInt host value = .ok n := by
  cases value with
  | none => exact ⟨none, rfl⟩
  | some json =>
    cases json with
    | null => exact ⟨none, rfl⟩
    | int n =>
      have nonneg : ¬ n < 0 := not_lt.mpr (by simpa [isOrderingField] using accepted)
      exact ⟨some n.toNat, by simp only [optionalInt, if_neg nonneg]⟩
    | _ => cases accepted

/-- A scope of the class fits every lookup path of the class. -/
theorem pathInScope_of_lookup {path : CitationPath} {scope : ReleaseScope}
    (two : 2 ≤ citationPath.length) (member : path ∈ lookupPaths citationPath)
    (active : scope ∈ activeScopesOf release citationPath) : pathInScope path scope = true := by
  obtain ⟨first, second, rest, rfl⟩ : ∃ first second rest,
      citationPath = first :: second :: rest := by
    match citationPath, two with
    | first :: second :: rest, _ => exact ⟨first, second, rest, rfl⟩
  obtain ⟨-, same⟩ := List.mem_filter.mp active
  simp only [Bool.and_eq_true, decide_eq_true_eq] at same
  rw [pathInScope, lookupPaths_take_two member, same.1, same.2, decide_eq_true_eq]
  rfl

theorem exists_readMatchingRow {path : CitationPath} {activeScopes : List ReleaseScope}
    {place : RowPlace} {record : Record}
    (fits : ∀ scope ∈ activeScopes, pathInScope path scope = true)
    (wellFormed : rowPath record = some path.text → WellFormedRow activeScopes record) :
    ∃ part, readMatchingRow host release path activeScopes place record = .ok part := by
  by_cases claimed : rowPath record = some path.text
  · have well := wellFormed claimed
    obtain ⟨scope, hj, hd, hv, content⟩ := well.scope
    have hasScope : recordScope (place.text release) record = .ok scope :=
      recordScope_eq_ok_iff.mpr ⟨hj, well.noDocType, hd, hv⟩
    by_cases active : scope ∈ activeScopes
    · obtain ⟨metadata, fields⟩ := (content active).metadata
      obtain ⟨level, hl⟩ := exists_optionalInt host (content active).level
      obtain ⟨ordinal, ho⟩ := exists_optionalInt host (content active).ordinal
      exact ⟨_, readMatchingRow_eq_ok_iff.mpr (.inr ⟨claimed, scope, hasScope, .inr ⟨active,
        metadata, ownBody record, level, ordinal, releaseRowMetadata_eq_ok_iff.mpr fields,
        fits scope active, recordBody_eq_ok_iff.mpr ⟨(content active).noText, rfl⟩, hl, ho, rfl⟩⟩)⟩
    · exact ⟨[], readMatchingRow_eq_ok_iff.mpr (.inr ⟨claimed, scope, hasScope,
        .inl ⟨active, rfl⟩⟩)⟩
  · exact ⟨[], readMatchingRow_eq_ok_iff.mpr (.inl ⟨claimed, rfl⟩)⟩

/-- Every row that claims a lookup path, from the requested one down to `nearest`, is
well formed. -/
def WellFormedClaims (release : LocalCorpusRelease) (citationPath nearest : CitationPath)
    (artifacts : List ParsedCorpusArtifact) : Prop :=
  ∀ path ∈ lookupPaths citationPath, nearest.length ≤ path.length → ∀ row ∈ placedRows artifacts,
    rowPath row.2 = some path.text → WellFormedRow (activeScopesOf release citationPath) row.2

theorem exists_collect_of_wellFormed (host : Host) {nearest : CitationPath}
    (two : 2 ≤ citationPath.length)
    (wellFormed : WellFormedClaims release citationPath nearest artifacts) {path : CitationPath}
    (member : path ∈ lookupPaths citationPath) (near : nearest.length ≤ path.length) :
    ∃ records, collect (readMatchingRecords host release path (activeScopesOf release citationPath))
      artifacts = .ok records := by
  rw [collect_readMatchingRecords]
  refine ⟨_, collect_eq_ok_iff.mpr ⟨fun row hr => ?_, rfl⟩⟩
  exact exists_readMatchingRow (fun scope active => pathInScope_of_lookup two member active)
    (wellFormed path member near row hr)

/-- Two claims of the nearest path are ambiguous, when every claim is readable. -/
theorem resolveAmong_ambiguous (two : 2 ≤ citationPath.length) {path : CitationPath}
    (wellFormed : WellFormedClaims release citationPath path artifacts)
    (member : path ∈ lookupPaths citationPath)
    (nearest : ∀ other ∈ lookupPaths citationPath, path.length < other.length →
      activeClaims release (activeScopesOf release citationPath) artifacts other = [])
    (several : 2 ≤
      (activeClaims release (activeScopesOf release citationPath) artifacts path).length) :
    ∃ records, List.Forall₂ (fun row stored => readMatchingRow host release path
          (activeScopesOf release citationPath) row.1 row.2 = .ok [stored])
        (activeClaims release (activeScopesOf release citationPath) artifacts path) records ∧
      resolveAmong host release sliceParentBody identifier citationPath artifacts false =
        .error (.ambiguousSource citationPath.text (records.map StoredRecord.row)) := by
  obtain ⟨records, read⟩ := exists_collect_of_wellFormed host two wellFormed member le_rfl
  obtain ⟨nearer, farther, split⟩ := List.append_of_mem member
  have claims := forall₂_activeClaims read
  refine ⟨records, claims, ?_⟩
  have decreasing := lookupPaths_pairwise citationPath
  rw [split] at decreasing
  obtain ⟨-, -, shorter⟩ := List.pairwise_append.mp decreasing
  have passes : ∀ other ∈ nearer.map
        (fun path => (⟨path, citationPath, path ≠ citationPath⟩ : LookupCandidate)),
      collect (readMatchingRecords host release other.citationPath
        (activeScopesOf release citationPath)) artifacts = .ok [] := by
    intro other isNearer
    obtain ⟨longer, here, rfl⟩ := List.mem_map.mp isNearer
    have listed : longer ∈ lookupPaths citationPath := by
      rw [split]
      exact List.mem_append_left _ here
    have above := shorter longer here path List.mem_cons_self
    obtain ⟨found, readLonger⟩ :=
      exists_collect_of_wellFormed host two wellFormed listed (Nat.le_of_lt above)
    have none_ := forall₂_activeClaims readLonger
    rw [nearest longer listed above, List.forall₂_nil_left_iff] at none_
    rw [readLonger, none_]
  rw [resolveAmong, if_neg Bool.false_ne_true, citationLookupGroups_eq, split, List.map_append,
    List.map_cons]
  exact resolveCandidates_ambiguous passes read (claims.length_eq ▸ several) false

/-- Two claims of the nearest path never resolve, whatever else is in the rows. -/
theorem not_resolved_of_two_claims {path : CitationPath}
    (member : path ∈ lookupPaths citationPath)
    (nearest : ∀ other ∈ lookupPaths citationPath, path.length < other.length →
      activeClaims release (activeScopesOf release citationPath) artifacts other = [])
    (several : 2 ≤
      (activeClaims release (activeScopesOf release citationPath) artifacts path).length)
    (source : ResolvedCorpusSource) :
    resolveAmong host release sliceParentBody identifier citationPath artifacts false ≠
      .ok source := by
  intro resolved
  have found := resolvesNearest_of_resolveAmong resolved
  obtain ⟨row, -, -, claims, -⟩ := found.unique
  rcases Nat.lt_trichotomy path.length source.citationPath.length with shorter | same | longer
  · rw [nearest _ found.lookedUp shorter] at claims
    cases claims
  · have equal : path = source.citationPath := by
      obtain ⟨nearer, farther, split⟩ := List.append_of_mem member
      have decreasing := lookupPaths_pairwise citationPath
      have listed := found.lookedUp
      rw [split] at decreasing listed
      obtain ⟨-, tail, shorter⟩ := List.pairwise_append.mp decreasing
      rcases List.mem_append.mp listed with here | later
      · have := shorter _ here path List.mem_cons_self
        omega
      · rcases List.mem_cons.mp later with equal | later
        · exact equal.symm
        · have := (List.pairwise_cons.mp tail).1 _ later
          omega
    rw [equal, claims] at several
    exact absurd several (by simp)
  · rw [found.nearest path member longer] at several
    exact absurd several (by simp)

end Nearest

/-! ## Resolution -/

/-- Forget the line of a row and the digest of its file, which change when the
rows of the file are put in another order. -/
def RowPlace.forgetLine (place : RowPlace) : RowPlace := ⟨place.path, "", 0⟩

theorem SameRows.of_perm {artifacts artifacts' : List ParsedCorpusArtifact}
    (perm : (placedRows artifacts).Perm (placedRows artifacts')) :
    SameRows id artifacts artifacts' :=
  perm.map _

/-- **Resolution picks the unique nearest active row.**  The artifacts read are
those of the scopes of the class; the source is `ResolvesNearest`; the order of
rows and artifacts shows in nothing but line numbers and file digests; and two
claims of the nearest path are refused, as ambiguous when every claim is well
formed. -/
theorem resolveLocalCorpusSource_nearest_unique (host : Host) (release : LocalCorpusRelease)
    (sliceParentBody : Slicer) (identifier : Text) :
    (∀ source, resolveLocalCorpusSource host release sliceParentBody identifier = .ok source →
      ∃ citationPath artifacts, normalizeCitationPath host identifier = .ok citationPath ∧
        readClassArtifacts host release ((citationPath.map Subtype.val).getD 0 [])
          ((citationPath.map Subtype.val).getD 1 []) = .ok artifacts ∧
        (∀ path, path ∈ artifacts.map ParsedCorpusArtifact.path ↔
          ∃ scope ∈ activeScopesOf release citationPath, path = scope.provisionsPath) ∧
        ResolvesNearest host release sliceParentBody citationPath artifacts source) ∧
    (∀ citationPath artifacts artifacts' source,
      resolveAmong host release sliceParentBody identifier citationPath artifacts false =
        .ok source →
      ((placedRows artifacts).Perm (placedRows artifacts') →
        resolveAmong host release sliceParentBody identifier citationPath artifacts' false =
          .ok source) ∧
      (SameRows RowPlace.forgetLine artifacts artifacts' →
        ∃ source', resolveAmong host release sliceParentBody identifier citationPath artifacts'
            false = .ok source' ∧
          source'.relocate RowPlace.forgetLine = source.relocate RowPlace.forgetLine)) ∧
    ∀ citationPath artifacts, normalizeCitationPath host identifier = .ok citationPath →
      readClassArtifacts host release ((citationPath.map Subtype.val).getD 0 [])
        ((citationPath.map Subtype.val).getD 1 []) = .ok artifacts →
      ∀ path ∈ lookupPaths citationPath,
        (∀ other ∈ lookupPaths citationPath, path.length < other.length →
          activeClaims release (activeScopesOf release citationPath) artifacts other = []) →
        2 ≤ (activeClaims release (activeScopesOf release citationPath) artifacts path).length →
        (∀ source, resolveLocalCorpusSource host release sliceParentBody identifier ≠
          .ok source) ∧
        (WellFormedClaims release citationPath path artifacts →
          ∃ records, List.Forall₂ (fun row stored => readMatchingRow host release path
                (activeScopesOf release citationPath) row.1 row.2 = .ok [stored])
              (activeClaims release (activeScopesOf release citationPath) artifacts path)
              records ∧
            resolveLocalCorpusSource host release sliceParentBody identifier =
              .error (.ambiguousSource citationPath.text (records.map StoredRecord.row))) := by
  refine ⟨?_, ?_, ?_⟩
  · intro source resolved
    obtain ⟨citationPath, normalized, rest⟩ := bind_eq_ok_iff.mp resolved
    obtain ⟨artifacts, read, among⟩ := bind_eq_ok_iff.mp rest
    exact ⟨citationPath, artifacts, normalized, read, fun path => mem_readClassArtifacts read,
      resolvesNearest_of_resolveAmong among⟩
  · intro citationPath artifacts artifacts' source resolved
    constructor
    · intro perm
      obtain ⟨source', resolved', same⟩ := resolveAmong_sameRows (.of_perm perm) resolved
      have equal : source' = source := by simpa only [ResolvedCorpusSource.relocate_id] using same
      rw [resolved', equal]
    · exact fun same => resolveAmong_sameRows same resolved
  · intro citationPath artifacts normalized read path member nearest several
    have run : resolveLocalCorpusSource host release sliceParentBody identifier =
        resolveAmong host release sliceParentBody identifier citationPath artifacts false := by
      rw [resolveLocalCorpusSource, normalized]
      change (readClassArtifacts host release _ _ >>= _) = _
      rw [read]
      rfl
    constructor
    · intro source
      rw [run]
      exact not_resolved_of_two_claims member nearest several source
    · intro wellFormed
      obtain ⟨records, claims, ambiguous⟩ := resolveAmong_ambiguous
        (normalizeCitationPath_parts normalized).2 wellFormed member nearest several
      exact ⟨records, claims, run.trans ambiguous⟩

/-- The members of a row of section one, its identifier left out or not. -/
def sectionOneFields (id : Option String) : List (String × String) :=
  (id.toList.map fun id => ("id", id)) ++
    [("citation_path", "us/statute/1/1"), ("jurisdiction", "us"), ("document_class", "statute"),
      ("version", "v1"), ("source_path", "s"), ("source_as_of", "d"), ("expression_date", "d"),
      ("body", "Text.")]

def sectionOneRow (id : Option String) : Record :=
  (sectionOneFields id).map fun field => (field.1.toList, .str field.2.toList)

/-- The row as a line of its file, one JSON object. -/
def sectionOneLine (id : Option String) : Text :=
  '\x7b' :: List.intercalate [','] ((sectionOneFields id).map fun field =>
    '"' :: field.1.toList ++ ['"', ':', '"'] ++ field.2.toList ++ ['"']) ++ ['\x7d']

def sectionOneFile (ids : List (Option String)) : Text :=
  ids.flatMap fun id => sectionOneLine id ++ ['\n']

def sectionOneScope : ReleaseScope := ⟨"us".toList, "statute".toList, "v1".toList⟩

/-- A checkout with one provision file, whose digest is given. -/
def sectionOneHost (ids : List (Option String)) (digest : String) : Host where
  repr _ := ""
  sha256 raw :=
    if raw = utf8 (sectionOneFile ids) then digest
    else if raw = utf8 "Text.".toList then
      "f06dce27b84e18ccb3c7e94a0679c279cd42027da23bcf1e1ca1f94e365ea420"
    else ""
  decodeUtf8 raw := some (raw.map fun byte => Char.ofNat byte.toNat)
  loads line := (ids.find? fun id => sectionOneLine id = line).map fun id =>
    .obj (sectionOneRow id)
  lookupFile path :=
    if path = sectionOneScope.provisionsPath then .regular (utf8 (sectionOneFile ids))
    else .missing

theorem sectionOneScope_components : ∀ scope ∈ [sectionOneScope],
    isScopeComponent scope.jurisdiction = true ∧ isScopeComponent scope.documentClass = true ∧
      isScopeComponent scope.version = true := by decide

theorem sectionOneScope_nodup : [sectionOneScope].Nodup := List.nodup_singleton sectionOneScope

def sectionOneRelease (ids : List (Option String)) (digest : String) : LocalCorpusRelease where
  root := "/corpus".toList
  name := "sample".toList
  contentSha256 := ""
  selectorSha256 := ""
  scopes := [sectionOneScope]
  artifacts := [⟨.provisions, sectionOneScope.provisionsPath, digest, (sectionOneFile ids).length⟩]
  scopeComponents := sectionOneScope_components
  scopesDistinct := sectionOneScope_nodup
  pathsDistinct := by simp
  claimed := by simp
  provided := by simp

/-- The digests of the file with one row, with two, and with a second row that
has no identifier. -/
def oneRowDigest : String := "71f7fb238587a07b7cb553b84cbb6819d3e824a25f849abf9b2ce08df3799b66"
def twoRowsDigest : String := "884c6c23d05b23817dd3a50241909be93f96176d2e097bfce1dfcf724ec44c1a"
def unnamedRowDigest : String := "1b56e9a6629243844bee175b1563ea7b63782b8240497c268c2c46a18bbb38b2"

def resolveSectionOne (ids : List (Option String)) (digest : String) :
    Except ResolveError ResolvedCorpusSource :=
  resolveLocalCorpusSource (sectionOneHost ids digest) (sectionOneRelease ids digest)
    (fun text _ _ => .ok text) "us/statute/1/1".toList

def sectionOnePath : CitationPath :=
  citationSegments ["us".toList, "statute".toList, "1".toList, "1".toList]

/-- How many active rows of the file claim section one. -/
def sectionOneClaims (ids : List (Option String)) (digest : String) : Except ResolveError Nat :=
  let release := sectionOneRelease ids digest
  (readClassArtifacts (sectionOneHost ids digest) release "us".toList "statute".toList).map
    fun artifacts => (activeClaims release (activeScopesOf release sectionOnePath) artifacts
      sectionOnePath).length

/-- Over the one-row file the source is the row; over the two-row file, where
both rows claim the path, there is none. -/
theorem resolveLocalCorpusSource_section_one :
    (∃ source citationPath artifacts, resolveSectionOne [some "a"] oneRowDigest = .ok source ∧
      readClassArtifacts (sectionOneHost [some "a"] oneRowDigest)
        (sectionOneRelease [some "a"] oneRowDigest) ((citationPath.map Subtype.val).getD 0 [])
        ((citationPath.map Subtype.val).getD 1 []) = .ok artifacts ∧
      ResolvesNearest (sectionOneHost [some "a"] oneRowDigest)
        (sectionOneRelease [some "a"] oneRowDigest) (fun text _ _ => .ok text) citationPath
        artifacts source) ∧
    ∀ source, resolveSectionOne [some "a", some "b"] twoRowsDigest ≠ .ok source := by
  constructor
  · have returns : (resolveSectionOne [some "a"] oneRowDigest).isOk = true := by decide +kernel
    obtain ⟨source, resolved⟩ := exists_of_isOk returns
    obtain ⟨citationPath, artifacts, -, read, -, nearest⟩ :=
      (resolveLocalCorpusSource_nearest_unique _ _ _ _).1 source resolved
    exact ⟨source, citationPath, artifacts, resolved, read, nearest⟩
  · have two : sectionOneClaims [some "a", some "b"] twoRowsDigest = .ok 2 := by decide +kernel
    cases read : readClassArtifacts (sectionOneHost [some "a", some "b"] twoRowsDigest)
        (sectionOneRelease [some "a", some "b"] twoRowsDigest) "us".toList "statute".toList with
    | error e =>
      rw [sectionOneClaims, read] at two
      cases two
    | ok artifacts =>
      rw [sectionOneClaims, read] at two
      have several := (Except.ok.inj two).ge
      have longest : ∀ other ∈ lookupPaths sectionOnePath,
          ¬ sectionOnePath.length < other.length := by decide
      exact ((resolveLocalCorpusSource_nearest_unique _ _ _ _).2.2 sectionOnePath artifacts
        (by decide +kernel) read sectionOnePath List.mem_cons_self
        (fun other member longer => absurd longer (longest other member)) several).1

/-- Two active rows claim the path, and the second has no identifier: the row is
refused before the two are counted. -/
theorem resolveLocalCorpusSource_unnamed_claim :
    sectionOneClaims [some "a", none] unnamedRowDigest = .ok 2 ∧
      ¬ ∃ rows, resolveSectionOne [some "a", none] unnamedRowDigest =
        .error (.ambiguousSource "us/statute/1/1".toList rows) := by
  constructor
  · decide +kernel
  · have refused : resolveSectionOne [some "a", none] unnamedRowDigest =
        .error (.rowStructure "missing-release-metadata"
          ("Active release row is missing required metadata: id at " ++
            "/corpus/data/corpus/provisions/us/statute/v1.jsonl:2 must be a non-empty trimmed " ++
            "string")) := by decide +kernel
    rintro ⟨rows, ambiguous⟩
    rw [refused] at ambiguous
    cases ambiguous

end AxiomEncode.Corpus
