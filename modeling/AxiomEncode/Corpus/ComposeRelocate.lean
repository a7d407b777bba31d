/-
# Corpus.ComposeRelocate -- composition never looks at where a row is stored

The file, its digest and the line of a row are carried along and read by no
step of a composition.  Moving every record (`StoredRecord.relocate`) therefore
moves the component rows and changes nothing else, so two lists that agree up to
order and up to the places of their rows compose to the same text.
-/
import AxiomEncode.Corpus.ComposeOrder
import AxiomEncode.Corpus.Rows

namespace AxiomEncode.Corpus

open Theory

set_option autoImplicit false

namespace CorpusRowIdentity

def place (row : CorpusRowIdentity) : RowPlace :=
  ⟨row.provisionFile, row.provisionFileSha256, row.lineNumber⟩

/-- The same row at another place. -/
def relocate (move : RowPlace → RowPlace) (row : CorpusRowIdentity) : CorpusRowIdentity :=
  { row with
    provisionFile := (move row.place).path
    provisionFileSha256 := (move row.place).fileSha256
    lineNumber := (move row.place).lineNumber }

@[simp] theorem relocate_citationPath (move : RowPlace → RowPlace) (row : CorpusRowIdentity) :
    (row.relocate move).citationPath = row.citationPath := rfl

@[simp] theorem relocate_scope (move : RowPlace → RowPlace) (row : CorpusRowIdentity) :
    (row.relocate move).scope = row.scope := rfl

@[simp] theorem relocate_id (row : CorpusRowIdentity) : row.relocate id = row := rfl

end CorpusRowIdentity

namespace StoredRecord

/-- The place of the record's row, under the digest the record itself carries. -/
def place (record : StoredRecord) : RowPlace :=
  ⟨record.row.provisionFile, record.fileSha256, record.row.lineNumber⟩

def relocate (move : RowPlace → RowPlace) (record : StoredRecord) : StoredRecord :=
  { record with
    row := record.row.relocate move
    fileSha256 := (move record.place).fileSha256 }

variable (move : RowPlace → RowPlace) (record : StoredRecord)

@[simp] theorem relocate_row : (record.relocate move).row = record.row.relocate move := rfl

@[simp] theorem relocate_path : (record.relocate move).path = record.path := rfl

@[simp] theorem relocate_body : (record.relocate move).body = record.body := rfl

@[simp] theorem relocate_hasBody : (record.relocate move).hasBody = record.hasBody := rfl

@[simp] theorem relocate_repealed : (record.relocate move).repealed = record.repealed := rfl

@[simp] theorem relocate_ordinal : (record.relocate move).ordinal = record.ordinal := rfl

@[simp] theorem relocate_chunk : (record.relocate move).chunk = record.chunk := rfl

@[simp] theorem relocate_sourceHistory :
    (record.relocate move).sourceHistory = record.sourceHistory := rfl

end StoredRecord

section Relocate

variable (move : RowPlace → RowPlace) {citationPath : CitationPath}
  (records : List StoredRecord)

theorem recordAt_relocate (path : CitationPath) :
    recordAt (records.map (StoredRecord.relocate move)) path =
      (recordAt records path).map (StoredRecord.relocate move) := by
  rw [recordAt, recordAt, List.find?_map]
  rfl

theorem buildIndex_relocate :
    buildIndex citationPath (records.map (StoredRecord.relocate move)) =
      buildIndex citationPath records := by
  rw [buildIndex, buildIndex, List.foldlM_map]
  rfl

theorem visitBound_relocate :
    visitBound (records.map (StoredRecord.relocate move)) = visitBound records := by
  rw [visitBound, visitBound, List.map_map]
  rfl

theorem contributesCurrentText_relocate (index : CompositionIndex) :
    ∀ bound path,
      contributesCurrentText (records.map (StoredRecord.relocate move)) index bound path =
        contributesCurrentText records index bound path := by
  intro bound
  induction bound with
  | zero => intro path; rfl
  | succ bound ih =>
    intro path
    simp only [contributesCurrentText, recordAt_relocate, funext ih]
    cases recordAt records path with
    | none => rfl
    | some record => rfl

theorem sortedChildren_relocate (childPaths : List CitationPath) :
    sortedChildren (records.map (StoredRecord.relocate move)) childPaths =
      sortedChildren records childPaths := by
  have ordinal : ∀ child,
      (recordAt (records.map (StoredRecord.relocate move)) child).bind StoredRecord.ordinal =
        (recordAt records child).bind StoredRecord.ordinal := by
    intro child
    rw [recordAt_relocate]
    cases recordAt records child <;> rfl
  have ordinals : useOrdinals (records.map (StoredRecord.relocate move)) childPaths =
      useOrdinals records childPaths := by
    simp only [useOrdinals, ordinal]
  have key : ∀ child useOrdinal,
      descendantSiblingOrderKey child
          (recordAt (records.map (StoredRecord.relocate move)) child) useOrdinal =
        descendantSiblingOrderKey child (recordAt records child) useOrdinal := by
    intro child useOrdinal
    simp only [descendantSiblingOrderKey, ordinal]
  simp only [sortedChildren, ordinals, key]

/-- A monadic map over results that all moved. -/
theorem mapM_relocate {f g : CitationPath → Except ComposeError (List StoredRecord)}
    (moved : ∀ path, g path = (f path).map (List.map (StoredRecord.relocate move))) :
    ∀ paths : List CitationPath, paths.mapM g =
      (paths.mapM f).map (List.map (List.map (StoredRecord.relocate move))) := by
  intro paths
  induction paths with
  | nil => rfl
  | cons path paths ih =>
    rw [List.mapM_cons, List.mapM_cons, ih, moved]
    cases f path with
    | error e => rfl
    | ok here => cases paths.mapM f <;> rfl

theorem visit_relocate (index : CompositionIndex) (contributes : CitationPath → Bool) :
    ∀ bound path,
      visit citationPath (records.map (StoredRecord.relocate move)) index contributes bound path =
        (visit citationPath records index contributes bound path).map
          (List.map (StoredRecord.relocate move)) := by
  intro bound
  induction bound with
  | zero => intro path; rfl
  | succ bound ih =>
    intro path
    have below : visitBelow citationPath (records.map (StoredRecord.relocate move)) index
          contributes (visit citationPath (records.map (StoredRecord.relocate move)) index
            contributes bound) path =
        (visitBelow citationPath records index contributes
          (visit citationPath records index contributes bound) path).map
            (List.map (StoredRecord.relocate move)) := by
      simp only [visitBelow, sortedChildren_relocate, mapM_relocate move ih]
      split
      · rfl
      · split
        · rfl
        · cases (sortedChildren records ((index.childPaths path).filter contributes)).mapM
            (visit citationPath records index contributes bound) with
          | error e => rfl
          | ok parts => simp [Except.map, bind, Except.bind, pure, Except.pure, List.map_flatten]
    simp only [visit, recordAt_relocate, below]
    cases recordAt records path with
    | none => rfl
    | some record =>
      by_cases repealed : record.repealed = true
      · simp [repealed, Except.map]
      · by_cases body : record.hasBody = true
        · simp [repealed, body, Except.map]
        · simp [repealed, body]

theorem isLeaf_relocate (record : StoredRecord) :
    IsLeaf (records.map (StoredRecord.relocate move)) (record.relocate move) ↔
      IsLeaf records record := by
  simp only [IsLeaf, List.forall_mem_map, StoredRecord.relocate_path]

theorem composedBytes_relocate :
    composedBytes (records.map (StoredRecord.relocate move)) = composedBytes records := by
  rw [composedBytes, composedBytes, List.map_map, List.length_map]
  rfl

variable {expectedScope : ReleaseScope}

/-- The checks of a composition pass for the moved records as for the records. -/
theorem composed_relocate_iff {index : CompositionIndex} {ordered' : List StoredRecord} :
    Composed citationPath (records.map (StoredRecord.relocate move)) expectedScope index ordered' ↔
      ∃ ordered, ordered' = ordered.map (StoredRecord.relocate move) ∧
        Composed citationPath records expectedScope index ordered := by
  have contributes :
      contributesCurrentText (records.map (StoredRecord.relocate move)) index
          (visitBound records) =
        contributesCurrentText records index (visitBound records) :=
    funext (contributesCurrentText_relocate move records index _)
  have scopes : (∀ record ∈ records.map (StoredRecord.relocate move),
      record.row.scope = expectedScope) ↔ ∀ record ∈ records, record.row.scope = expectedScope := by
    simp only [List.forall_mem_map, StoredRecord.relocate_row,
      CorpusRowIdentity.relocate_scope]
  have body : (∃ record ∈ records.map (StoredRecord.relocate move), record.hasBody = true) ↔
      ∃ record ∈ records, record.hasBody = true := by
    simp only [List.mem_map, exists_exists_and_eq_and, StoredRecord.relocate_hasBody]
  have distinct : ((records.map (StoredRecord.relocate move)).map StoredRecord.path).Nodup ↔
      (records.map StoredRecord.path).Nodup := by
    rw [List.map_map]
    rfl
  have repealed : (∀ record ∈ records.map (StoredRecord.relocate move), record.repealed = true →
        record.hasBody = false ∧ IsLeaf (records.map (StoredRecord.relocate move)) record) ↔
      ∀ record ∈ records, record.repealed = true →
        record.hasBody = false ∧ IsLeaf records record := by
    simp only [List.forall_mem_map, StoredRecord.relocate_repealed,
      StoredRecord.relocate_hasBody, isLeaf_relocate]
  constructor
  · intro composed
    have visited := composed.visited
    rw [visitBound_relocate, contributes, visit_relocate] at visited
    obtain ⟨ordered, done, rfl⟩ : ∃ ordered, visit citationPath records index
        (contributesCurrentText records index (visitBound records)) (visitBound records)
        citationPath = .ok ordered ∧ ordered.map (StoredRecord.relocate move) = ordered' := by
      revert visited
      cases visit citationPath records index
          (contributesCurrentText records index (visitBound records)) (visitBound records)
          citationPath with
      | error e => intro visited; cases visited
      | ok ordered => intro visited; exact ⟨ordered, rfl, Except.ok.inj visited⟩
    have built := composed.built
    rw [buildIndex_relocate] at built
    refine ⟨ordered, rfl, scopes.mp composed.scopes, body.mp composed.body,
      admitted_of_buildIndex built (distinct.mp composed.admitted.distinct)
        (repealed.mp composed.admitted.repealed), built, done, ?_, ?_⟩
    · intro empty
      exact composed.nonempty (by rw [empty, List.map_nil])
    · rw [← composedBytes_relocate move]
      exact composed.fits
  · rintro ⟨ordered, rfl, composed⟩
    have built : buildIndex citationPath (records.map (StoredRecord.relocate move)) = .ok index := by
      rw [buildIndex_relocate, composed.built]
    refine ⟨scopes.mpr composed.scopes, body.mpr composed.body,
      admitted_of_buildIndex built (distinct.mpr composed.admitted.distinct)
        (repealed.mpr composed.admitted.repealed), built, ?_, ?_, ?_⟩
    · rw [visitBound_relocate, contributes, visit_relocate, composed.visited]
      rfl
    · intro empty
      exact composed.nonempty (List.map_eq_nil_iff.mp empty)
    · rw [composedBytes_relocate]
      exact composed.fits

/-- Moving the records moves the component rows and keeps the text. -/
theorem composeDescendantText_relocate_iff {text : Text} {rows' : List CorpusRowIdentity} :
    composeDescendantText citationPath (records.map (StoredRecord.relocate move)) expectedScope =
        .ok (text, rows') ↔
      ∃ rows, rows' = rows.map (CorpusRowIdentity.relocate move) ∧
        composeDescendantText citationPath records expectedScope = .ok (text, rows) := by
  constructor
  · intro done
    obtain ⟨index, ordered', composed', rfl, rfl⟩ := composeDescendantText_eq_ok_iff.mp done
    obtain ⟨ordered, rfl, composed⟩ := (composed_relocate_iff move records).mp composed'
    refine ⟨ordered.map StoredRecord.row, ?_, composeDescendantText_eq_ok_iff.mpr
      ⟨index, ordered, composed, ?_, rfl⟩⟩
    · rw [List.map_map, List.map_map]
      rfl
    · rw [List.map_map]
      rfl
  · rintro ⟨rows, rfl, done⟩
    obtain ⟨index, ordered, composed, rfl, rfl⟩ := composeDescendantText_eq_ok_iff.mp done
    refine composeDescendantText_eq_ok_iff.mpr ⟨index, _,
      (composed_relocate_iff move records).mpr ⟨ordered, rfl, composed⟩, ?_, ?_⟩
    · rw [List.map_map]
      rfl
    · rw [List.map_map, List.map_map]
      rfl

end Relocate

end AxiomEncode.Corpus
