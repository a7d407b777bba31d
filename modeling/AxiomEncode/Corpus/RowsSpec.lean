/-
# Corpus.RowsSpec -- which rows the readers admit

Over all artifacts at once, a reader goes through the placed rows.  The rows it
admits are those that claim the path in an active scope (`activeClaims`) or lie
below it in one (`activeDescendants`), each as one record, and where a row is
stored shows in nothing but the place of its record.
-/
import AxiomEncode.Corpus.ComposeRelocate

namespace AxiomEncode.Corpus

open Theory

set_option autoImplicit false

/-- The rows of all artifacts in order, each with its place. -/
def placedRows (artifacts : List ParsedCorpusArtifact) : List (RowPlace × Record) :=
  artifacts.flatMap fun artifact => artifact.rows.map fun row => (artifact.place row.1, row.2)

/-- The citation path of a row, when it is a text. -/
def rowPath (record : Record) : Option Text :=
  (Json.get? record "citation_path").bind Json.text?

section

variable (host : Host) (release : LocalCorpusRelease) (activeScopes : List ReleaseScope)

/-- The row has a scope and it is active. -/
def inActiveScope (row : RowPlace × Record) : Bool :=
  match recordScope (row.1.text release) row.2 with
  | .ok scope => scope ∈ activeScopes
  | .error _ => false

def claimsPath (path : CitationPath) (row : RowPlace × Record) : Bool :=
  rowPath row.2 = some path.text && inActiveScope release activeScopes row

def liesBelow (path : CitationPath) (row : RowPlace × Record) : Bool :=
  ((rowPath row.2).any fun recordPath => (path.text ++ ['/']).isPrefixOf recordPath) &&
    inActiveScope release activeScopes row

/-- The active rows that claim a path. -/
def activeClaims (artifacts : List ParsedCorpusArtifact) (path : CitationPath) :
    List (RowPlace × Record) :=
  (placedRows artifacts).filter (claimsPath release activeScopes path)

/-- The active rows below a path. -/
def activeDescendants (artifacts : List ParsedCorpusArtifact) (path : CitationPath) :
    List (RowPlace × Record) :=
  (placedRows artifacts).filter (liesBelow release activeScopes path)

theorem collect_readMatchingRecords (path : CitationPath) (artifacts : List ParsedCorpusArtifact) :
    collect (readMatchingRecords host release path activeScopes) artifacts =
      collect (fun row => readMatchingRow host release path activeScopes row.1 row.2)
        (placedRows artifacts) := by
  rw [placedRows, ← collect_flatMap]
  congr 1
  funext artifact
  rw [collect_map]
  rfl

theorem collect_readDescendantRecords (path : CitationPath)
    (artifacts : List ParsedCorpusArtifact) :
    collect (readDescendantRecords host release path activeScopes) artifacts =
      collect (fun row => readDescendantRow host release path activeScopes row.1 row.2)
        (placedRows artifacts) := by
  rw [placedRows, ← collect_flatMap]
  congr 1
  funext artifact
  rw [collect_map]
  rfl

end

section Fields

variable {at_ at' : String} {record : Record}

/-- A field that `_clean_string_value` lets through. -/
def CleanField (record : Record) (key : String) (text : Text) : Prop :=
  Json.get? record key = some (.str text) ∧ text.isEmpty = false ∧ text = strip text

theorem cleanStringValue_eq_ok_iff {value : Option Json} {label : String} {text : Text} :
    cleanStringValue value label = .ok text ↔
      value = some (.str text) ∧ text.isEmpty = false ∧ text = strip text := by
  cases value with
  | none => simp [cleanStringValue]
  | some json =>
    cases json with
    | str found =>
      simp only [cleanStringValue, Option.some.injEq, Json.str.injEq]
      split
      next malformed =>
        simp only [Bool.or_eq_true, decide_eq_true_eq] at malformed
        simp only [reduceCtorEq, false_iff]
        rintro ⟨rfl, nonempty, trimmed⟩
        rcases malformed with empty | ragged
        · simp [empty] at nonempty
        · exact ragged trimmed
      next clean =>
        simp only [Bool.or_eq_true, decide_eq_true_eq, not_or, Bool.not_eq_true,
          not_not] at clean
        constructor
        · intro same
          cases Except.ok.inj same
          exact ⟨rfl, clean⟩
        · rintro ⟨rfl, -⟩
          rfl
    | _ => simp [cleanStringValue]

theorem asRowStructure_eq_ok_iff {α : Type} {reason framing : String}
    {result : Except ResolveError α} {x : α} :
    asRowStructure reason framing result = .ok x ↔ result = .ok x := by
  unfold asRowStructure
  split <;> simp

variable {scope : ReleaseScope} {metadata : ReleaseRowMetadata} {body : Option Text}

theorem recordScope_eq_ok_iff :
    recordScope at_ record = .ok scope ↔
      CleanField record "jurisdiction" scope.jurisdiction ∧
        (Json.get? record "doc_type").isNone = true ∧
        CleanField record "document_class" scope.documentClass ∧
        CleanField record "version" scope.version := by
  simp only [recordScope, rowString, bind_eq_ok_iff, require_eq_ok_iff, asRowStructure_eq_ok_iff,
    cleanStringValue_eq_ok_iff, exists_const, CleanField]
  constructor
  · rintro ⟨jurisdiction, hj, modern, documentClass, hd, version, hv, last⟩
    cases Except.ok.inj last
    exact ⟨hj, modern, hd, hv⟩
  · rintro ⟨hj, modern, hd, hv⟩
    exact ⟨_, hj, modern, _, hd, _, hv, rfl⟩

theorem releaseRowMetadata_eq_ok_iff :
    releaseRowMetadata at_ record = .ok metadata ↔
      CleanField record "id" metadata.id ∧ CleanField record "source_path" metadata.sourcePath ∧
        CleanField record "source_as_of" metadata.sourceAsOf ∧
        CleanField record "expression_date" metadata.expressionDate := by
  simp only [releaseRowMetadata, requiredMetadata, bind_eq_ok_iff, asRowStructure_eq_ok_iff,
    cleanStringValue_eq_ok_iff, CleanField]
  constructor
  · rintro ⟨id, hi, sourcePath, hp, sourceAsOf, ha, expressionDate, he, last⟩
    cases Except.ok.inj last
    exact ⟨hi, hp, ha, he⟩
  · rintro ⟨hi, hp, ha, he⟩
    exact ⟨_, hi, _, hp, _, ha, _, he, rfl⟩

/-- The body of a record, blank bodies left out. -/
def ownBody (record : Record) : Option Text :=
  match Json.get? record "body" with
  | some (.str body) => if (strip body).isEmpty then none else some body
  | _ => none

theorem recordBody_eq_ok_iff :
    recordBody at_ record = .ok body ↔
      (Json.get? record "text").isNone = true ∧ body = ownBody record := by
  simp only [recordBody, bind_eq_ok_iff, require_eq_ok_iff, exists_const]
  refine and_congr_right fun _ => ?_
  unfold ownBody
  cases Json.get? record "body" with
  | none => exact ⟨fun same => (Except.ok.inj same).symm, fun same => same ▸ rfl⟩
  | some json =>
    cases json <;> exact ⟨fun same => (Except.ok.inj same).symm, fun same => same ▸ rfl⟩

theorem recordScope_congr :
    recordScope at_ record = .ok scope ↔ recordScope at' record = .ok scope := by
  rw [recordScope_eq_ok_iff, recordScope_eq_ok_iff]

theorem releaseRowMetadata_congr :
    releaseRowMetadata at_ record = .ok metadata ↔
      releaseRowMetadata at' record = .ok metadata := by
  rw [releaseRowMetadata_eq_ok_iff, releaseRowMetadata_eq_ok_iff]

theorem recordBody_congr : recordBody at_ record = .ok body ↔ recordBody at' record = .ok body := by
  rw [recordBody_eq_ok_iff, recordBody_eq_ok_iff]

end Fields

section Rows

variable {host : Host} {release : LocalCorpusRelease} {activeScopes : List ReleaseScope}
  {path : CitationPath} {place : RowPlace} {record : Record} {part : List StoredRecord}

/-- What reading a row that claims the path does. -/
theorem readMatchingRow_eq_ok_iff :
    readMatchingRow host release path activeScopes place record = .ok part ↔
      (rowPath record ≠ some path.text ∧ part = []) ∨
      rowPath record = some path.text ∧ ∃ scope,
        recordScope (place.text release) record = .ok scope ∧
        (scope ∉ activeScopes ∧ part = [] ∨
          scope ∈ activeScopes ∧ ∃ metadata body level ordinal,
            releaseRowMetadata (place.text release) record = .ok metadata ∧
            pathInScope path scope = true ∧
            recordBody (place.text release) record = .ok body ∧
            optionalInt host (Json.get? record "level") = .ok level ∧
            optionalInt host (Json.get? record "ordinal") = .ok ordinal ∧
            part = [storedRecord host place path scope metadata record body level ordinal]) := by
  rw [readMatchingRow, ← rowPath]
  by_cases claimed : rowPath record = some path.text
  · rw [if_neg (not_not.mpr claimed), bind_eq_ok_iff]
    simp only [claimed, ne_eq, not_true_eq_false, false_and, true_and, false_or]
    refine exists_congr fun scope => and_congr_right fun _ => ?_
    by_cases active : scope ∈ activeScopes
    · rw [if_neg (not_not.mpr active)]
      simp only [active, not_true_eq_false, false_and, true_and, false_or, bind_eq_ok_iff,
        require_eq_ok_iff, exists_and_left, exists_const]
      constructor
      · rintro ⟨metadata, hm, inScope, body, hb, level, hl, ordinal, ho, last⟩
        exact ⟨metadata, hm, inScope, body, hb, level, hl, ordinal, ho, (Except.ok.inj last).symm⟩
      · rintro ⟨metadata, hm, inScope, body, hb, level, hl, ordinal, ho, rfl⟩
        exact ⟨metadata, hm, inScope, body, hb, level, hl, ordinal, ho, rfl⟩
    · rw [if_pos active]
      simp [active, pure, Except.pure]
  · rw [if_pos claimed]
    simp [claimed]

variable {row : RowPlace × Record} {artifacts : List ParsedCorpusArtifact}
  {records : List StoredRecord}

theorem readMatchingRow_skips (counts : claimsPath release activeScopes path row = false)
    (read : readMatchingRow host release path activeScopes row.1 row.2 = .ok part) :
    part = [] := by
  rcases readMatchingRow_eq_ok_iff.mp read with ⟨-, empty⟩ | ⟨claimed, scope, hasScope, rest⟩
  · exact empty
  · rcases rest with ⟨-, empty⟩ | ⟨active, -⟩
    · exact empty
    · simp [claimsPath, claimed, inActiveScope, hasScope, active] at counts

theorem readMatchingRow_single (counts : claimsPath release activeScopes path row = true)
    (read : readMatchingRow host release path activeScopes row.1 row.2 = .ok part) :
    ∃ stored, part = [stored] := by
  simp only [claimsPath, Bool.and_eq_true, decide_eq_true_eq] at counts
  rcases readMatchingRow_eq_ok_iff.mp read with ⟨other, -⟩ | ⟨-, scope, hasScope, rest⟩
  · exact absurd counts.1 other
  · rcases rest with ⟨inactive, -⟩ | ⟨-, _, _, _, _, -, -, -, -, -, single⟩
    · simp [inActiveScope, hasScope, inactive] at counts
    · exact ⟨_, single⟩

/-- The records a path was matched by are its active claims, one by one. -/
theorem forall₂_activeClaims
    (read : collect (readMatchingRecords host release path activeScopes) artifacts = .ok records) :
    List.Forall₂ (fun row stored =>
        readMatchingRow host release path activeScopes row.1 row.2 = .ok [stored])
      (activeClaims release activeScopes artifacts path) records := by
  rw [collect_readMatchingRecords] at read
  exact collect_singles (fun _ _ => readMatchingRow_skips) (fun _ _ => readMatchingRow_single) read

theorem orderingField_eq_ok_iff {α : Type} {at_ : String} {result : Except ResolveError α}
    {x : α} : orderingField at_ result = .ok x ↔ result = .ok x := by
  unfold orderingField
  split <;> simp

theorem descendantPath_eq_ok_iff {at_ : String} {recordPath : Text} {citation : CitationPath} :
    descendantPath host at_ recordPath = .ok citation ↔
      normalizeCitationPath host recordPath = .ok citation := by
  unfold descendantPath
  split <;> simp_all

/-- What reading a row below the path does. -/
theorem readDescendantRow_eq_ok_iff :
    readDescendantRow host release path activeScopes place record = .ok part ↔
      (((rowPath record).any fun recordPath => (path.text ++ ['/']).isPrefixOf recordPath) = false ∧
        part = []) ∨
      ∃ recordPath scope, rowPath record = some recordPath ∧
        (path.text ++ ['/']).isPrefixOf recordPath = true ∧
        recordScope (place.text release) record = .ok scope ∧
        (scope ∉ activeScopes ∧ part = [] ∨
          scope ∈ activeScopes ∧ ∃ citation metadata body level ordinal,
            normalizeCitationPath host recordPath = .ok citation ∧ citation.text = recordPath ∧
            pathInScope citation scope = true ∧
            releaseRowMetadata (place.text release) record = .ok metadata ∧
            recordBody (place.text release) record = .ok body ∧
            optionalInt host (Json.get? record "level") = .ok level ∧
            optionalInt host (Json.get? record "ordinal") = .ok ordinal ∧
            part = [storedRecord host place citation scope metadata record body level ordinal]) := by
  rw [readDescendantRow, ← rowPath]
  cases named : rowPath record with
  | none => simp
  | some recordPath =>
    simp only [Option.any_some, Option.some.injEq, exists_and_left, exists_eq_left']
    cases below : (path.text ++ ['/']).isPrefixOf recordPath with
    | false => simp
    | true =>
      simp only [Bool.not_true, Bool.false_eq_true, if_false, Bool.true_eq_false, false_and,
        false_or, true_and, bind_eq_ok_iff]
      refine exists_congr fun scope => and_congr_right fun _ => ?_
      by_cases active : scope ∈ activeScopes
      · rw [if_neg (not_not.mpr active)]
        simp only [active, not_true_eq_false, false_and, true_and, false_or, bind_eq_ok_iff,
          require_eq_ok_iff, decide_eq_true_eq, exists_and_left, exists_const,
          orderingField_eq_ok_iff, descendantPath_eq_ok_iff]
        constructor
        · rintro ⟨citation, hc, whole, inScope, metadata, hm, body, hb, level, hl, ordinal, ho,
            last⟩
          exact ⟨citation, hc, whole, inScope, metadata, hm, body, hb, level, hl, ordinal, ho,
            (Except.ok.inj last).symm⟩
        · rintro ⟨citation, hc, whole, inScope, metadata, hm, body, hb, level, hl, ordinal, ho,
            rfl⟩
          exact ⟨citation, hc, whole, inScope, metadata, hm, body, hb, level, hl, ordinal, ho,
            rfl⟩
      · rw [if_pos active]
        simp [active, pure, Except.pure]

theorem readDescendantRow_skips (counts : liesBelow release activeScopes path row = false)
    (read : readDescendantRow host release path activeScopes row.1 row.2 = .ok part) :
    part = [] := by
  rcases readDescendantRow_eq_ok_iff.mp read with
    ⟨-, empty⟩ | ⟨recordPath, scope, named, below, hasScope, rest⟩
  · exact empty
  · rcases rest with ⟨-, empty⟩ | ⟨active, -⟩
    · exact empty
    · simp [liesBelow, named, below, inActiveScope, hasScope, active] at counts

theorem readDescendantRow_single (counts : liesBelow release activeScopes path row = true)
    (read : readDescendantRow host release path activeScopes row.1 row.2 = .ok part) :
    ∃ stored, part = [stored] := by
  simp only [liesBelow, Bool.and_eq_true] at counts
  rcases readDescendantRow_eq_ok_iff.mp read with
    ⟨outside, -⟩ | ⟨recordPath, scope, named, below, hasScope, rest⟩
  · simp [outside] at counts
  · rcases rest with ⟨inactive, -⟩ | ⟨-, _, _, _, _, _, -, -, -, -, -, -, -, single⟩
    · simp [inActiveScope, hasScope, inactive] at counts
    · exact ⟨_, single⟩

/-- The descendants that were read are the active rows below the path. -/
theorem forall₂_activeDescendants
    (read : collect (readDescendantRecords host release path activeScopes) artifacts =
      .ok records) :
    List.Forall₂ (fun row stored =>
        readDescendantRow host release path activeScopes row.1 row.2 = .ok [stored])
      (activeDescendants release activeScopes artifacts path) records := by
  rw [collect_readDescendantRecords] at read
  exact collect_singles (fun _ _ => readDescendantRow_skips) (fun _ _ => readDescendantRow_single) read

end Rows

end AxiomEncode.Corpus
