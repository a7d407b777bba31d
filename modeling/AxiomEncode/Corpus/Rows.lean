/-
# Corpus.Rows -- reading the rows of an artifact

A row is admitted in two ways: as the record that claims one citation path
(`readMatchingRecords`), or as a descendant of one (`readDescendantRecords`).
Both skip rows outside the active scopes and then refuse a malformed row; they
differ in the order of their checks and in the error a bad ordinal raises.
-/
import AxiomEncode.Corpus.Release

namespace AxiomEncode.Corpus

open Theory

set_option autoImplicit false

/-- `_clean_string_value` -/
def cleanStringValue (value : Option Json) (label : String) : Except ResolveError Text :=
  match value with
  | some (.str text) =>
    if text.isEmpty || text ≠ strip text then
      .error (.resolution (label ++ " must be a non-empty trimmed string"))
    else .ok text
  | _ => .error (.resolution (label ++ " must be a non-empty trimmed string"))

/-- `CorpusRowStructureError(reason, str(exc)) from exc` -/
def asRowStructure {α : Type} (reason : String) (framing : String)
    (result : Except ResolveError α) : Except ResolveError α :=
  match result with
  | .error (.resolution detail) => .error (.rowStructure reason (framing ++ detail))
  | other => other

/-- `_row_string`, for the two keys it is called with. -/
def rowString (record : Record) (key reason place : String) : Except ResolveError Text :=
  asRowStructure reason "" (cleanStringValue (Json.get? record key) (key ++ " at " ++ place))

/-- `_record_scope` -/
def recordScope (place : String) (record : Record) : Except ResolveError ReleaseScope := do
  let jurisdiction ← rowString record "jurisdiction" "missing-jurisdiction" place
  require (Json.get? record "doc_type").isNone (.rowStructure "legacy-document-class"
    ("Legacy doc_type is not allowed at " ++ place ++ "; use document_class"))
  let documentClass ← rowString record "document_class" "missing-document-class" place
  let version ← rowString record "version" "missing-version" place
  pure ⟨jurisdiction, documentClass, version⟩

/-- One key of `_validate_release_row_metadata`. -/
def requiredMetadata (place : String) (record : Record) (key : String) :
    Except ResolveError Text :=
  asRowStructure "missing-release-metadata"
    "Active release row is missing required metadata: "
    (cleanStringValue (Json.get? record key) (key ++ " at " ++ place))

/-- The metadata `_validate_release_row_metadata` requires of an active row. -/
structure ReleaseRowMetadata where
  id : Text
  sourcePath : Text
  sourceAsOf : Text
  expressionDate : Text
  deriving DecidableEq

def releaseRowMetadata (place : String) (record : Record) :
    Except ResolveError ReleaseRowMetadata := do
  let id ← requiredMetadata place record "id"
  let sourcePath ← requiredMetadata place record "source_path"
  let sourceAsOf ← requiredMetadata place record "source_as_of"
  let expressionDate ← requiredMetadata place record "expression_date"
  pure ⟨id, sourcePath, sourceAsOf, expressionDate⟩

/-- `_record_body`: a blank body is no body. -/
def recordBody (place : String) (record : Record) : Except ResolveError (Option Text) := do
  require (Json.get? record "text").isNone (.rowStructure "legacy-body-field"
    ("Legacy text body is not allowed at " ++ place ++ "; use body"))
  match Json.get? record "body" with
  | some (.str body) => pure (if (strip body).isEmpty then none else some body)
  | _ => pure none

/-- `_record_status(record) == "repealed"` -/
def recordRepealed (record : Record) : Bool :=
  match Json.get? record "metadata" with
  | some (.obj metadata) =>
    match Json.get? metadata "status" with
    | some (.str status) => status = "repealed".toList
    | _ => false
  | _ => false

/-- `_record_source_history` -/
def recordSourceHistory (record : Record) : List Text :=
  match Json.get? record "metadata" with
  | some (.obj metadata) =>
    match Json.get? metadata "source_history" with
    | some (.arr history) => history.filterMap fun entry =>
      match entry with
      | .str text => if (strip text).isEmpty then none else some (strip text)
      | _ => none
    | _ => []
  | _ => []

/-- `_optional_string` -/
def optionalString (value : Option Json) : Option Text :=
  match value with
  | some (.str text) => if text.isEmpty then none else some text
  | _ => none

/-- `_optional_int` -/
def optionalInt (host : Host) (value : Option Json) : Except ResolveError (Option Nat) :=
  let refused (value : Json) : Except ResolveError (Option Nat) :=
    .error (.resolution ("Optional corpus ordering metadata must be a non-negative integer, " ++
      "got " ++ host.repr value))
  match value with
  | none => .ok none
  | some .null => .ok none
  | some (.int n) => if n < 0 then refused (.int n) else .ok (some n.toNat)
  | some other => refused other

/-- Where a row is stored: its file, the digest of that file and its line. -/
structure RowPlace where
  path : Text
  fileSha256 : String
  lineNumber : Nat
  deriving DecidableEq

def ParsedCorpusArtifact.place (artifact : ParsedCorpusArtifact) (lineNumber : Nat) : RowPlace :=
  ⟨artifact.path, artifact.sha256, lineNumber⟩

section Rows

variable (host : Host) (release : LocalCorpusRelease)

def RowPlace.text (place : RowPlace) : String := location release place.path place.lineNumber

/-- The `CorpusRowIdentity` both readers build.  The identifier is never empty
after validation, so `str(record.get("id") or "")` is the identifier itself. -/
def rowIdentity (place : RowPlace) (citationPath : CitationPath) (scope : ReleaseScope)
    (metadata : ReleaseRowMetadata) (body : Option Text) : CorpusRowIdentity where
  provisionFile := place.path
  provisionFileSha256 := place.fileSha256
  lineNumber := place.lineNumber
  recordId := metadata.id
  citationPath
  jurisdiction := scope.jurisdiction
  documentClass := scope.documentClass
  version := scope.version
  sourcePath := some metadata.sourcePath
  sourceAsOf := some metadata.sourceAsOf
  expressionDate := some metadata.expressionDate
  bodySha256 := body.map host.sha256Text

def storedRecord (place : RowPlace) (citationPath : CitationPath) (scope : ReleaseScope)
    (metadata : ReleaseRowMetadata) (record : Record) (body : Option Text)
    (level ordinal : Option Nat) : StoredRecord where
  row := rowIdentity host place citationPath scope metadata body
  body
  heading := optionalString (Json.get? record "heading")
  repealed := recordRepealed record
  level
  ordinal
  fileSha256 := place.fileSha256
  sourceHistory := recordSourceHistory record

/-- The jurisdiction and document class of a path are those of a scope. -/
def pathInScope (citationPath : CitationPath) (scope : ReleaseScope) : Bool :=
  (citationPath.take 2).map Subtype.val = [scope.jurisdiction, scope.documentClass]

/-- One turn of the loop of `_read_matching_records`. -/
def readMatchingRow (citationPath : CitationPath) (activeScopes : List ReleaseScope)
    (place : RowPlace) (record : Record) : Except ResolveError (List StoredRecord) :=
  if (Json.get? record "citation_path").bind Json.text? ≠ some citationPath.text then .ok []
  else do
    let at_ := place.text release
    let rowScope ← recordScope at_ record
    if rowScope ∉ activeScopes then pure []
    else do
      let metadata ← releaseRowMetadata at_ record
      require (pathInScope citationPath rowScope)
        (.resolution ("Active corpus citation does not match its scope at " ++ at_))
      let body ← recordBody at_ record
      let level ← optionalInt host (Json.get? record "level")
      let ordinal ← optionalInt host (Json.get? record "ordinal")
      pure [storedRecord host place citationPath rowScope metadata record body level ordinal]

/-- `CorpusDescendantStructureError(...) from exc` around an ordering field. -/
def orderingField {α : Type} (at_ : String) (result : Except ResolveError α) :
    Except ResolveError α :=
  match result with
  | .error (.resolution detail) => .error (.descendantStructure
      ("Malformed descendant ordering metadata at " ++ at_ ++ ": " ++ detail))
  | other => other

/-- `InvalidCorpusCitationError` of a descendant path. -/
def descendantPath (at_ : String) (recordPath : Text) : Except ResolveError CitationPath :=
  match normalizeCitationPath host recordPath with
  | .error (.invalidCitation _) => .error (.descendantStructure
      ("Invalid descendant citation_path at " ++ at_ ++ ": " ++ host.quote recordPath))
  | other => other

/-- One turn of the loop of `_read_descendant_records`. -/
def readDescendantRow (citationPath : CitationPath) (activeScopes : List ReleaseScope)
    (place : RowPlace) (record : Record) : Except ResolveError (List StoredRecord) :=
  match (Json.get? record "citation_path").bind Json.text? with
  | none => .ok []
  | some recordPath =>
    if !(citationPath.text ++ ['/']).isPrefixOf recordPath then .ok []
    else do
      let at_ := place.text release
      let rowScope ← recordScope at_ record
      if rowScope ∉ activeScopes then pure []
      else do
        let path ← descendantPath host at_ recordPath
        require (path.text = recordPath)
          (.descendantStructure ("citation_path must be normalized at " ++ at_))
        require (pathInScope path rowScope) (.descendantStructure
          ("Active corpus descendant does not match its scope at " ++ at_))
        let metadata ← releaseRowMetadata at_ record
        let body ← recordBody at_ record
        let level ← orderingField at_ (optionalInt host (Json.get? record "level"))
        let ordinal ← orderingField at_ (optionalInt host (Json.get? record "ordinal"))
        pure [storedRecord host place path rowScope metadata record body level ordinal]

def readMatchingRecords (citationPath : CitationPath) (activeScopes : List ReleaseScope)
    (artifact : ParsedCorpusArtifact) : Except ResolveError (List StoredRecord) :=
  collect (fun row => readMatchingRow host release citationPath activeScopes
    (artifact.place row.1) row.2) artifact.rows

def readDescendantRecords (citationPath : CitationPath) (activeScopes : List ReleaseScope)
    (artifact : ParsedCorpusArtifact) : Except ResolveError (List StoredRecord) :=
  collect (fun row => readDescendantRow host release citationPath activeScopes
    (artifact.place row.1) row.2) artifact.rows

end Rows

end AxiomEncode.Corpus
