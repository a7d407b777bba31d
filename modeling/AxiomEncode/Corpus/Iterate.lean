/-
# Corpus.Iterate -- every active row that bears a body

`iterActiveLocalCorpusRows` goes through the selected scopes bucket by bucket, one
jurisdiction and document class at a time, under one read budget.  It refuses a
malformed active row and a citation path that two active rows share, and it gives
nothing before the whole selection has been read.
-/
import AxiomEncode.Corpus.Rows
import Mathlib.Data.Char
import Mathlib.Data.List.Lex
import Mathlib.Data.List.Sort
import Mathlib.Data.Prod.Lex

namespace AxiomEncode.Corpus

open Theory

set_option autoImplicit false

/-- One body-bearing row selected by the active corpus release. -/
structure ActiveCorpusBodyRow where
  row : CorpusRowIdentity
  body : Text
  heading : Option Text
  citationLabel : Option Text
  metadata : Record
  releaseName : Text
  releaseContentSha256 : String
  releaseSelectorSha256 : String

/-- An active row as the scan keeps it, with a body or without. -/
structure ActiveEntry where
  row : CorpusRowIdentity
  body : Option Text
  record : Record

def ActiveEntry.text (entry : ActiveEntry) : Text := entry.row.citationPath.text

/-- What all reads of one iteration have used up. -/
structure LocalCorpusReadBudget where
  fileCount : Nat := 0
  byteCount : Nat := 0
  rowCount : Nat := 0

def LocalCorpusReadBudget.charge (budget : LocalCorpusReadBudget)
    (artifacts : List ParsedCorpusArtifact) : LocalCorpusReadBudget where
  fileCount := budget.fileCount + artifacts.length
  byteCount := budget.byteCount + (artifacts.map ParsedCorpusArtifact.byteSize).sum
  rowCount := budget.rowCount + (artifacts.map fun artifact => artifact.rows.length).sum

/-- A jurisdiction and a document class, in the order `sorted` gives them. -/
abbrev ScopeBucket := Lex (Text × Text)

def ReleaseScope.bucket (scope : ReleaseScope) : ScopeBucket :=
  toLex (scope.jurisdiction, scope.documentClass)

section Iterate

variable (host : Host) (release : LocalCorpusRelease)

/-- The checks of the two filters. -/
def checkFilters (jurisdiction documentClass : Option Text) : Except ResolveError Unit := do
  match jurisdiction with
  | none => pure ()
  | some jurisdiction => do
    let jurisdiction ← cleanStringValue (some (.str jurisdiction)) "corpus jurisdiction filter"
    require (isSafeSegment jurisdiction)
      (.resolution ("Unsafe corpus jurisdiction filter: " ++ host.quote jurisdiction))
  match documentClass with
  | none => pure ()
  | some documentClass =>
    require (documentClasses.contains documentClass) (.resolution
      ("Unsupported corpus document class filter " ++ host.quote documentClass))

/-- The scopes that pass the filters. -/
def selectedScopes (jurisdiction documentClass : Option Text) : List ReleaseScope :=
  release.scopes.filter fun scope =>
    jurisdiction.all (scope.jurisdiction = ·) && documentClass.all (scope.documentClass = ·)

/-- `sorted(scopes_by_bucket)` -/
def scopeBuckets (scopes : List ReleaseScope) : List ScopeBucket :=
  (scopes.map ReleaseScope.bucket).dedup.insertionSort (· ≤ ·)

/-- `_read_corpus_artifacts`, under a budget that other reads have drawn on. -/
def readSharedArtifacts (budget : LocalCorpusReadBudget) (paths : List Text) :
    Except ResolveError (List ParsedCorpusArtifact) := do
  require (budget.fileCount + paths.length ≤ maxLocalCorpusFiles) (.resolution
    "Local corpus resolution exceeds the 4096-file safety limit")
  readWithinBudget host release paths budget.byteCount budget.rowCount

/-- One turn of the loop over the rows of a bucket. -/
def readActiveRow (activeScopes : List ReleaseScope) (bucket : ScopeBucket) (place : RowPlace)
    (record : Record) : Except ResolveError (List ActiveEntry) := do
  let at_ := place.text release
  let rowScope ← recordScope at_ record
  if rowScope ∉ activeScopes then pure []
  else do
    require (rowScope.bucket = bucket)
      (.resolution ("Active corpus row is stored in the wrong scope bucket: " ++ at_))
    let metadata ← releaseRowMetadata at_ record
    let rawCitationPath ← cleanStringValue (Json.get? record "citation_path")
      ("citation_path at " ++ at_)
    let citationPath ← normalizeCitationPath host rawCitationPath
    require (citationPath.text = rawCitationPath)
      (.resolution ("citation_path must be normalized at " ++ at_))
    require (pathInScope citationPath rowScope)
      (.resolution ("Active corpus citation does not match its scope at " ++ at_))
    let body ← recordBody at_ record
    pure [⟨rowIdentity host place citationPath rowScope metadata body, body, record⟩]

def readActiveArtifact (activeScopes : List ReleaseScope) (bucket : ScopeBucket)
    (artifact : ParsedCorpusArtifact) : Except ResolveError (List ActiveEntry) :=
  collect (fun row => readActiveRow host release activeScopes bucket (artifact.place row.1) row.2)
    artifact.rows

/-- The scan, bucket after bucket. -/
def readBuckets (scopes : List ReleaseScope) :
    List ScopeBucket → LocalCorpusReadBudget → Except ResolveError (List ActiveEntry)
  | [], _ => .ok []
  | bucket :: rest, budget => do
    let bucketScopes := scopes.filter fun scope => scope.bucket = bucket
    let files ← candidateProvisionFiles host release (ofLex bucket).1 (ofLex bucket).2
      bucketScopes
    let artifacts ← readSharedArtifacts host release budget files
    let here ← collect (readActiveArtifact host release bucketScopes bucket) artifacts
    let later ← readBuckets scopes rest (budget.charge artifacts)
    pure (here ++ later)

/-- The entries that claim a citation path. -/
def entriesAt (entries : List ActiveEntry) (text : Text) : List ActiveEntry :=
  entries.filter fun entry => entry.text = text

/-- The first citation path, in order, that two active rows share. -/
def ambiguousText (entries : List ActiveEntry) : Option Text :=
  ((entries.map ActiveEntry.text).dedup.insertionSort (· ≤ ·)).find? fun text =>
    1 < (entriesAt entries text).length

def metadataOf (record : Record) : Record :=
  match Json.get? record "metadata" with
  | some (.obj metadata) => metadata
  | _ => []

/-- The row an entry is given out as, when it has a body. -/
def activeBodyRow (entry : ActiveEntry) : Option ActiveCorpusBodyRow :=
  entry.body.map fun body =>
    { row := entry.row
      body
      heading := optionalString (Json.get? entry.record "heading")
      citationLabel := optionalString (Json.get? entry.record "citation_label")
      metadata := metadataOf entry.record
      releaseName := release.name
      releaseContentSha256 := release.contentSha256
      releaseSelectorSha256 := release.selectorSha256 }

/-- The sort key of a given-out row. -/
def ActiveCorpusBodyRow.key (row : ActiveCorpusBodyRow) : Lex (Text × Lex (Text × Nat)) :=
  toLex (row.row.citationPath.text, toLex (row.row.provisionFile, row.row.lineNumber))

/-- `iter_active_local_corpus_rows` -/
def iterActiveLocalCorpusRows (jurisdiction documentClass : Option Text) :
    Except ResolveError (List ActiveCorpusBodyRow) := do
  checkFilters host jurisdiction documentClass
  let scopes := selectedScopes release jurisdiction documentClass
  let entries ← readBuckets host release scopes (scopeBuckets scopes) {}
  refuse (ambiguousText entries) fun text =>
    .ambiguousSource text ((entriesAt entries text).map ActiveEntry.row)
  pure ((entries.filterMap (activeBodyRow release)).insertionSort fun a b => a.key ≤ b.key)

end Iterate

end AxiomEncode.Corpus
