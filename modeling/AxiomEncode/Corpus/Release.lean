/-
# Corpus.Release -- the provision files of a verified release

A `LocalCorpusRelease` is one checkout bound to one verified release object; its
fields state what verification has checked of scopes and artifacts.  The
resolver reads the provision file of every scope of one jurisdiction and
document class, each against its digest and size, under the limits of
`readCorpusArtifacts`.
-/
import AxiomEncode.Corpus.Identifier

namespace AxiomEncode.Corpus

open Theory

set_option autoImplicit false

def maxCorpusProvisionBytes : Nat := 64 * 1024 * 1024
def maxLocalCorpusAggregateBytes : Nat := 512 * 1024 * 1024
def maxLocalCorpusFiles : Nat := 4096
def maxLocalCorpusRows : Nat := 1000000

inductive ArtifactClass where
  | inventory
  | provisions
  | coverage
  | sources
  deriving DecidableEq

/-- One local artifact authorized by a verified release object. -/
structure VerifiedReleaseArtifact where
  artifactClass : ArtifactClass
  path : Text
  sha256 : String
  byteCount : Nat

/-- `_SCOPE_COMPONENT_RE`: `^[a-z0-9][a-z0-9._-]{0,255}$`. -/
def isScopeComponent (text : Text) : Bool :=
  match text with
  | [] => false
  | c :: rest =>
    (isAsciiLower c || isAsciiDigit c) && rest.length ≤ 255 &&
      rest.all fun d => isAsciiLower d || isAsciiDigit d || "._-".toList.contains d

/-- The path `_validate_scope_artifact_membership` requires of a scope. -/
def ReleaseScope.provisionsPath (scope : ReleaseScope) : Text :=
  List.intercalate ['/'] ["data".toList, "corpus".toList, "provisions".toList,
    scope.jurisdiction, scope.documentClass, scope.version ++ ".jsonl".toList]

structure LocalCorpusRelease where
  root : Text
  name : Text
  contentSha256 : String
  selectorSha256 : String
  scopes : List ReleaseScope
  artifacts : List VerifiedReleaseArtifact
  /-- `_validate_scopes` -/
  scopeComponents : ∀ scope ∈ scopes, isScopeComponent scope.jurisdiction = true ∧
    isScopeComponent scope.documentClass = true ∧ isScopeComponent scope.version = true
  scopesDistinct : scopes.Nodup
  /-- `_validate_artifacts` -/
  pathsDistinct : (artifacts.map VerifiedReleaseArtifact.path).Nodup
  /-- `_validate_scope_artifact_membership`, for the provision files. -/
  claimed : ∀ artifact ∈ artifacts, artifact.artifactClass = .provisions →
    ∃ scope ∈ scopes, artifact.path = scope.provisionsPath
  provided : ∀ scope ∈ scopes, ∃ artifact ∈ artifacts,
    artifact.artifactClass = .provisions ∧ artifact.path = scope.provisionsPath

/-- A JSON object. -/
abbrev Record := List (Text × Json)

/-- One immutable read of a JSONL artifact and its parsed rows.  The path is
kept relative to the release root. -/
structure ParsedCorpusArtifact where
  path : Text
  sha256 : String
  byteSize : Nat
  rows : List (Nat × Record)

section Read

variable (host : Host) (release : LocalCorpusRelease)

/-- `f"{release.root / path}"` -/
def absolutePath (path : Text) : String :=
  String.ofList release.root ++ "/" ++ String.ofList path

/-- `f"{path}:{line_number}"` -/
def location (path : Text) (lineNumber : Nat) : String :=
  absolutePath release path ++ ":" ++ toString lineNumber

/-- The bytes of a contained regular file within the size limit, or `none`. -/
def safeFile (path : Text) : Except ResolveError (Option (List UInt8)) :=
  match host.lookupFile path with
  | .missing => .ok none
  | .refused detail => .error (.indirectPath detail)
  | .regular raw =>
    if maxCorpusProvisionBytes < raw.length then
      .error (.indirectPath ("corpus provision file exceeds the 67108864-byte safety limit: " ++
        absolutePath release path))
    else .ok (some raw)

/-- `read_bounded_regular_file` -/
def readBoundedRegularFile (path : Text) : Except ResolveError (List UInt8) := do
  match ← safeFile host release path with
  | some raw => pure raw
  | none => .error (.indirectPath ("Could not safely open corpus provision file: " ++
      absolutePath release path))

/-- The scopes of one jurisdiction and document class. -/
def scopesOf (jurisdiction documentClass : Text) : List ReleaseScope :=
  release.scopes.filter fun scope =>
    scope.jurisdiction = jurisdiction && scope.documentClass = documentClass

def isCandidateArtifact (versions : List Text) (jurisdiction documentClass : Text)
    (artifact : VerifiedReleaseArtifact) : Bool :=
  artifact.artifactClass = .provisions &&
    match List.splitOn '/' artifact.path with
    | [data, corpus, provisions, first, second, file] =>
      data = "data".toList && corpus = "corpus".toList && provisions = "provisions".toList &&
        first = jurisdiction && second = documentClass &&
        ".jsonl".toList.isSuffixOf file && versions.contains (file.take (file.length - 6))
    | _ => false

/-- `_candidate_provision_files` -/
def candidateProvisionFiles (jurisdiction documentClass : Text) (scopes : List ReleaseScope) :
    Except ResolveError (List Text) :=
  if scopes.isEmpty then .ok []
  else do
    let versions := scopes.map ReleaseScope.version
    let artifacts := release.artifacts.filter
      (isCandidateArtifact versions jurisdiction documentClass)
    let candidates ← artifacts.mapM fun artifact => do
      match ← safeFile host release artifact.path with
      | some _ => pure artifact.path
      | none => .error (.resolution ("Verified corpus release artifact is missing: " ++
          String.ofList artifact.path))
    require (candidates.length = scopes.length)
      (.resolution ("Verified corpus release does not provide exactly one provisions " ++
        "artifact per requested scope: " ++ String.ofList jurisdiction ++ "/" ++
        String.ofList documentClass))
    pure candidates

/-- The rows of the lines from `lineNumber` on, blank lines left out. -/
def parseRows (path : Text) : List Text → (lineNumber rowCount : Nat) →
    Except ResolveError (List (Nat × Record))
  | [], _, _ => .ok []
  | line :: rest, lineNumber, rowCount =>
    if (strip line).isEmpty then parseRows path rest (lineNumber + 1) rowCount
    else
      match host.loads line with
      | none => .error (.resolution ("Invalid JSON in corpus artifact " ++
          location release path lineNumber))
      | some (.obj record) =>
        if maxLocalCorpusRows < rowCount + 1 then
          .error (.resolution ("Corpus artifact exceeds the 1000000-row safety limit: " ++
            absolutePath release path))
        else do
          let rows ← parseRows path rest (lineNumber + 1) (rowCount + 1)
          pure ((lineNumber, record) :: rows)
      | some _ => .error (.resolution ("Corpus row must be an object: " ++
          location release path lineNumber))

/-- Read, hash, decode and parse an artifact from one byte snapshot. -/
def readCorpusArtifact (path : Text) : Except ResolveError ParsedCorpusArtifact := do
  let raw ← readBoundedRegularFile host release path
  let fileSha256 := host.sha256 raw
  match release.artifacts.find? fun artifact => artifact.path = path with
  | none => .error (.resolution
      ("Corpus provision is outside the verified release inventory: " ++ String.ofList path))
  | some expected => do
    require (expected.artifactClass = .provisions) (.resolution
      ("Corpus provision is outside the verified release inventory: " ++ String.ofList path))
    require (expected.sha256 = fileSha256 && expected.byteCount = raw.length) (.resolution
      ("Corpus provision bytes do not match the verified release: " ++ String.ofList path))
    match host.decodeUtf8 raw with
    | none => .error (.resolution ("Corpus artifact is not valid UTF-8: " ++
        absolutePath release path))
    | some text => do
      let rows ← parseRows host release path (splitlines text) 1 0
      pure { path, sha256 := fileSha256, byteSize := raw.length, rows }

/-- The artifacts, under the aggregate limits of the budget. -/
def readWithinBudget : List Text → (byteCount rowCount : Nat) →
    Except ResolveError (List ParsedCorpusArtifact)
  | [], _, _ => .ok []
  | path :: rest, byteCount, rowCount => do
    let artifact ← readCorpusArtifact host release path
    let byteCount := byteCount + artifact.byteSize
    let rowCount := rowCount + artifact.rows.length
    require (byteCount ≤ maxLocalCorpusAggregateBytes) (.resolution
      "Local corpus resolution exceeds the 536870912-byte aggregate safety limit")
    require (rowCount ≤ maxLocalCorpusRows) (.resolution
      "Local corpus resolution exceeds the 1000000-row aggregate safety limit")
    let artifacts ← readWithinBudget rest byteCount rowCount
    pure (artifact :: artifacts)

/-- `_read_corpus_artifacts`, with a budget of its own. -/
def readCorpusArtifacts (paths : List Text) : Except ResolveError (List ParsedCorpusArtifact) := do
  require (paths.length ≤ maxLocalCorpusFiles) (.resolution
    "Local corpus resolution exceeds the 4096-file safety limit")
  readWithinBudget host release paths 0 0

/-- The artifacts a resolution in one jurisdiction and document class reads. -/
def readClassArtifacts (jurisdiction documentClass : Text) :
    Except ResolveError (List ParsedCorpusArtifact) := do
  let scopes := scopesOf release jurisdiction documentClass
  let files ← candidateProvisionFiles host release jurisdiction documentClass scopes
  readCorpusArtifacts host release files

end Read

end AxiomEncode.Corpus
