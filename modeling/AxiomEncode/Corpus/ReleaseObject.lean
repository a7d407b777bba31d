/-
# Corpus.ReleaseObject -- the checks of an unsigned release object

`validateUnsignedReleaseObject` reads a decoded release object: its envelope, its
scopes, its artifacts, which artifact belongs to which scope, and the evidence of its
validation.  The messages are the messages of the source.
-/
import AxiomEncode.Corpus.Release
import AxiomEncode.Theory.JsonCanonical

namespace AxiomEncode.Corpus

open Theory

set_option autoImplicit false

def releaseObjectSchemaV2 : Text := "axiom-corpus/release-object/v2".toList
def releaseObjectSchemaVersion : Text := "axiom-corpus/release-object/v3".toList
def completeExpressionDatesProfile : Text := "complete-expression-dates-v1".toList

/-- `_DOCUMENT_CLASSES` of the release object. -/
def releaseDocumentClasses : List Text :=
  ["district-plan", "statute", "regulation", "guidance", "policy", "manual", "form",
    "rulemaking", "other"].map String.toList

structure VerifiedReleaseScope extends ReleaseScope where
  provisionRows : Int
  provisionProjectionSha256 : Text
  navigationProjectionSha256 : Text

/-- An artifact of the inventory, with the rows of a provisions artifact. -/
structure InventoryArtifact extends VerifiedReleaseArtifact where
  rowCount : Option Int

structure VerifiedCorpusReleaseObject where
  name : Text
  contentSha256 : Text
  selectorSha256 : Text
  scopes : List VerifiedReleaseScope
  artifacts : List InventoryArtifact

/-! ## Reading values -/

/-- `isinstance(raw, dict) and set(raw) == {…}`: the members. -/
def exactObject (raw : Option Json) (fields : List String) : Option Record :=
  match raw with
  | some (.obj members) =>
    if members.length == fields.length && fields.all fun field => (Json.get? members field).isSome
    then some members else none
  | _ => none

/-- The member is this text. -/
def isText (raw : Option Json) (expected : Text) : Bool :=
  match raw with
  | some (.str text) => text == expected
  | _ => false

/-- The member is a text, and not an empty one. -/
def isNonemptyText (raw : Option Json) : Bool :=
  match raw with
  | some (.str text) => !text.isEmpty
  | _ => false

/-- The member is an integer, no boolean, that passes a check. -/
def isInteger (raw : Option Json) (check : Int → Bool) : Bool :=
  match raw with
  | some (.int value) => check value
  | _ => false

/-- `_SHA256_RE` and the commit: lower hexadecimal digits of one length. -/
def isHexText (digits : Nat) (text : Text) : Bool :=
  text.length == digits && text.all fun c => isAsciiDigit c || ('a' ≤ c && c ≤ 'f')

def isSha256 (raw : Option Json) : Bool :=
  match raw with
  | some (.str text) => isHexText 64 text
  | _ => false

/-- `_RELEASE_NAME_RE`: `^[a-z0-9]+(?:-[a-z0-9]+)*$`. -/
def isReleaseName (text : Text) : Bool :=
  (text.splitOn '-').all fun part =>
    !part.isEmpty && part.all fun c => isAsciiLower c || isAsciiDigit c

section

variable (host : Host)

/-- `str(raw.get(field) or "")` -/
def textOrEmpty (raw : Option Json) : Text :=
  match raw with
  | none | some .null | some (.bool false) | some (.int 0) => []
  | some (.str text) => text
  | some (.arr []) | some (.obj []) => []
  | some (.float text) =>
    if text = "0.0".toList ∨ text = "-0.0".toList then [] else (host.repr (.float text)).toList
  | some value => (host.repr value).toList

/-- `_canonical_json_bytes` -/
def canonicalJsonBytes (value : Json) : List UInt8 := utf8 (Json.compact (Json.sortKeys value))

def canonicalSha256 (value : Json) : Text := (host.sha256 (canonicalJsonBytes value)).toList

/-- `_validate_release_name` -/
def validateReleaseName (raw : Option Json) : Except String Text := do
  match raw with
  | some (.str text) => do
    require (text.length ≤ 128 && isReleaseName text) "release object has an invalid release name"
    require (text ≠ "current".toList) "legacy mutable release name 'current' is forbidden"
    pure text
  | _ => .error "release object has an invalid release name"

/-! ## Scopes -/

/-- The three parts that name a scope, as texts. -/
def scopeIdentity (members : Record) : ReleaseScope :=
  { jurisdiction := textOrEmpty host (Json.get? members "jurisdiction")
    documentClass := textOrEmpty host (Json.get? members "document_class")
    version := textOrEmpty host (Json.get? members "version") }

def ReleaseScope.isComponents (scope : ReleaseScope) : Bool :=
  isScopeComponent scope.jurisdiction && isScopeComponent scope.documentClass &&
    isScopeComponent scope.version

def validateScope (seen : List ReleaseScope) (raw : Json) : Except String VerifiedReleaseScope := do
  match exactObject (some raw) ["jurisdiction", "document_class", "version", "provision_rows",
      "navigation_rows", "provision_projection_sha256", "navigation_projection_sha256"] with
  | none => .error "release object scope does not match the v2 schema"
  | some members => do
    let identity := scopeIdentity host members
    require (identity.isComponents && releaseDocumentClasses.contains identity.documentClass &&
      !seen.contains identity) "release object contains an invalid or duplicate scope"
    match Json.get? members "provision_rows" with
    | some (.int rows) => do
      require (0 < rows && isInteger (Json.get? members "navigation_rows") (· == rows))
        "release object scope has inconsistent row counts"
      match Json.get? members "provision_projection_sha256",
          Json.get? members "navigation_projection_sha256" with
      | some (.str provision), some (.str navigation) => do
        require (isHexText 64 provision && isHexText 64 navigation)
          "release object scope has invalid projection sha256 evidence"
        pure { identity with
          provisionRows := rows
          provisionProjectionSha256 := provision
          navigationProjectionSha256 := navigation }
      | _, _ => .error "release object scope has invalid projection sha256 evidence"
    | _ => .error "release object scope has inconsistent row counts"

/-- `_validate_scopes` -/
def validateScopes : List ReleaseScope → List Json → Except String (List VerifiedReleaseScope)
  | _, [] => .ok []
  | seen, raw :: rest => do
    let scope ← validateScope host seen raw
    let scopes ← validateScopes (scope.toReleaseScope :: seen) rest
    pure (scope :: scopes)

/-! ## Artifacts -/

/-- `_ARTIFACT_CLASSES` -/
def ArtifactClass.name : ArtifactClass → Text
  | .inventory => "inventory".toList
  | .provisions => "provisions".toList
  | .coverage => "coverage".toList
  | .sources => "sources".toList

def ArtifactClass.ofName (raw : Option Json) : Option ArtifactClass :=
  [ArtifactClass.inventory, .provisions, .coverage, .sources].find? fun artifactClass =>
    isText raw artifactClass.name

/-- `PathLikeParts(path).unsafe` -/
def isUnsafePath (path : Text) : Bool :=
  path.head? == some '/' || path.contains '\\' ||
    (path.splitOn '/').any fun part => ["".toList, ".".toList, "..".toList].contains part

def contentKey (digest : Text) : Text :=
  "objects/sha256/".toList ++ digest.take 2 ++ '/' :: digest

def validateArtifact (bucket : Text) (seen : List Text) (raw : Json) :
    Except String InventoryArtifact := do
  match raw with
  | .obj members => do
    let required := ["artifact_class", "path", "sha256", "bytes", "r2_bucket", "r2_key"]
    let named := Json.get? members "artifact_class"
    let expected := if isText named "provisions".toList then required ++ ["rows"] else required
    require (exactObject (some raw) expected).isSome "release artifact does not match the v2 schema"
    match ArtifactClass.ofName named with
    | none => .error "release artifact has an unsupported class"
    | some artifactClass =>
      match Json.get? members "path" with
      | some (.str path) => do
        require (("data/corpus/".toList ++ artifactClass.name ++ ['/']).isPrefixOf path &&
          !isUnsafePath path && !seen.contains path)
          "release artifact path is non-canonical or duplicated"
        match Json.get? members "sha256" with
        | some (.str digest) => do
          require (isHexText 64 digest)
            ("release artifact has invalid sha256: " ++ String.ofList path)
          require (isText (Json.get? members "r2_key") (contentKey digest))
            ("release artifact has a non-content-addressed R2 key: " ++ String.ofList path)
          require (isText (Json.get? members "r2_bucket") bucket)
            ("release artifact uses the wrong R2 bucket: " ++ String.ofList path)
          match Json.get? members "bytes" with
          | some (.int byteCount) => do
            require (0 ≤ byteCount)
              ("release artifact has invalid byte count: " ++ String.ofList path)
            let rows := Json.get? members "rows"
            require (artifactClass ≠ .provisions || isInteger rows (0 < ·))
              ("release provisions artifact has an invalid row count: " ++
                String.ofList path)
            pure
              { artifactClass, path, sha256 := String.ofList digest
                byteCount := byteCount.toNat
                rowCount := match rows with
                  | some (.int count) => some count
                  | _ => none }
          | _ => .error ("release artifact has invalid byte count: " ++ String.ofList path)
        | _ => .error ("release artifact has invalid sha256: " ++ String.ofList path)
      | _ => .error "release artifact path is non-canonical or duplicated"
  | _ => .error "release object contains a non-object artifact"

def validateArtifactList (bucket : Text) : List Text → List Json →
    Except String (List InventoryArtifact)
  | _, [] => .ok []
  | seen, raw :: rest => do
    let artifact ← validateArtifact bucket seen raw
    let artifacts ← validateArtifactList bucket (artifact.path :: seen) rest
    pure (artifact :: artifacts)

/-- `_validate_artifacts` -/
def validateArtifacts (bucket : Text) (raw : List Json) : Except String (List InventoryArtifact) := do
  let artifacts ← validateArtifactList bucket [] raw
  let paths := artifacts.map fun artifact => artifact.path
  require (paths == paths.insertionSort (· ≤ ·))
    "release artifacts are not in canonical path order"
  pure artifacts

/-! ## Which artifact belongs to which scope -/

/-- `f"{scope.jurisdiction}/{scope.document_class}/{scope.version}"` -/
def ReleaseScope.key (scope : ReleaseScope) : Text :=
  List.intercalate ['/'] [scope.jurisdiction, scope.documentClass, scope.version]

/-- The three required paths of a scope. -/
def ReleaseScope.requiredPath (scope : ReleaseScope) (artifactClass : ArtifactClass)
    (extension : String) : Text :=
  "data/corpus/".toList ++ artifactClass.name ++ '/' :: scope.key ++ extension.toList

def ReleaseScope.sourcePrefix (scope : ReleaseScope) : Text :=
  "data/corpus/sources/".toList ++ scope.key ++ ['/']

def requiredArtifacts : List (ArtifactClass × String) :=
  [(.inventory, ".json"), (.provisions, ".jsonl"), (.coverage, ".json")]

/-- The paths that one scope claims. -/
def claimedPaths (artifacts : List InventoryArtifact) (scope : VerifiedReleaseScope) :
    Except String (List Text) := do
  let required ← requiredArtifacts.mapM fun (artifactClass, extension) => do
    let path := scope.requiredPath artifactClass extension
    match artifacts.find? fun artifact => artifact.path == path with
    | none => Except.error ("release scope lacks its " ++ String.ofList artifactClass.name ++
        " artifact: " ++ String.ofList scope.key)
    | some artifact => do
      require (artifact.artifactClass = artifactClass) ("release scope lacks its " ++
        String.ofList artifactClass.name ++ " artifact: " ++ String.ofList scope.key)
      pure path
  let provisions := artifacts.find? fun artifact =>
    artifact.path == scope.requiredPath .provisions ".jsonl"
  require (provisions.bind InventoryArtifact.rowCount == some scope.provisionRows)
    ("release scope row count does not match its provisions artifact: " ++
      String.ofList scope.key)
  let sources := artifacts.filter fun artifact =>
    scope.sourcePrefix.isPrefixOf artifact.path && artifact.artifactClass = .sources
  require (!sources.isEmpty)
    ("release scope lacks source artifacts: " ++ String.ofList scope.key)
  pure (required ++ sources.map fun artifact => artifact.path)

/-- `_validate_scope_artifact_membership` -/
def validateScopeArtifactMembership (scopes : List VerifiedReleaseScope)
    (artifacts : List InventoryArtifact) : Except String Unit := do
  let claimed ← scopes.mapM (claimedPaths artifacts)
  require (artifacts.all fun artifact => claimed.flatten.contains artifact.path)
    "release object contains artifacts outside its declared scopes"

/-! ## The evidence of the validation -/

def validateDeepValidation (scopeCount : Nat) (raw : Option Json) : Except String Unit :=
  match exactObject raw ["error_count", "warning_count", "scope_count"] with
  | none => .error "release object deep-validation evidence is inconsistent"
  | some deep =>
    require (isInteger (Json.get? deep "error_count") (· == 0) &&
      isInteger (Json.get? deep "scope_count") (· == scopeCount) &&
      isInteger (Json.get? deep "warning_count") (0 ≤ ·))
      "release object deep-validation evidence is inconsistent"

def validateReadback (artifacts : List InventoryArtifact) (bucket : Text) (raw : Option Json) :
    Except String Unit :=
  match exactObject raw ["bucket", "artifact_count", "artifact_bytes", "verified_keys"] with
  | none => .error "release object R2 readback evidence is inconsistent"
  | some readback =>
    let keys := match Json.get? readback "verified_keys" with
      | some (.arr items) => items.mapM Json.text?
      | _ => none
    require (isText (Json.get? readback "bucket") bucket &&
      isInteger (Json.get? readback "artifact_count") (· == artifacts.length) &&
      isInteger (Json.get? readback "artifact_bytes")
        (· == (artifacts.map fun artifact => artifact.byteCount).sum) &&
      keys == some (artifacts.map fun artifact => contentKey artifact.sha256.toList))
      "release object R2 readback evidence is inconsistent"

def validateStagedCount (scopes : List VerifiedReleaseScope) (seen : List ReleaseScope)
    (raw : Json) : Except String ReleaseScope :=
  match exactObject (some raw) ["jurisdiction", "document_class", "version", "expected", "actual",
      "expected_navigation", "actual_navigation", "expected_provision_projection_sha256",
      "actual_provision_projection_sha256", "expected_navigation_projection_sha256",
      "actual_navigation_projection_sha256"] with
  | none => .error "release staged-count evidence does not match the v2 schema"
  | some item =>
    let identity := scopeIdentity host item
    match scopes.find? fun scope => scope.toReleaseScope == identity with
    | none => .error "release object has invalid staged-count identity"
    | some scope => do
      require (!seen.contains identity) "release object has invalid staged-count identity"
      require (["expected", "actual", "expected_navigation", "actual_navigation"].all
          fun field => isInteger (Json.get? item field) (· == scope.provisionRows))
        "release object staged-count evidence does not match its scope"
      let digests := [
        ("expected_provision_projection_sha256", scope.provisionProjectionSha256),
        ("actual_provision_projection_sha256", scope.provisionProjectionSha256),
        ("expected_navigation_projection_sha256", scope.navigationProjectionSha256),
        ("actual_navigation_projection_sha256", scope.navigationProjectionSha256)]
      require (digests.all fun (field, digest) =>
          isSha256 (Json.get? item field) && isText (Json.get? item field) digest)
        "release object staged projection evidence does not match its scope"
      pure identity

def validateStagedCounts (scopes : List VerifiedReleaseScope) :
    List ReleaseScope → List Json → Except String Unit
  | _, [] => .ok ()
  | seen, raw :: rest => do
    let identity ← validateStagedCount host scopes seen raw
    validateStagedCounts scopes (identity :: seen) rest

/-- `_validate_validation_attestation` -/
def validateValidationAttestation (scopes : List VerifiedReleaseScope)
    (artifacts : List InventoryArtifact) (bucket : Text) (qualityProfile : Option Text)
    (raw : Option Json) : Except String Unit := do
  let fields := ["passed", "deep_validation", "r2_readback", "supabase_projection_evidence"]
  match exactObject raw (if qualityProfile.isSome then fields ++ ["quality_profile"] else fields) with
  | none => .error "release validation does not match its object schema"
  | some attestation => do
    require (match Json.get? attestation "passed" with
      | some (.bool true) => true
      | _ => false) "release validation does not match its object schema"
    require (qualityProfile.all fun profile => isText (Json.get? attestation "quality_profile") profile)
      "release validation quality profile is inconsistent"
    validateDeepValidation scopes.length (Json.get? attestation "deep_validation")
    validateReadback artifacts bucket (Json.get? attestation "r2_readback")
    match Json.get? attestation "supabase_projection_evidence" with
    | some (.arr counts) => do
      require (counts.length = scopes.length)
        "release object staged-count evidence is incomplete"
      validateStagedCounts host scopes [] counts
    | _ => .error "release object staged-count evidence is incomplete"

/-! ## The release object -/

def selectorPayload (release : Text) (scopes : List VerifiedReleaseScope)
    (qualityProfile : Option Text) : Json :=
  .obj ([("name".toList, .str release),
    ("scopes".toList, .arr (scopes.map fun scope =>
      .obj [("jurisdiction".toList, .str scope.jurisdiction),
        ("document_class".toList, .str scope.documentClass),
        ("version".toList, .str scope.version)]))] ++
    (qualityProfile.map fun profile => ("quality_profile".toList, Json.str profile)).toList)

def validateGit (raw : Option Json) : Except String Unit :=
  match exactObject raw ["commit", "committed_at"] with
  | none => .error "release object has invalid git provenance"
  | some git =>
    let commit := match Json.get? git "commit" with
      | some (.str text) => isHexText 40 text
      | _ => false
    require (commit && isNonemptyText (Json.get? git "committed_at"))
      "release object has invalid git provenance"

/-- The bucket of the content boundary. -/
def validateR2 (raw : Option Json) : Except String Text :=
  match exactObject raw ["bucket", "addressing"] with
  | none => .error "release object has an invalid R2 content boundary"
  | some r2 =>
    match Json.get? r2 "bucket" with
    | some (.str bucket) => do
      require (!bucket.isEmpty && isText (Json.get? r2 "addressing") "sha256".toList)
        "release object has an invalid R2 content boundary"
      pure bucket
    | _ => .error "release object has an invalid R2 content boundary"

def nonemptyArray (raw : Option Json) (error : String) : Except String (List Json) :=
  match raw with
  | some (.arr (item :: items)) => .ok (item :: items)
  | _ => .error error

/-- The scopes, artifacts and selector digest of a content whose envelope has passed. -/
def validateContent (release : Text) (contentSha256 : Text) (qualityProfile : Option Text)
    (content : Record) (bucket : Text) : Except String VerifiedCorpusReleaseObject := do
  let rawScopes ← nonemptyArray (Json.get? content "scopes")
    "release object must contain at least one scope"
  let rawArtifacts ← nonemptyArray (Json.get? content "artifacts")
    "release object must contain artifact entries"
  let scopes ← validateScopes host [] rawScopes
  let selectorSha256 := canonicalSha256 host (selectorPayload release scopes qualityProfile)
  require (isSha256 (Json.get? content "selector_sha256") &&
    isText (Json.get? content "selector_sha256") selectorSha256)
    "release selector sha256 does not match its scopes"
  let artifacts ← validateArtifacts bucket rawArtifacts
  validateScopeArtifactMembership scopes artifacts
  validateValidationAttestation host scopes artifacts bucket qualityProfile
    (Json.get? content "validation")
  pure { name := release, contentSha256, selectorSha256, scopes, artifacts }

/-- `_validate_unsigned_release_object` -/
def validateUnsignedReleaseObject (payload : Record) :
    Except String VerifiedCorpusReleaseObject := do
  require (payload.all fun member => ["schema_version", "release", "content_sha256", "content",
      "signature"].any fun field => member.1 == field.toList)
    "release object has unsupported top-level fields"
  let schemaVersion := Json.get? payload "schema_version"
  let current := isText schemaVersion releaseObjectSchemaVersion
  require (isText schemaVersion releaseObjectSchemaV2 || current)
    "release object uses an unsupported schema version"
  let release ← validateReleaseName (Json.get? payload "release")
  let fields := ["release", "created_at", "selector_sha256", "corpus_base", "git", "r2", "scopes",
    "artifacts", "validation"]
  match exactObject (Json.get? payload "content")
      (if current then fields ++ ["quality_profile"] else fields) with
  | none => .error ("release object content does not match the " ++
      String.ofList (textOrEmpty host schemaVersion) ++ " schema")
  | some content => do
    require (!current || isText (Json.get? content "quality_profile")
      completeExpressionDatesProfile) "release object has an unsupported quality profile"
    require (isText (Json.get? content "release") release)
      "release object name does not match its content"
    require (isNonemptyText (Json.get? content "created_at"))
      "release object has an invalid creation time"
    validateGit (Json.get? content "git")
    let contentSha256 := canonicalSha256 host (.obj content)
    require (isText (Json.get? payload "content_sha256") contentSha256)
      "release object content sha256 does not match"
    require (isText (Json.get? content "corpus_base") "data/corpus".toList)
      "release object uses a non-canonical corpus base"
    let bucket ← validateR2 (Json.get? content "r2")
    validateContent host release contentSha256
      (if current then some completeExpressionDatesProfile else none) content bucket

end

end AxiomEncode.Corpus
