/-
# Corpus.Resolve -- one active provision row, or a refusal

`resolveLocalCorpusSource` looks a citation path up among the rows of its class,
then each of its lookup parents, longest first.  The first path that an active
row claims decides: two claims are ambiguous, a repealed claim is refused, a
bodyless one is composed from its descendants, and a parent's text is sliced.

The slicer `sliceParentBody text requested resolved` is a parameter: resolution
decides which row and which text are handed to it, and returns what it returns.
-/
import AxiomEncode.Corpus.Rows
import AxiomEncode.Corpus.Compose

namespace AxiomEncode.Corpus

open Theory

set_option autoImplicit false

def maxCorpusDescendantRows : Nat := 10000

/-- `_slice_parent_body` -/
abbrev Slicer := Text → CitationPath → CitationPath → Except ResolveError Text

/-- Exact source text plus the release, artifact and row that supplied it. -/
structure ResolvedCorpusSource where
  requested : Text
  citationPath : CitationPath
  body : Text
  storedBodySha256 : String
  resolvedTextSha256 : String
  provisionFile : Text
  provisionFileSha256 : String
  row : CorpusRowIdentity
  componentRows : List CorpusRowIdentity
  releaseName : Text
  releaseContentSha256 : String
  releaseSelectorSha256 : String
  sourceHistory : List Text
  sliceRequired : Bool
  deriving DecidableEq

structure LookupCandidate where
  citationPath : CitationPath
  requestedPath : CitationPath
  sliceRequired : Bool

/-! ## The lookup parents of a path -/

def parentClasses : List Text := ["statute", "regulation", "legislation"].map String.toList

/-- `_parent_citation_paths`: the shorter prefixes of three segments or more. -/
def parentCitationPaths (citationPath : CitationPath) : List CitationPath :=
  if citationPath.length < 4 ∨
      ¬ parentClasses.contains ((citationPath.map Subtype.val).getD 1 []) then []
  else (List.range (citationPath.length - 3)).map fun step =>
    citationPath.take (citationPath.length - 1 - step)

/-- The groups after the first: one parent each, none seen before. -/
def parentCandidates (requested : CitationPath) :
    List CitationPath → (seen : List CitationPath) → List LookupCandidate
  | [], _ => []
  | parent :: rest, seen =>
    if parent ∈ seen then parentCandidates requested rest seen
    else ⟨parent, requested, true⟩ :: parentCandidates requested rest (parent :: seen)

/-- `_citation_lookup_groups`.  One path is requested, so every group holds one
candidate, and a group is that candidate here. -/
def citationLookupGroups (citationPath : CitationPath) : List LookupCandidate :=
  ⟨citationPath, citationPath, false⟩ ::
    parentCandidates citationPath (parentCitationPaths citationPath) [citationPath]

section Resolve

variable (host : Host) (release : LocalCorpusRelease) (sliceParentBody : Slicer)

/-- The descendants over the artifacts, under the row limit after each. -/
def readDescendants (citationPath : CitationPath) (activeScopes : List ReleaseScope) :
    List ParsedCorpusArtifact → (descendants : List StoredRecord) →
    Except ResolveError (List StoredRecord)
  | [], descendants => .ok descendants
  | artifact :: rest, descendants => do
    let found ← readDescendantRecords host release citationPath activeScopes artifact
    let descendants := descendants ++ found
    require (descendants.length ≤ maxCorpusDescendantRows) (.descendantStructure
      ("Local descendants for " ++ quoted citationPath.text ++
        " exceed the 10000-row safety limit"))
    readDescendants citationPath activeScopes rest descendants

/-- The stored text of a selected record: its body, or the composition of its
active descendants. -/
def storedBody (artifacts : List ParsedCorpusArtifact) (activeScopes : List ReleaseScope)
    (selected : StoredRecord) : Except ResolveError (Text × List CorpusRowIdentity) :=
  match selected.body with
  | some body => .ok (body, [])
  | none => do
    let descendants ← readDescendants host release selected.path activeScopes artifacts []
    composeDescendantText selected.path descendants selected.row.scope

/-- `_resolved_source` -/
def resolvedSource (requested : Text) (body storedBody : Text) (selected : StoredRecord)
    (componentRows : List CorpusRowIdentity) (sliceRequired : Bool) : ResolvedCorpusSource where
  requested
  citationPath := selected.path
  body
  storedBodySha256 := host.sha256Text storedBody
  resolvedTextSha256 := host.sha256Text body
  provisionFile := selected.row.provisionFile
  provisionFileSha256 := selected.fileSha256
  row := selected.row
  componentRows
  releaseName := release.name
  releaseContentSha256 := release.contentSha256
  releaseSelectorSha256 := release.selectorSha256
  sourceHistory := if sliceRequired then [] else selected.sourceHistory
  sliceRequired

/-- The stored text, sliced when it is a parent's. -/
def candidateBody (candidate : LookupCandidate) (stored : Text) : Except ResolveError Text :=
  if candidate.sliceRequired then
    sliceParentBody stored candidate.requestedPath candidate.citationPath
  else .ok stored

/-- The one record that claims a candidate path. -/
def resolveSelected (identifier : Text) (artifacts : List ParsedCorpusArtifact)
    (activeScopes : List ReleaseScope) (candidate : LookupCandidate) (selected : StoredRecord) :
    Except ResolveError ResolvedCorpusSource := do
  require (!selected.repealed) (.invalidActiveSource
    ("Active corpus source " ++ quoted selected.path.text ++ " is repealed"))
  let (stored, componentRows) ← storedBody host release artifacts activeScopes selected
  let body ← candidateBody sliceParentBody candidate stored
  pure (resolvedSource host release identifier body stored selected componentRows
    candidate.sliceRequired)

/-- Some row claims the path, in whatever scope. -/
def anyRowClaims (artifacts : List ParsedCorpusArtifact) (path : CitationPath) : Bool :=
  artifacts.any fun artifact => artifact.rows.any fun row =>
    (Json.get? row.2 "citation_path").bind Json.text? = some path.text

/-- `if len(records) > 1: raise`, and otherwise `records[0]`. -/
def selectUnique {α : Type} (citationPath : CitationPath) (records : List StoredRecord)
    (use : StoredRecord → Except ResolveError α) : Except ResolveError α :=
  match records with
  | [selected] => use selected
  | _ => .error (.ambiguousSource citationPath.text (records.map StoredRecord.row))

/-- The lookup, candidate after candidate. -/
def resolveCandidates (identifier : Text) (citationPath : CitationPath)
    (artifacts : List ParsedCorpusArtifact) (activeScopes : List ReleaseScope) :
    List LookupCandidate → (inactiveMatch : Bool) → Except ResolveError ResolvedCorpusSource
  | [], true => .error (.inactiveSource
      ("Corpus source exists but is inactive for " ++ quoted citationPath.text))
  | [], false => .error (.sourceNotFound
      ("No active corpus source found for " ++ quoted citationPath.text))
  | candidate :: rest, inactiveMatch => do
    let records ← collect
      (readMatchingRecords host release candidate.citationPath activeScopes) artifacts
    if records.isEmpty then
      resolveCandidates identifier citationPath artifacts activeScopes rest
        (inactiveMatch || anyRowClaims artifacts candidate.citationPath)
    else
      selectUnique citationPath records fun selected =>
        resolveSelected host release sliceParentBody identifier artifacts activeScopes
          candidate selected

/-- The active scopes of the path's jurisdiction and document class. -/
def activeScopesOf (citationPath : CitationPath) : List ReleaseScope :=
  let parts := citationPath.map Subtype.val
  scopesOf release (parts.getD 0 []) (parts.getD 1 [])

/-- Resolution over the artifacts that were read. -/
def resolveAmong (identifier : Text) (citationPath : CitationPath)
    (artifacts : List ParsedCorpusArtifact) (exactOnly : Bool) :
    Except ResolveError ResolvedCorpusSource :=
  let groups := citationLookupGroups citationPath
  resolveCandidates host release sliceParentBody identifier citationPath artifacts
    (activeScopesOf release citationPath) (if exactOnly then groups.take 1 else groups) false

/-- `resolve_local_corpus_source` -/
def resolveLocalCorpusSource (identifier : Text) (exactOnly : Bool := false) :
    Except ResolveError ResolvedCorpusSource := do
  let citationPath ← normalizeCitationPath host identifier
  let parts := citationPath.map Subtype.val
  let artifacts ← readClassArtifacts host release (parts.getD 0 []) (parts.getD 1 [])
  resolveAmong host release sliceParentBody identifier citationPath artifacts exactOnly

end Resolve

end AxiomEncode.Corpus
