/-
# Corpus.ReleaseObjectSpec -- what an accepted release object provides

Acceptance partitions the artifacts: every scope owns its three files and its sources,
and every artifact has one owner.  The checkout of an accepted object is therefore a
`LocalCorpusRelease`, and the resolver finds one provisions file for every scope it asks
for.
-/
import AxiomEncode.Corpus.ReleaseFiles
import AxiomEncode.Corpus.ReleaseObject
import Mathlib.Data.List.Nodup

namespace AxiomEncode.Corpus

open Theory

set_option autoImplicit false

/-! ## Paths of a scope -/

/-- The artifact lies where an artifact of its class lies for the scope. -/
def ReleaseScope.owns (scope : ReleaseScope) (artifact : VerifiedReleaseArtifact) : Bool :=
  match artifact.artifactClass with
  | .inventory => artifact.path == scope.requiredPath .inventory ".json"
  | .provisions => artifact.path == scope.requiredPath .provisions ".jsonl"
  | .coverage => artifact.path == scope.requiredPath .coverage ".json"
  | .sources => scope.sourcePrefix.isPrefixOf artifact.path

def ReleaseScope.Plain (scope : ReleaseScope) : Prop :=
  isScopeComponent scope.jurisdiction = true ∧ isScopeComponent scope.documentClass = true ∧
    isScopeComponent scope.version = true

variable {path bucket : Text} {artifact : VerifiedReleaseArtifact}

section

variable {scope other : ReleaseScope} {artifactClass : ArtifactClass} {extension : String}

theorem slash_not_mem_name : '/' ∉ artifactClass.name := by
  cases artifactClass <;> decide

theorem corpusRoot_eq : "data/corpus/".toList = "data".toList ++ '/' :: ("corpus".toList ++ ['/']) := by
  decide

theorem sourcesRoot_eq : "data/corpus/sources/".toList =
    "data".toList ++ '/' :: ("corpus".toList ++ '/' :: ("sources".toList ++ ['/'])) := by
  decide

theorem join_required (data corpus a b c d : Text) :
    data ++ '/' :: (corpus ++ ['/']) ++ a ++ '/' :: List.intercalate ['/'] [b, c, d] =
      List.intercalate ['/'] [data, corpus, a, b, c, d] := by
  simp only [List.intercalate_cons_cons, List.intercalate_singleton, List.append_assoc,
    List.cons_append, List.nil_append]

theorem join_sources (data corpus sources b c d : Text) {parts : List Text} (ne : parts ≠ []) :
    data ++ '/' :: (corpus ++ '/' :: (sources ++ ['/'])) ++ List.intercalate ['/'] [b, c, d] ++
        ['/'] ++ List.intercalate ['/'] parts =
      List.intercalate ['/'] (data :: corpus :: sources :: b :: c :: d :: parts) := by
  simp only [List.intercalate_cons_cons, List.intercalate_singleton,
    List.intercalate_cons_of_ne_nil ne, List.append_assoc, List.cons_append, List.nil_append]

theorem requiredPath_eq : scope.requiredPath artifactClass extension =
    List.intercalate ['/'] ["data".toList, "corpus".toList, artifactClass.name,
      scope.jurisdiction, scope.documentClass, scope.version ++ extension.toList] := by
  have joined := join_required "data".toList "corpus".toList artifactClass.name
    scope.jurisdiction scope.documentClass (scope.version ++ extension.toList)
  have key : '/' :: scope.key ++ extension.toList = '/' :: List.intercalate ['/']
      [scope.jurisdiction, scope.documentClass, scope.version ++ extension.toList] := by
    simp only [ReleaseScope.key, List.intercalate_cons_cons, List.intercalate_singleton,
      List.append_assoc, List.cons_append]
  rw [← joined, ← key, ← corpusRoot_eq]
  exact List.append_assoc _ _ _

theorem requiredPath_provisions : scope.requiredPath .provisions ".jsonl" = scope.provisionsPath := by
  rw [requiredPath_eq]
  rfl

theorem splitOn_requiredPath (plain : scope.Plain) (flat : '/' ∉ extension.toList) :
    List.splitOn '/' (scope.requiredPath artifactClass extension) =
      ["data".toList, "corpus".toList, artifactClass.name, scope.jurisdiction,
        scope.documentClass, scope.version ++ extension.toList] := by
  rw [requiredPath_eq]
  refine List.splitOn_intercalate '/' ?_ (by simp)
  intro part member
  simp only [List.mem_cons, List.not_mem_nil, or_false] at member
  rcases member with rfl | rfl | rfl | rfl | rfl | rfl
  · decide
  · decide
  · exact slash_not_mem_name
  · exact slash_not_mem_of_isScopeComponent plain.1
  · exact slash_not_mem_of_isScopeComponent plain.2.1
  · rw [List.mem_append, not_or]
    exact ⟨slash_not_mem_of_isScopeComponent plain.2.2, flat⟩

/-- A required path names its scope. -/
theorem requiredPath_injective (plain : scope.Plain) (plain' : other.Plain)
    (flat : '/' ∉ extension.toList)
    (same : scope.requiredPath artifactClass extension =
      other.requiredPath artifactClass extension) : scope = other := by
  have parts := congrArg (List.splitOn '/') same
  rw [splitOn_requiredPath plain flat, splitOn_requiredPath plain' flat] at parts
  simp only [List.cons.injEq, true_and, and_true, List.append_cancel_right_eq] at parts
  exact ReleaseScope.ext parts.1 parts.2.1 parts.2.2

/-- A path below the sources of a scope splits into the scope and the rest. -/
theorem splitOn_sourcePrefix (plain : scope.Plain) (below : scope.sourcePrefix <+: path) :
    ∃ rest, List.splitOn '/' path = "data".toList :: "corpus".toList :: "sources".toList ::
      scope.jurisdiction :: scope.documentClass :: scope.version :: rest := by
  obtain ⟨rest, rfl⟩ := below
  have whole : scope.sourcePrefix ++ rest = List.intercalate ['/'] ("data".toList ::
      "corpus".toList :: "sources".toList :: scope.jurisdiction :: scope.documentClass ::
        scope.version :: List.splitOn '/' rest) := by
    have joined := join_sources "data".toList "corpus".toList "sources".toList
      scope.jurisdiction scope.documentClass scope.version (List.splitOn_ne_nil '/' rest)
    rw [← joined, ← sourcesRoot_eq, List.intercalate_splitOn]
    rfl
  rw [whole]
  refine ⟨List.splitOn '/' rest, List.splitOn_intercalate '/' ?_ (by simp)⟩
  intro part member
  simp only [List.mem_cons] at member
  rcases member with rfl | rfl | rfl | rfl | rfl | rfl | later
  · decide
  · decide
  · decide
  · exact slash_not_mem_of_isScopeComponent plain.1
  · exact slash_not_mem_of_isScopeComponent plain.2.1
  · exact slash_not_mem_of_isScopeComponent plain.2.2
  · exact not_mem_of_mem_splitOn later

/-- **An artifact has at most one owner.** -/
theorem owner_unique (plain : scope.Plain) (plain' : other.Plain)
    (owned : scope.owns artifact = true) (owned' : other.owns artifact = true) : scope = other := by
  unfold ReleaseScope.owns at owned owned'
  cases artifactClass : artifact.artifactClass with
  | inventory =>
    simp only [artifactClass, beq_iff_eq] at owned owned'
    exact requiredPath_injective plain plain' (by decide) (owned.symm.trans owned')
  | provisions =>
    simp only [artifactClass, beq_iff_eq] at owned owned'
    exact requiredPath_injective plain plain' (by decide) (owned.symm.trans owned')
  | coverage =>
    simp only [artifactClass, beq_iff_eq] at owned owned'
    exact requiredPath_injective plain plain' (by decide) (owned.symm.trans owned')
  | sources =>
    simp only [artifactClass, List.isPrefixOf_iff_prefix] at owned owned'
    obtain ⟨rest, split⟩ := splitOn_sourcePrefix plain owned
    obtain ⟨rest', split'⟩ := splitOn_sourcePrefix plain' owned'
    rw [split] at split'
    simp only [List.cons.injEq, true_and] at split'
    exact ReleaseScope.ext split'.1 split'.2.1 split'.2.2.1

end

/-! ## What the checks establish -/

section

variable {host : Host} {artifacts : List InventoryArtifact} {scope : VerifiedReleaseScope}
variable {seen : List ReleaseScope} {raw : List Json}

theorem validateScope_spec {raw : Json} (checked : validateScope host seen raw = .ok scope) :
    scope.toReleaseScope.Plain ∧ scope.toReleaseScope ∉ seen := by
  unfold validateScope at checked
  split at checked
  · cases checked
  · obtain ⟨_, admitted, checked⟩ := bind_eq_ok_iff.mp checked
    simp only [require_eq_ok_iff, ReleaseScope.isComponents, Bool.and_eq_true, Bool.not_eq_true',
      List.contains_eq_mem, decide_eq_false_iff_not] at admitted
    split at checked
    · obtain ⟨_, -, checked⟩ := bind_eq_ok_iff.mp checked
      split at checked
      · obtain ⟨_, -, last⟩ := bind_eq_ok_iff.mp checked
        cases Except.ok.inj last
        exact ⟨⟨admitted.1.1.1.1, admitted.1.1.1.2, admitted.1.1.2⟩, admitted.2⟩
      · cases checked
    · cases checked

theorem validateScopes_spec {scopes : List VerifiedReleaseScope}
    (checked : validateScopes host seen raw = .ok scopes) :
    (∀ scope ∈ scopes, scope.toReleaseScope.Plain ∧ scope.toReleaseScope ∉ seen) ∧
      (scopes.map VerifiedReleaseScope.toReleaseScope).Nodup := by
  induction raw generalizing seen scopes with
  | nil =>
    cases Except.ok.inj checked
    exact ⟨List.forall_mem_nil _, List.nodup_nil⟩
  | cons raw rest ih =>
    obtain ⟨scope, first, later⟩ := bind_eq_ok_iff.mp checked
    obtain ⟨others, tail, last⟩ := bind_eq_ok_iff.mp later
    cases Except.ok.inj last
    obtain ⟨plain, fresh⟩ := validateScope_spec first
    obtain ⟨each, distinct⟩ := ih tail
    refine ⟨fun other member => ?_, ?_⟩
    · rcases List.mem_cons.mp member with rfl | member
      · exact ⟨plain, fresh⟩
      · obtain ⟨otherPlain, unseen⟩ := each other member
        exact ⟨otherPlain, fun before => unseen (List.mem_cons_of_mem _ before)⟩
    · rw [List.map_cons, List.nodup_cons]
      refine ⟨fun member => ?_, distinct⟩
      obtain ⟨other, listed, same⟩ := List.mem_map.mp member
      exact (each other listed).2 (same ▸ List.mem_cons_self)

theorem validateArtifact_spec {seen : List Text} {raw : Json} {artifact : InventoryArtifact}
    (checked : validateArtifact bucket seen raw = .ok artifact) :
    artifact.path ∉ seen := by
  unfold validateArtifact at checked
  split at checked
  · obtain ⟨_, -, checked⟩ := bind_eq_ok_iff.mp checked
    split at checked
    · cases checked
    · split at checked
      · obtain ⟨_, fresh, checked⟩ := bind_eq_ok_iff.mp checked
        simp only [require_eq_ok_iff, Bool.and_eq_true, Bool.not_eq_true', List.contains_eq_mem,
          decide_eq_false_iff_not] at fresh
        split at checked
        · obtain ⟨_, -, checked⟩ := bind_eq_ok_iff.mp checked
          obtain ⟨_, -, checked⟩ := bind_eq_ok_iff.mp checked
          obtain ⟨_, -, checked⟩ := bind_eq_ok_iff.mp checked
          split at checked
          · obtain ⟨_, -, checked⟩ := bind_eq_ok_iff.mp checked
            obtain ⟨_, -, last⟩ := bind_eq_ok_iff.mp checked
            cases Except.ok.inj last
            exact fresh.2
          · cases checked
        · cases checked
      · cases checked
  · cases checked

theorem validateArtifactList_spec {seen : List Text}
    (checked : validateArtifactList bucket seen raw = .ok artifacts) :
    (∀ artifact ∈ artifacts, artifact.path ∉ seen) ∧
      (artifacts.map fun artifact => artifact.path).Nodup := by
  induction raw generalizing seen artifacts with
  | nil =>
    cases Except.ok.inj checked
    exact ⟨List.forall_mem_nil _, List.nodup_nil⟩
  | cons raw rest ih =>
    obtain ⟨artifact, first, later⟩ := bind_eq_ok_iff.mp checked
    obtain ⟨others, tail, last⟩ := bind_eq_ok_iff.mp later
    cases Except.ok.inj last
    obtain ⟨each, distinct⟩ := ih tail
    refine ⟨fun other member => ?_, ?_⟩
    · rcases List.mem_cons.mp member with rfl | member
      · exact validateArtifact_spec first
      · exact fun before => each other member (List.mem_cons_of_mem _ before)
    · rw [List.map_cons, List.nodup_cons]
      refine ⟨fun member => ?_, distinct⟩
      obtain ⟨other, listed, same⟩ := List.mem_map.mp member
      exact each other listed (same ▸ List.mem_cons_self)

/-- The artifact of a class that a scope needs is there. -/
theorem exists_required {artifactClass : ArtifactClass} {extension : String}
    (found : (match artifacts.find? fun artifact =>
        artifact.path == scope.requiredPath artifactClass extension with
      | none => Except.error ("release scope lacks its " ++ String.ofList artifactClass.name ++
          " artifact: " ++ String.ofList scope.key)
      | some artifact => do
        require (artifact.artifactClass = artifactClass) ("release scope lacks its " ++
          String.ofList artifactClass.name ++ " artifact: " ++ String.ofList scope.key)
        pure (scope.requiredPath artifactClass extension)) = Except.ok path) :
    path = scope.requiredPath artifactClass extension ∧ ∃ artifact ∈ artifacts,
      artifact.artifactClass = artifactClass ∧ artifact.path = path := by
  split at found
  · cases found
  next artifact here =>
    obtain ⟨_, same, last⟩ := bind_eq_ok_iff.mp found
    cases Except.ok.inj last
    rw [require_eq_ok_iff, decide_eq_true_eq] at same
    have path := List.find?_some here
    rw [beq_iff_eq] at path
    exact ⟨rfl, artifact, List.mem_of_find?_eq_some here, same, path⟩

/-- What a scope claims it owns, and its four classes are there. -/
theorem claimedPaths_spec {paths : List Text} (checked : claimedPaths artifacts scope = .ok paths) :
    (∀ pair ∈ requiredArtifacts, ∃ artifact ∈ artifacts, artifact.artifactClass = pair.1 ∧
        artifact.path = scope.requiredPath pair.1 pair.2) ∧
      (∃ artifact ∈ artifacts, artifact.artifactClass = .sources ∧
        scope.sourcePrefix.isPrefixOf artifact.path = true) ∧
      ∀ path ∈ paths, ∃ artifact ∈ artifacts, artifact.path = path ∧
        scope.owns artifact.toVerifiedReleaseArtifact = true := by
  unfold claimedPaths at checked
  obtain ⟨required, needed, checked⟩ := bind_eq_ok_iff.mp checked
  obtain ⟨_, -, checked⟩ := bind_eq_ok_iff.mp checked
  obtain ⟨_, some_, last⟩ := bind_eq_ok_iff.mp checked
  cases Except.ok.inj last
  refine ⟨fun pair member => ?_, ?_, fun path member => ?_⟩
  · obtain ⟨path, found⟩ := eq_ok_of_mapM needed pair member
    obtain ⟨rfl, artifact, listed, same, here⟩ := exists_required found
    exact ⟨artifact, listed, same, here⟩
  · rw [require_eq_ok_iff, Bool.not_eq_true', List.isEmpty_eq_false_iff] at some_
    obtain ⟨artifact, listed⟩ := List.exists_mem_of_ne_nil _ some_
    obtain ⟨member, below⟩ := List.mem_filter.mp listed
    rw [Bool.and_eq_true, decide_eq_true_eq] at below
    exact ⟨artifact, member, below.2, below.1⟩
  · rcases List.mem_append.mp member with member | member
    · obtain ⟨pair, listed, found⟩ := (mapM_answers needed).2 path member
      obtain ⟨same, artifact, inventory, artifactClass, here⟩ := exists_required found
      refine ⟨artifact, inventory, here, ?_⟩
      simp only [requiredArtifacts, List.mem_cons, List.not_mem_nil, or_false] at listed
      rcases listed with rfl | rfl | rfl
      · simp only [ReleaseScope.owns, artifactClass, here, same, beq_self_eq_true]
      · simp only [ReleaseScope.owns, artifactClass, here, same, beq_self_eq_true]
      · simp only [ReleaseScope.owns, artifactClass, here, same, beq_self_eq_true]
    · obtain ⟨artifact, listed, rfl⟩ := List.mem_map.mp member
      obtain ⟨inventory, below⟩ := List.mem_filter.mp listed
      rw [Bool.and_eq_true, decide_eq_true_eq] at below
      exact ⟨artifact, inventory, rfl, by simpa only [ReleaseScope.owns, below.2] using below.1⟩

theorem validateScopeArtifactMembership_spec {scopes : List VerifiedReleaseScope}
    (checked : validateScopeArtifactMembership scopes artifacts = .ok ()) :
    (∀ scope ∈ scopes, ∃ paths, claimedPaths artifacts scope = .ok paths) ∧
      ∀ artifact ∈ artifacts, ∃ scope ∈ scopes, ∃ paths, claimedPaths artifacts scope = .ok paths ∧
        artifact.path ∈ paths := by
  obtain ⟨claimed, mapped, all⟩ := bind_eq_ok_iff.mp checked
  rw [require_eq_ok_iff, List.all_eq_true] at all
  refine ⟨eq_ok_of_mapM mapped, fun artifact member => ?_⟩
  obtain ⟨paths, listed, inside⟩ := List.mem_flatten.mp (List.contains_iff_mem.mp (all artifact member))
  obtain ⟨scope, declared, found⟩ := (mapM_answers mapped).2 paths listed
  exact ⟨scope, declared, paths, found, inside⟩

end

/-! ## The partition of the artifacts -/

namespace VerifiedCorpusReleaseObject

/-- What the checks of scopes, artifacts and membership leave behind. -/
structure Checked (verified : VerifiedCorpusReleaseObject) : Prop where
  plain : ∀ scope ∈ verified.scopes, scope.toReleaseScope.Plain
  scopesDistinct : (verified.scopes.map VerifiedReleaseScope.toReleaseScope).Nodup
  pathsDistinct : (verified.artifacts.map fun artifact => artifact.path).Nodup
  membership : validateScopeArtifactMembership verified.scopes verified.artifacts = .ok ()

/-- The artifacts of one class that a scope owns. -/
def artifactsOf (verified : VerifiedCorpusReleaseObject) (scope : ReleaseScope)
    (artifactClass : ArtifactClass) : List InventoryArtifact :=
  verified.artifacts.filter fun artifact =>
    artifact.artifactClass = artifactClass && scope.owns artifact.toVerifiedReleaseArtifact

/-- The scopes that own an artifact. -/
def ownersOf (verified : VerifiedCorpusReleaseObject) (artifact : InventoryArtifact) :
    List VerifiedReleaseScope :=
  verified.scopes.filter fun scope => scope.owns artifact.toVerifiedReleaseArtifact

/-- Every scope owns one inventory, one provisions and one coverage artifact and some
source, and every artifact has one owner. -/
structure Partitioned (verified : VerifiedCorpusReleaseObject) : Prop where
  single : ∀ scope ∈ verified.scopes, ∀ artifactClass ≠ ArtifactClass.sources,
    ∃ artifact, verified.artifactsOf scope.toReleaseScope artifactClass = [artifact]
  sources : ∀ scope ∈ verified.scopes,
    verified.artifactsOf scope.toReleaseScope .sources ≠ []
  owner : ∀ artifact ∈ verified.artifacts, ∃ scope, verified.ownersOf artifact = [scope]

theorem checked_of_validateContent {host : Host} {release contentSha256 : Text}
    {qualityProfile : Option Text} {content : Record} {verified : VerifiedCorpusReleaseObject}
    (accepted : validateContent host release contentSha256 qualityProfile content bucket =
      .ok verified) : verified.Checked := by
  obtain ⟨rawScopes, -, accepted⟩ := bind_eq_ok_iff.mp accepted
  obtain ⟨rawArtifacts, -, accepted⟩ := bind_eq_ok_iff.mp accepted
  obtain ⟨scopes, scopesChecked, accepted⟩ := bind_eq_ok_iff.mp accepted
  obtain ⟨_, -, accepted⟩ := bind_eq_ok_iff.mp accepted
  obtain ⟨artifacts, artifactsChecked, accepted⟩ := bind_eq_ok_iff.mp accepted
  obtain ⟨_, membership, accepted⟩ := bind_eq_ok_iff.mp accepted
  obtain ⟨_, -, last⟩ := bind_eq_ok_iff.mp accepted
  cases Except.ok.inj last
  obtain ⟨each, distinct⟩ := validateScopes_spec scopesChecked
  obtain ⟨listed, artifactsListed, ordered⟩ := bind_eq_ok_iff.mp artifactsChecked
  obtain ⟨_, -, same⟩ := bind_eq_ok_iff.mp ordered
  cases Except.ok.inj same
  exact { plain := fun scope member => (each scope member).1
          scopesDistinct := distinct
          pathsDistinct := (validateArtifactList_spec artifactsListed).2
          membership := membership }

theorem checked_of_validate {host : Host} {payload : Record}
    {verified : VerifiedCorpusReleaseObject}
    (accepted : validateUnsignedReleaseObject host payload = .ok verified) : verified.Checked := by
  obtain ⟨_, -, accepted⟩ := bind_eq_ok_iff.mp accepted
  obtain ⟨_, -, accepted⟩ := bind_eq_ok_iff.mp accepted
  obtain ⟨release, -, accepted⟩ := bind_eq_ok_iff.mp accepted
  dsimp only at accepted
  generalize exactObject (Json.get? payload "content") _ = found at accepted
  cases found with
  | none => cases accepted
  | some content =>
    obtain ⟨_, -, accepted⟩ := bind_eq_ok_iff.mp accepted
    obtain ⟨_, -, accepted⟩ := bind_eq_ok_iff.mp accepted
    obtain ⟨_, -, accepted⟩ := bind_eq_ok_iff.mp accepted
    obtain ⟨_, -, accepted⟩ := bind_eq_ok_iff.mp accepted
    obtain ⟨_, -, accepted⟩ := bind_eq_ok_iff.mp accepted
    obtain ⟨_, -, accepted⟩ := bind_eq_ok_iff.mp accepted
    obtain ⟨bucket, -, accepted⟩ := bind_eq_ok_iff.mp accepted
    exact checked_of_validateContent accepted

section

variable {verified : VerifiedCorpusReleaseObject}

theorem Checked.owned (checked : verified.Checked) {artifact : InventoryArtifact}
    (member : artifact ∈ verified.artifacts) :
    ∃ scope ∈ verified.scopes, scope.owns artifact.toVerifiedReleaseArtifact = true := by
  obtain ⟨scope, declared, paths, claimed, inside⟩ :=
    (validateScopeArtifactMembership_spec checked.membership).2 artifact member
  obtain ⟨-, -, each⟩ := claimedPaths_spec claimed
  obtain ⟨other, listed, path, owned⟩ := each artifact.path inside
  cases List.inj_on_of_nodup_map checked.pathsDistinct listed member path
  exact ⟨scope, declared, owned⟩

/-- In a list without repetition a property of one element only filters that element. -/
theorem filter_eq_singleton {α : Type} {p : α → Bool} {xs : List α} {x : α} (distinct : xs.Nodup)
    (member : x ∈ xs) (here : p x = true) (only : ∀ y ∈ xs, p y = true → y = x) :
    xs.filter p = [x] := by
  refine List.perm_singleton.mp ((List.perm_ext_iff_of_nodup (distinct.filter p)
    (List.nodup_singleton x)).mpr fun y => ?_)
  rw [List.mem_filter, List.mem_singleton]
  exact ⟨fun found => only y found.1 found.2, fun same => same ▸ ⟨member, here⟩⟩

theorem Checked.partitioned (checked : verified.Checked) : verified.Partitioned where
  single scope declared artifactClass ne := by
    obtain ⟨paths, claimed⟩ :=
      (validateScopeArtifactMembership_spec checked.membership).1 scope declared
    obtain ⟨needed, -, -⟩ := claimedPaths_spec claimed
    have required : ∃ extension, (artifactClass, extension) ∈ requiredArtifacts ∧
        ∀ artifact : VerifiedReleaseArtifact, artifact.artifactClass = artifactClass →
          scope.owns artifact = (artifact.path == scope.requiredPath artifactClass extension) := by
      cases artifactClass with
      | inventory => exact ⟨".json", by decide, fun _ same => by simp only [ReleaseScope.owns, same]⟩
      | provisions => exact ⟨".jsonl", by decide, fun _ same => by simp only [ReleaseScope.owns, same]⟩
      | coverage => exact ⟨".json", by decide, fun _ same => by simp only [ReleaseScope.owns, same]⟩
      | sources => exact absurd rfl ne
    obtain ⟨extension, listed, owns⟩ := required
    obtain ⟨artifact, member, same, path⟩ := needed _ listed
    refine ⟨artifact, filter_eq_singleton (List.Nodup.of_map _ checked.pathsDistinct) member ?_ ?_⟩
    · rw [owns artifact.toVerifiedReleaseArtifact same, same, path]
      simp
    · intro other inventory found
      rw [Bool.and_eq_true, decide_eq_true_eq] at found
      have otherPath := found.2
      rw [owns other.toVerifiedReleaseArtifact found.1, beq_iff_eq] at otherPath
      exact List.inj_on_of_nodup_map checked.pathsDistinct inventory member
        (otherPath.trans path.symm)
  sources scope declared := by
    obtain ⟨paths, claimed⟩ :=
      (validateScopeArtifactMembership_spec checked.membership).1 scope declared
    obtain ⟨-, ⟨artifact, member, artifactClass, below⟩, -⟩ := claimedPaths_spec claimed
    refine List.ne_nil_of_mem (List.mem_filter.mpr ⟨member, ?_⟩)
    simp only [artifactClass, decide_true, Bool.true_and, ReleaseScope.owns]
    exact below
  owner artifact member := by
    obtain ⟨scope, declared, owned⟩ := checked.owned member
    refine ⟨scope, filter_eq_singleton (List.Nodup.of_map _ checked.scopesDistinct) declared owned ?_⟩
    intro other listed owned'
    have same := owner_unique (checked.plain other listed) (checked.plain scope declared) owned' owned
    exact List.inj_on_of_nodup_map checked.scopesDistinct listed declared same

/-- The checkout of an accepted release object, as `LocalCorpusRelease` keeps it. -/
def localRelease (verified : VerifiedCorpusReleaseObject) (checked : verified.Checked)
    (root : Text) : LocalCorpusRelease where
  root
  name := verified.name
  contentSha256 := String.ofList verified.contentSha256
  selectorSha256 := String.ofList verified.selectorSha256
  scopes := verified.scopes.map VerifiedReleaseScope.toReleaseScope
  artifacts := verified.artifacts.map InventoryArtifact.toVerifiedReleaseArtifact
  scopeComponents scope declared := by
    obtain ⟨other, listed, rfl⟩ := List.mem_map.mp declared
    exact checked.plain other listed
  scopesDistinct := checked.scopesDistinct
  pathsDistinct := by
    rw [List.map_map]
    exact checked.pathsDistinct
  claimed artifact inventory provisions := by
    obtain ⟨listed, member, rfl⟩ := List.mem_map.mp inventory
    obtain ⟨scope, declared, owned⟩ := checked.owned member
    simp only [ReleaseScope.owns, provisions, beq_iff_eq] at owned
    exact ⟨scope.toReleaseScope, List.mem_map_of_mem declared, owned.trans requiredPath_provisions⟩
  provided scope declared := by
    obtain ⟨other, listed, rfl⟩ := List.mem_map.mp declared
    obtain ⟨paths, claimed⟩ :=
      (validateScopeArtifactMembership_spec checked.membership).1 other listed
    obtain ⟨needed, -, -⟩ := claimedPaths_spec claimed
    obtain ⟨artifact, member, same, path⟩ :=
      needed (.provisions, ".jsonl") (List.mem_cons_of_mem _ List.mem_cons_self)
    exact ⟨artifact.toVerifiedReleaseArtifact, List.mem_map_of_mem member, same,
      path.trans requiredPath_provisions⟩

end

end VerifiedCorpusReleaseObject

/-! ## What a resolver selects -/

section

variable {host : Host} {release : LocalCorpusRelease} {jurisdiction documentClass : Text}
  {scopes : List ReleaseScope}

theorem provisionsPath_injective {scope other : ReleaseScope} (plain : scope.Plain)
    (plain' : other.Plain) (same : scope.provisionsPath = other.provisionsPath) : scope = other :=
  @requiredPath_injective scope other .provisions ".jsonl" plain plain' (by decide)
    ((requiredPath_provisions.trans same).trans requiredPath_provisions.symm)

theorem mapM_eq_ok_of_each {α β ε : Type} {f : α → Except ε β} {g : α → β} {xs : List α}
    (each : ∀ x ∈ xs, f x = .ok (g x)) : xs.mapM f = .ok (xs.map g) := by
  induction xs with
  | nil => rfl
  | cons x xs ih =>
    exact mapM_cons_eq_ok_iff.mpr ⟨g x, xs.map g, each x List.mem_cons_self,
      ih fun y member => each y (List.mem_cons_of_mem _ member), rfl⟩

variable {error : ResolveError}

/-- A file that is there is passed on or its safety complained of. -/
theorem unsafe_of_error (here : host.lookupFile path ≠ .missing)
    (failed : (do
      match ← safeFile host release path with
      | some _ => pure path
      | none => .error (.resolution ("Verified corpus release artifact is missing: " ++
          String.ofList path))) = (.error error : Except ResolveError Text)) :
    ∃ detail, error = .indirectPath detail := by
  unfold safeFile at failed
  cases found : host.lookupFile path with
  | missing => exact absurd found here
  | refused detail =>
    rw [found] at failed
    cases failed
    exact ⟨detail, rfl⟩
  | regular raw =>
    rw [found] at failed
    dsimp only at failed
    split at failed
    · cases failed
      exact ⟨_, rfl⟩
    · cases failed

section Requested

variable (distinct : scopes.Nodup)
  (requested : ∀ scope ∈ scopes, scope ∈ scopesOf release jurisdiction documentClass)

include distinct requested

/-- The provisions artifacts of the requested scopes, one for each. -/
theorem candidates_perm :
    ((release.artifacts.filter (isCandidateArtifact (scopes.map ReleaseScope.version) jurisdiction
      documentClass)).map VerifiedReleaseArtifact.path).Perm
        (scopes.map ReleaseScope.provisionsPath) := by
  have listed : ∀ scope ∈ scopes, scope ∈ release.scopes := fun scope member =>
    (mem_scopesOf.mp (requested scope member)).1
  have class_ : ∀ scope ∈ scopes, scope.jurisdiction = jurisdiction ∧
      scope.documentClass = documentClass := fun scope member =>
    (mem_scopesOf.mp (requested scope member)).2
  have left : ((release.artifacts.filter (isCandidateArtifact (scopes.map ReleaseScope.version)
      jurisdiction documentClass)).map VerifiedReleaseArtifact.path).Nodup :=
    release.pathsDistinct.sublist (List.filter_sublist.map _)
  have right : (scopes.map ReleaseScope.provisionsPath).Nodup :=
    (List.nodup_map_iff_inj_on distinct).mpr fun scope member other member' same =>
      provisionsPath_injective (release.scopeComponents scope (listed scope member))
        (release.scopeComponents other (listed other member')) same
  refine (List.perm_ext_iff_of_nodup left right).mpr fun path => ?_
  rw [List.mem_map, List.mem_map]
  constructor
  · rintro ⟨artifact, member, rfl⟩
    obtain ⟨inventory, candidate⟩ := List.mem_filter.mp member
    have provisions : artifact.artifactClass = .provisions := by
      simp only [isCandidateArtifact, Bool.and_eq_true, decide_eq_true_eq] at candidate
      exact candidate.1
    obtain ⟨scope, declared, path⟩ := release.claimed artifact inventory provisions
    have member := (isCandidateArtifact_iff (release.scopeComponents scope declared) class_ path
      provisions).mp candidate
    exact ⟨scope, member, path.symm⟩
  · rintro ⟨scope, member, rfl⟩
    obtain ⟨artifact, inventory, provisions, path⟩ := release.provided scope (listed scope member)
    have candidate := (isCandidateArtifact_iff (release.scopeComponents scope (listed scope member))
      class_ path provisions).mpr member
    exact ⟨artifact, List.mem_filter.mpr ⟨inventory, candidate⟩, path⟩

/-- Every candidate lies at the path of a requested scope. -/
theorem exists_scope_of_candidate
    (member : artifact ∈ release.artifacts.filter (isCandidateArtifact
      (scopes.map ReleaseScope.version) jurisdiction documentClass)) :
    ∃ scope ∈ scopes, artifact.path = scope.provisionsPath := by
  have inside := (candidates_perm distinct requested).subset
    (List.mem_map_of_mem (f := VerifiedReleaseArtifact.path) member)
  obtain ⟨scope, listed, same⟩ := List.mem_map.mp inside
  exact ⟨scope, listed, same.symm⟩

/-- When its files are there, every requested scope gets exactly one. -/
theorem candidateProvisionFiles_of_present
    (present : ∀ scope ∈ scopes, ∃ raw, safeFile host release scope.provisionsPath = .ok (some raw)) :
    ∃ files, candidateProvisionFiles host release jurisdiction documentClass scopes = .ok files ∧
      files.Perm (scopes.map ReleaseScope.provisionsPath) := by
  unfold candidateProvisionFiles
  cases empty : scopes.isEmpty with
  | true =>
    rw [List.isEmpty_iff.mp empty]
    exact ⟨[], rfl, List.Perm.refl []⟩
  | false =>
    have perm := candidates_perm distinct requested
    refine ⟨_, ?_, perm⟩
    rw [if_neg Bool.false_ne_true]
    refine bind_eq_ok_iff.mpr ⟨_, mapM_eq_ok_of_each (g := VerifiedReleaseArtifact.path)
      fun artifact member => ?_, ?_⟩
    · obtain ⟨scope, listed, path⟩ := exists_scope_of_candidate distinct requested member
      obtain ⟨raw, found⟩ := present scope listed
      rw [path]
      exact bind_eq_ok_iff.mpr ⟨some raw, found, rfl⟩
    · refine bind_eq_ok_iff.mpr ⟨(), ?_, rfl⟩
      have lengths := perm.length_eq
      rw [List.length_map (f := ReleaseScope.provisionsPath)] at lengths
      rw [require_eq_ok_iff, decide_eq_true_eq]
      exact lengths

/-- Whatever files are there, only the safety of one of them is ever complained of. -/
theorem candidateProvisionFiles_refused
    (present : ∀ scope ∈ scopes, host.lookupFile scope.provisionsPath ≠ .missing)
    (refused : candidateProvisionFiles host release jurisdiction documentClass scopes =
      .error error) : ∃ detail, error = .indirectPath detail := by
  unfold candidateProvisionFiles at refused
  cases empty : scopes.isEmpty with
  | true =>
    rw [empty, if_pos rfl] at refused
    cases refused
  | false =>
    rw [empty, if_neg Bool.false_ne_true] at refused
    rcases bind_eq_error_iff.mp refused with failed | ⟨files, mapped, short⟩
    · obtain ⟨artifact, member, failed⟩ := exists_of_mapM_eq_error failed
      obtain ⟨scope, listed, path⟩ := exists_scope_of_candidate distinct requested member
      have here := present scope listed
      rw [← path] at here
      exact unsafe_of_error here failed
    · have paths := mapM_eq_ok_map (g := VerifiedReleaseArtifact.path) ?_ mapped
      · have lengths := (candidates_perm distinct requested).length_eq
        rw [← paths, List.length_map (f := ReleaseScope.provisionsPath)] at lengths
        rcases bind_eq_error_iff.mp short with failed | ⟨_, -, last⟩
        · simp [require, lengths] at failed
        · cases last
      · intro artifact _ path found
        obtain ⟨raw, -, done⟩ := bind_eq_ok_iff.mp found
        cases raw with
        | none => cases done
        | some raw => exact (Except.ok.inj done).symm

end Requested

end

/-- What a resolver selects of a release: one provisions file for each scope it asks for
when they are there, and never a complaint that an artifact is missing or not single. -/
structure LocalCorpusRelease.Selects (host : Host) (release : LocalCorpusRelease) : Prop where
  present : ∀ {jurisdiction documentClass : Text} {scopes : List ReleaseScope}, scopes.Nodup →
    (∀ scope ∈ scopes, scope ∈ scopesOf release jurisdiction documentClass) →
    (∀ scope ∈ scopes, ∃ raw, safeFile host release scope.provisionsPath = .ok (some raw)) →
    ∃ files, candidateProvisionFiles host release jurisdiction documentClass scopes = .ok files ∧
      files.Perm (scopes.map ReleaseScope.provisionsPath)
  refused : ∀ {jurisdiction documentClass : Text} {scopes : List ReleaseScope}, scopes.Nodup →
    (∀ scope ∈ scopes, scope ∈ scopesOf release jurisdiction documentClass) →
    (∀ scope ∈ scopes, host.lookupFile scope.provisionsPath ≠ .missing) →
    ∀ error, candidateProvisionFiles host release jurisdiction documentClass scopes =
      .error error → ∃ detail, error = .indirectPath detail

/-- **An accepted release object resolves.** Its artifacts are partitioned among its
scopes, and a resolver over any checkout of it selects exactly the provisions files of the
scopes it asks for. -/
theorem validateUnsignedReleaseObject_resolves {host : Host} {payload : Record}
    {verified : VerifiedCorpusReleaseObject}
    (accepted : validateUnsignedReleaseObject host payload = .ok verified) :
    verified.Partitioned ∧ ∃ checked : verified.Checked, ∀ (reader : Host) (root : Text),
      (verified.localRelease checked root).Selects reader := by
  have checked := VerifiedCorpusReleaseObject.checked_of_validate accepted
  refine ⟨checked.partitioned, checked, fun reader root => ⟨?_, ?_⟩⟩
  · intro jurisdiction documentClass scopes distinct requested present
    exact candidateProvisionFiles_of_present distinct requested present
  · intro jurisdiction documentClass scopes distinct requested present error refused
    exact candidateProvisionFiles_refused distinct requested present refused

/-! ## An accepted object -/

/-- SHA-256 of the two bytes of an empty object, which every artifact of the sample holds. -/
def sampleDigest : Text :=
  "44136fa355b3678a1146ad16f7e8649e94fb4fc21fe77e8310c060f61caaff8a".toList

def sampleScopeMembers (version : String) : Record :=
  [("jurisdiction".toList, .str "us".toList), ("document_class".toList, .str "statute".toList),
    ("version".toList, .str version.toList)]

def sampleSelectorSha256 : Text :=
  "aa87d53501659db2d76bfa71e5f66ecdc26627459b2de94e2da93dc15874e120".toList

def sampleContentSha256 : Text :=
  "56b94c741b458da42ea51be5b98f872fc93a5245978856a08c371898cd860d9f".toList

/-- SHA-256 of the selector of the sample, and of its content. -/
def sampleHost : Host where
  repr _ := ""
  sha256 bytes := String.ofList (if bytes = canonicalJsonBytes (.obj [("name".toList,
      .str "spring".toList), ("scopes".toList, .arr [.obj (sampleScopeMembers "v1"),
        .obj (sampleScopeMembers "v1.2")])])
    then sampleSelectorSha256 else sampleContentSha256)
  decodeUtf8 _ := none
  loads _ := none
  lookupFile _ := .missing

def sampleScope (version : String) : Json :=
  .obj (sampleScopeMembers version ++ [("provision_rows".toList, .int 1),
    ("navigation_rows".toList, .int 1),
    ("provision_projection_sha256".toList, .str sampleDigest),
    ("navigation_projection_sha256".toList, .str sampleDigest)])

def sampleArtifact (artifactClass path : String) (rows : Record) : Json :=
  .obj ([("artifact_class".toList, .str artifactClass.toList), ("path".toList, .str path.toList),
    ("sha256".toList, .str sampleDigest), ("bytes".toList, .int 2),
    ("r2_bucket".toList, .str "corpus".toList),
    ("r2_key".toList, .str (contentKey sampleDigest))] ++ rows)

def sampleEvidence (version : String) : Json :=
  .obj (sampleScopeMembers version ++ [("expected".toList, .int 1), ("actual".toList, .int 1),
    ("expected_navigation".toList, .int 1), ("actual_navigation".toList, .int 1),
    ("expected_provision_projection_sha256".toList, .str sampleDigest),
    ("actual_provision_projection_sha256".toList, .str sampleDigest),
    ("expected_navigation_projection_sha256".toList, .str sampleDigest),
    ("actual_navigation_projection_sha256".toList, .str sampleDigest)])

def sampleContent : Record :=
  [("release".toList, .str "spring".toList), ("created_at".toList, .str "2024-01-01".toList),
    ("selector_sha256".toList, .str sampleSelectorSha256),
    ("corpus_base".toList, .str "data/corpus".toList),
    ("git".toList, .obj [("commit".toList, .str (List.replicate 40 'a')),
      ("committed_at".toList, .str "2024-01-01".toList)]),
    ("r2".toList, .obj [("bucket".toList, .str "corpus".toList),
      ("addressing".toList, .str "sha256".toList)]),
    ("scopes".toList, .arr [sampleScope "v1", sampleScope "v1.2"]),
    ("artifacts".toList, .arr [
      sampleArtifact "coverage" "data/corpus/coverage/us/statute/v1.2.json" [],
      sampleArtifact "coverage" "data/corpus/coverage/us/statute/v1.json" [],
      sampleArtifact "inventory" "data/corpus/inventory/us/statute/v1.2.json" [],
      sampleArtifact "inventory" "data/corpus/inventory/us/statute/v1.json" [],
      sampleArtifact "provisions" "data/corpus/provisions/us/statute/v1.2.jsonl"
        [("rows".toList, .int 1)],
      sampleArtifact "provisions" "data/corpus/provisions/us/statute/v1.jsonl"
        [("rows".toList, .int 1)],
      sampleArtifact "sources" "data/corpus/sources/us/statute/v1.2/title.xml" [],
      sampleArtifact "sources" "data/corpus/sources/us/statute/v1/title.xml" []]),
    ("validation".toList, .obj [("passed".toList, .bool true),
      ("deep_validation".toList, .obj [("error_count".toList, .int 0),
        ("warning_count".toList, .int 0), ("scope_count".toList, .int 2)]),
      ("r2_readback".toList, .obj [("bucket".toList, .str "corpus".toList),
        ("artifact_count".toList, .int 8), ("artifact_bytes".toList, .int 16),
        ("verified_keys".toList, .arr (List.replicate 8 (.str (contentKey sampleDigest))))]),
      ("supabase_projection_evidence".toList,
        .arr [sampleEvidence "v1", sampleEvidence "v1.2"])])]

def samplePayload : Record :=
  [("schema_version".toList, .str releaseObjectSchemaV2), ("release".toList, .str "spring".toList),
    ("content_sha256".toList, .str sampleContentSha256), ("content".toList, .obj sampleContent)]

/-- An object of two scopes, the version of one the beginning of the other's. -/
theorem samplePayload_resolves :
    ∃ verified, validateUnsignedReleaseObject sampleHost samplePayload = .ok verified ∧
      verified.Partitioned ∧ ∃ checked : verified.Checked, ∀ (reader : Host) (root : Text),
        (verified.localRelease checked root).Selects reader := by
  have returns : (validateUnsignedReleaseObject sampleHost samplePayload).isOk = true := by
    decide +kernel
  obtain ⟨verified, accepted⟩ := exists_of_isOk returns
  exact ⟨verified, accepted, validateUnsignedReleaseObject_resolves accepted⟩

end AxiomEncode.Corpus
