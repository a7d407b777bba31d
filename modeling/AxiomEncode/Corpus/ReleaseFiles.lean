/-
# Corpus.ReleaseFiles -- the files a resolution reads

The provision files of a jurisdiction and document class are exactly those of
its scopes: verification has tied every provisions artifact to a scope, and the
components of a scope hold no slash, so a path splits back into its scope.
-/
import AxiomEncode.Corpus.Release

namespace AxiomEncode.Corpus

open Theory

set_option autoImplicit false

theorem slash_not_mem_of_isScopeComponent {text : Text} (plain : isScopeComponent text = true) :
    '/' ∉ text := by
  intro member
  cases text with
  | nil => simp at member
  | cons c rest =>
    simp only [isScopeComponent, Bool.and_eq_true, List.all_eq_true] at plain
    rcases List.mem_cons.mp member with rfl | member
    · exact absurd plain.1.1 (by decide)
    · exact absurd (plain.2 '/' member) (by decide)

variable {scope : ReleaseScope}

/-- The path of a scope's provision file splits back into the scope. -/
theorem splitOn_provisionsPath
    (plain : isScopeComponent scope.jurisdiction = true ∧
      isScopeComponent scope.documentClass = true ∧ isScopeComponent scope.version = true) :
    List.splitOn '/' scope.provisionsPath =
      ["data".toList, "corpus".toList, "provisions".toList, scope.jurisdiction,
        scope.documentClass, scope.version ++ ".jsonl".toList] := by
  refine List.splitOn_intercalate '/' ?_ (by simp)
  intro part member
  simp only [List.mem_cons, List.not_mem_nil, or_false] at member
  rcases member with rfl | rfl | rfl | rfl | rfl | rfl
  · decide
  · decide
  · decide
  · exact slash_not_mem_of_isScopeComponent plain.1
  · exact slash_not_mem_of_isScopeComponent plain.2.1
  · rw [List.mem_append, not_or]
    exact ⟨slash_not_mem_of_isScopeComponent plain.2.2, by decide⟩

section

variable {host : Host} {release : LocalCorpusRelease} {jurisdiction documentClass : Text}
variable {scopes : List ReleaseScope} {files paths : List Text} {path : Text}
  {rowCount byteCount : Nat} {artifact : ParsedCorpusArtifact}
  {artifacts : List ParsedCorpusArtifact}

/-- A provisions artifact is a candidate when its scope is one of the requested. -/
theorem isCandidateArtifact_iff {artifact : VerifiedReleaseArtifact}
    (plain : isScopeComponent scope.jurisdiction = true ∧
      isScopeComponent scope.documentClass = true ∧ isScopeComponent scope.version = true)
    (requested : ∀ other ∈ scopes, other.jurisdiction = jurisdiction ∧
      other.documentClass = documentClass) (path : artifact.path = scope.provisionsPath)
    (provisions : artifact.artifactClass = .provisions) :
    isCandidateArtifact (scopes.map ReleaseScope.version) jurisdiction documentClass artifact =
      true ↔ scope ∈ scopes := by
  have suffix : ".jsonl".toList.isSuffixOf (scope.version ++ ".jsonl".toList) = true :=
    List.isSuffixOf_iff_suffix.mpr (List.suffix_append _ _)
  have stem : (scope.version ++ ".jsonl".toList).take
      ((scope.version ++ ".jsonl".toList).length - 6) = scope.version := by
    rw [List.length_append]
    exact List.take_left
  simp only [isCandidateArtifact, provisions, path, decide_true, Bool.true_and,
    splitOn_provisionsPath plain, suffix, stem, Bool.and_true, Bool.and_eq_true,
    decide_eq_true_eq, List.contains_iff_mem, List.mem_map]
  constructor
  · rintro ⟨⟨sameJurisdiction, sameClass⟩, other, member, sameVersion⟩
    obtain ⟨otherJurisdiction, otherClass⟩ := requested other member
    have same : other = scope := ReleaseScope.ext (otherJurisdiction.trans sameJurisdiction.symm)
      (otherClass.trans sameClass.symm) sameVersion
    exact same ▸ member
  · intro member
    exact ⟨requested scope member, scope, member, rfl⟩

theorem mem_scopesOf :
    scope ∈ scopesOf release jurisdiction documentClass ↔
      scope ∈ release.scopes ∧ scope.jurisdiction = jurisdiction ∧
        scope.documentClass = documentClass := by
  simp only [scopesOf, List.mem_filter, Bool.and_eq_true, decide_eq_true_eq]

theorem mapM_eq_ok_map {α β ε : Type} {f : α → Except ε β} {g : α → β} {xs : List α}
    {ys : List β} (value : ∀ x ∈ xs, ∀ y, f x = .ok y → y = g x) (mapped : xs.mapM f = .ok ys) :
    ys = xs.map g := by
  induction xs generalizing ys with
  | nil => exact (Except.ok.inj (show Except.ok [] = Except.ok ys from mapped)).symm
  | cons x xs ih =>
    obtain ⟨y, rest, head, tail, rfl⟩ := mapM_cons_eq_ok_iff.mp mapped
    rw [List.map_cons, value x List.mem_cons_self y head,
      ih (fun z hz => value z (List.mem_cons_of_mem _ hz)) tail]

/-- The files of the requested scopes are the paths of the candidates, in order. -/
theorem candidateProvisionFiles_eq
    (listed : candidateProvisionFiles host release jurisdiction documentClass scopes =
      .ok files) :
    files = if scopes.isEmpty then [] else
      (release.artifacts.filter (isCandidateArtifact (scopes.map ReleaseScope.version)
        jurisdiction documentClass)).map VerifiedReleaseArtifact.path := by
  unfold candidateProvisionFiles at listed
  split
  next none_ =>
    rw [if_pos none_] at listed
    exact (Except.ok.inj listed).symm
  next some_ =>
    rw [if_neg some_] at listed
    simp only [bind_eq_ok_iff, require_eq_ok_iff, exists_const] at listed
    obtain ⟨candidates, mapped, -, last⟩ := listed
    cases Except.ok.inj last
    refine mapM_eq_ok_map ?_ mapped
    intro artifact _ path found
    obtain ⟨raw, -, done⟩ := bind_eq_ok_iff.mp found
    cases raw with
    | none => cases done
    | some raw => exact (Except.ok.inj done).symm

theorem nodup_candidateProvisionFiles
    (listed : candidateProvisionFiles host release jurisdiction documentClass scopes =
      .ok files) : files.Nodup := by
  rw [candidateProvisionFiles_eq listed]
  split
  · exact .nil
  · exact release.pathsDistinct.sublist (List.filter_sublist.map _)

theorem mem_candidateProvisionFiles
    (listed : candidateProvisionFiles host release jurisdiction documentClass
      (scopesOf release jurisdiction documentClass) = .ok files) :
    path ∈ files ↔ ∃ scope ∈ scopesOf release jurisdiction documentClass,
      path = scope.provisionsPath := by
  rw [candidateProvisionFiles_eq listed]
  cases none_ : (scopesOf release jurisdiction documentClass).isEmpty with
  | true => simp [List.isEmpty_iff.mp none_]
  | false =>
    rw [if_neg Bool.false_ne_true, List.mem_map]
    constructor
    · rintro ⟨artifact, member, rfl⟩
      obtain ⟨inventory, candidate⟩ := List.mem_filter.mp member
      have provisions : artifact.artifactClass = .provisions := by
        simp only [isCandidateArtifact, Bool.and_eq_true, decide_eq_true_eq] at candidate
        exact candidate.1
      obtain ⟨scope, declared, path⟩ := release.claimed artifact inventory provisions
      exact ⟨scope, (isCandidateArtifact_iff (release.scopeComponents scope declared)
        (fun _ requested => (mem_scopesOf.mp requested).2) path provisions).mp candidate, path⟩
    · rintro ⟨scope, active, rfl⟩
      have declared := (List.mem_filter.mp active).1
      obtain ⟨artifact, inventory, provisions, path⟩ := release.provided scope declared
      exact ⟨artifact, List.mem_filter.mpr ⟨inventory,
        (isCandidateArtifact_iff (release.scopeComponents scope declared)
          (fun _ requested => (mem_scopesOf.mp requested).2) path provisions).mpr active⟩, path⟩

/-- The rows of a file are numbered by their lines, from the first line on. -/
theorem parseRows_lineNumbers {lines : List Text} {lineNumber : Nat} {rows : List (Nat × Record)}
    (parsed : parseRows host release path lines lineNumber rowCount = .ok rows) :
    (rows.map Prod.fst).Nodup ∧ ∀ row ∈ rows, lineNumber ≤ row.1 := by
  induction lines generalizing lineNumber rowCount rows with
  | nil =>
    cases Except.ok.inj parsed
    exact ⟨.nil, nofun⟩
  | cons line rest ih =>
    rw [parseRows] at parsed
    split at parsed
    · obtain ⟨distinct, later⟩ := ih parsed
      exact ⟨distinct, fun row member => by have := later row member; omega⟩
    · split at parsed
      · cases parsed
      · split at parsed
        · cases parsed
        · obtain ⟨others, tail, last⟩ := bind_eq_ok_iff.mp parsed
          cases Except.ok.inj last
          obtain ⟨distinct, later⟩ := ih tail
          constructor
          · refine List.nodup_cons.mpr ⟨?_, distinct⟩
            intro again
            obtain ⟨row, member, same⟩ := List.mem_map.mp again
            have := later row member
            omega
          · intro row member
            rcases List.mem_cons.mp member with rfl | member
            · exact le_refl _
            · have := later row member
              omega
      · cases parsed

theorem readCorpusArtifact_lineNumbers
    (read : readCorpusArtifact host release path = .ok artifact) :
    (artifact.rows.map Prod.fst).Nodup := by
  obtain ⟨raw, -, checked⟩ := bind_eq_ok_iff.mp read
  split at checked
  · cases checked
  · simp only [bind_eq_ok_iff, require_eq_ok_iff, exists_const] at checked
    obtain ⟨-, -, decoded⟩ := checked
    split at decoded
    · cases decoded
    · obtain ⟨rows, parsed, last⟩ := bind_eq_ok_iff.mp decoded
      cases Except.ok.inj last
      exact (parseRows_lineNumbers parsed).1

theorem readCorpusArtifact_path (read : readCorpusArtifact host release path = .ok artifact) :
    artifact.path = path := by
  obtain ⟨raw, -, checked⟩ := bind_eq_ok_iff.mp read
  split at checked
  · cases checked
  · simp only [bind_eq_ok_iff, require_eq_ok_iff, exists_const] at checked
    obtain ⟨-, -, decoded⟩ := checked
    split at decoded
    · cases decoded
    · obtain ⟨rows, -, last⟩ := bind_eq_ok_iff.mp decoded
      cases Except.ok.inj last
      rfl

theorem readWithinBudget_paths
    (read : readWithinBudget host release paths byteCount rowCount = .ok artifacts) :
    artifacts.map ParsedCorpusArtifact.path = paths := by
  induction paths generalizing byteCount rowCount artifacts with
  | nil =>
    cases Except.ok.inj read
    rfl
  | cons path rest ih =>
    simp only [readWithinBudget, bind_eq_ok_iff, require_eq_ok_iff, exists_const] at read
    obtain ⟨artifact, first, -, -, later, tail, last⟩ := read
    cases Except.ok.inj last
    rw [List.map_cons, readCorpusArtifact_path first, ih tail]

theorem readWithinBudget_lineNumbers
    (read : readWithinBudget host release paths byteCount rowCount = .ok artifacts) :
    ∀ artifact ∈ artifacts, (artifact.rows.map Prod.fst).Nodup := by
  induction paths generalizing byteCount rowCount artifacts with
  | nil =>
    cases Except.ok.inj read
    exact nofun
  | cons path rest ih =>
    simp only [readWithinBudget, bind_eq_ok_iff, require_eq_ok_iff, exists_const] at read
    obtain ⟨artifact, first, -, -, later, tail, last⟩ := read
    cases Except.ok.inj last
    exact List.forall_mem_cons.mpr ⟨readCorpusArtifact_lineNumbers first, ih tail⟩

/-- No two rows of a class are stored at one line of one file. -/
theorem readClassArtifacts_distinct
    (read : readClassArtifacts host release jurisdiction documentClass = .ok artifacts) :
    (artifacts.map ParsedCorpusArtifact.path).Nodup ∧
      ∀ artifact ∈ artifacts, (artifact.rows.map Prod.fst).Nodup := by
  obtain ⟨files, listed, checked⟩ := bind_eq_ok_iff.mp read
  obtain ⟨-, -, within⟩ := bind_eq_ok_iff.mp checked
  rw [readWithinBudget_paths within]
  exact ⟨nodup_candidateProvisionFiles listed, readWithinBudget_lineNumbers within⟩

/-- **The artifacts read are the provision files of the scopes of the class.** -/
theorem mem_readClassArtifacts
    (read : readClassArtifacts host release jurisdiction documentClass = .ok artifacts) :
    path ∈ artifacts.map ParsedCorpusArtifact.path ↔
      ∃ scope ∈ scopesOf release jurisdiction documentClass, path = scope.provisionsPath := by
  obtain ⟨files, listed, checked⟩ := bind_eq_ok_iff.mp read
  obtain ⟨-, -, within⟩ := bind_eq_ok_iff.mp checked
  rw [readWithinBudget_paths within]
  exact mem_candidateProvisionFiles listed

end

end AxiomEncode.Corpus
