/-
# Corpus.ResolveNearest -- the row a resolution returns

The candidates are the path and its lookup parents, each shorter than the one
before.  A resolution that returns went past candidates without active claims
and stopped at the first one that has a claim, so its row is the only active
claim of the nearest claimed path.  Rows are read place by place and composed
without looking at places, so the order of rows and artifacts is immaterial.
-/
import AxiomEncode.Corpus.Resolve
import AxiomEncode.Corpus.RowsSpec

namespace AxiomEncode.Corpus

open Theory

set_option autoImplicit false

/-! ## The candidates -/

/-- The path and its lookup parents, longest first. -/
def lookupPaths (citationPath : CitationPath) : List CitationPath :=
  citationPath :: parentCitationPaths citationPath

theorem parentCitationPaths_spec {citationPath parent : CitationPath}
    (member : parent ∈ parentCitationPaths citationPath) :
    ∃ step, step < citationPath.length - 3 ∧
      parent = citationPath.take (citationPath.length - 1 - step) := by
  unfold parentCitationPaths at member
  split at member
  · simp at member
  · obtain ⟨step, hs, rfl⟩ := List.mem_map.mp member
    exact ⟨step, List.mem_range.mp hs, rfl⟩

theorem lookupPaths_pairwise (citationPath : CitationPath) :
    (lookupPaths citationPath).Pairwise fun nearer farther => farther.length < nearer.length := by
  refine List.pairwise_cons.mpr ⟨?_, ?_⟩
  · intro parent member
    obtain ⟨step, hs, rfl⟩ := parentCitationPaths_spec member
    rw [List.length_take]
    omega
  · unfold parentCitationPaths
    split
    · exact .nil
    · refine List.pairwise_map.mpr (List.pairwise_lt_range.imp_of_mem ?_)
      intro first second hf hs less
      simp only [List.mem_range] at hf hs
      rw [List.length_take, List.length_take]
      omega

theorem lookupPaths_nodup (citationPath : CitationPath) : (lookupPaths citationPath).Nodup :=
  (lookupPaths_pairwise citationPath).imp fun shorter same => by simp [same] at shorter

/-- A lookup path keeps the jurisdiction and the document class. -/
theorem lookupPaths_take_two {citationPath path : CitationPath}
    (member : path ∈ lookupPaths citationPath) : path.take 2 = citationPath.take 2 := by
  rcases List.mem_cons.mp member with rfl | parent
  · rfl
  · obtain ⟨step, hs, rfl⟩ := parentCitationPaths_spec parent
    rw [List.take_take, Nat.min_eq_left (by omega)]

/-- No parent is met twice, so every one of them becomes a candidate. -/
theorem parentCandidates_eq (requested : CitationPath) :
    ∀ (parents seen : List CitationPath), parents.Nodup → (∀ path ∈ parents, path ∉ seen) →
      parentCandidates requested parents seen = parents.map fun path => ⟨path, requested, true⟩
  | [], _, _, _ => rfl
  | parent :: rest, seen, nodup, fresh => by
    obtain ⟨first, nodup⟩ := List.nodup_cons.mp nodup
    rw [parentCandidates, if_neg (fresh parent List.mem_cons_self), List.map_cons,
      parentCandidates_eq requested rest (parent :: seen) nodup]
    intro path member
    rw [List.mem_cons, not_or]
    exact ⟨fun same => first (same ▸ member), fresh path (List.mem_cons_of_mem _ member)⟩

theorem citationLookupGroups_eq (citationPath : CitationPath) :
    citationLookupGroups citationPath =
      (lookupPaths citationPath).map fun path => ⟨path, citationPath, path ≠ citationPath⟩ := by
  have nodup := List.nodup_cons.mp (lookupPaths_nodup citationPath)
  have fresh : ∀ path ∈ parentCitationPaths citationPath, path ≠ citationPath :=
    fun path member same => nodup.1 (same ▸ member)
  rw [citationLookupGroups, lookupPaths, List.map_cons, parentCandidates_eq citationPath _ _ nodup.2
    fun path member => by simpa using fresh path member]
  congr 1
  · simp
  · refine List.map_congr_left fun path member => ?_
    simp [fresh path member]

/-! ## Descendants over all artifacts -/

section Descendants

variable {host : Host} {release : LocalCorpusRelease} {activeScopes : List ReleaseScope}
  {path : CitationPath}

theorem readDescendants_eq_ok_iff {artifacts : List ParsedCorpusArtifact}
    {before descendants : List StoredRecord} :
    readDescendants host release path activeScopes artifacts before = .ok descendants ↔
      ∃ found, collect (readDescendantRecords host release path activeScopes) artifacts =
          .ok found ∧ descendants = before ++ found ∧
        (artifacts = [] ∨ descendants.length ≤ maxCorpusDescendantRows) := by
  induction artifacts generalizing before with
  | nil =>
    simp only [readDescendants, collect, Except.ok.injEq, true_or, and_true]
    constructor
    · rintro rfl
      exact ⟨[], rfl, (List.append_nil _).symm⟩
    · rintro ⟨found, rfl, rfl⟩
      exact (List.append_nil _).symm
  | cons artifact rest ih =>
    simp only [readDescendants, bind_eq_ok_iff, require_eq_ok_iff, decide_eq_true_eq,
      exists_and_left, exists_const, ih, collect_cons_eq_ok_iff, reduceCtorEq, false_or]
    constructor
    · rintro ⟨here, first, few, found, tail, rfl, within⟩
      refine ⟨here ++ found, ⟨here, first, found, tail, rfl⟩, List.append_assoc _ _ _, ?_⟩
      rcases within with rfl | within
      · cases Except.ok.inj (show Except.ok [] = Except.ok found from tail)
        rwa [List.append_nil]
      · exact within
    · rintro ⟨found, ⟨here, first, later, tail, rfl⟩, rfl, within⟩
      refine ⟨here, first, ?_, later, tail, (List.append_assoc _ _ _).symm, .inr within⟩
      simp only [List.length_append] at within ⊢
      omega

/-- All descendants were read and there are not too many. -/
theorem readDescendants_nil_eq_ok_iff {artifacts : List ParsedCorpusArtifact}
    {descendants : List StoredRecord} :
    readDescendants host release path activeScopes artifacts [] = .ok descendants ↔
      collect (readDescendantRecords host release path activeScopes) artifacts = .ok descendants ∧
        descendants.length ≤ maxCorpusDescendantRows := by
  rw [readDescendants_eq_ok_iff]
  constructor
  · rintro ⟨found, read, rfl, within⟩
    refine ⟨read, ?_⟩
    rcases within with rfl | within
    · cases Except.ok.inj (show Except.ok [] = Except.ok _ from read)
      exact Nat.zero_le _
    · exact within
  · rintro ⟨read, within⟩
    exact ⟨descendants, read, rfl, .inr within⟩

end Descendants

/-! ## Where a resolution stops -/

section Stop

variable {host : Host} {release : LocalCorpusRelease} {sliceParentBody : Slicer}
  {identifier : Text} {citationPath : CitationPath} {artifacts : List ParsedCorpusArtifact}
  {activeScopes : List ReleaseScope}

/-- A resolution that returns passed over candidates without records and used
the single record of the next one. -/
theorem resolveCandidates_eq_ok_iff {source : ResolvedCorpusSource} :
    ∀ {candidates : List LookupCandidate} {inactiveMatch : Bool},
      resolveCandidates host release sliceParentBody identifier citationPath artifacts
          activeScopes candidates inactiveMatch = .ok source ↔
        ∃ passed candidate rest selected, candidates = passed ++ candidate :: rest ∧
          (∀ other ∈ passed, collect (readMatchingRecords host release other.citationPath
            activeScopes) artifacts = .ok []) ∧
          collect (readMatchingRecords host release candidate.citationPath activeScopes)
            artifacts = .ok [selected] ∧
          resolveSelected host release sliceParentBody identifier artifacts activeScopes
            candidate selected = .ok source := by
  intro candidates
  induction candidates with
  | nil =>
    intro inactiveMatch
    cases inactiveMatch <;> simp [resolveCandidates]
  | cons candidate rest ih =>
    intro inactiveMatch
    rw [resolveCandidates, bind_eq_ok_iff]
    constructor
    · rintro ⟨records, read, done⟩
      cases records with
      | nil =>
        obtain ⟨passed, found, later, selected, rfl, empty, one, used⟩ := ih.mp done
        exact ⟨candidate :: passed, found, later, selected, rfl,
          List.forall_mem_cons.mpr ⟨read, empty⟩, one, used⟩
      | cons selected more =>
        cases more with
        | nil => exact ⟨[], candidate, rest, selected, rfl, by simp, read, done⟩
        | cons other more => cases done
    · rintro ⟨passed, found, later, selected, whole, empty, one, used⟩
      cases passed with
      | nil =>
        obtain ⟨rfl, rfl⟩ := List.cons.inj whole
        exact ⟨[selected], one, used⟩
      | cons head passed =>
        obtain ⟨rfl, rfl⟩ := List.cons.inj whole
        refine ⟨[], empty _ List.mem_cons_self, ih.mpr ?_⟩
        exact ⟨passed, found, later, selected, rfl,
          fun other member => empty other (List.mem_cons_of_mem _ member), one, used⟩

/-- Past candidates without records, two records at the next one are ambiguous. -/
theorem resolveCandidates_ambiguous {passed rest : List LookupCandidate}
    {candidate : LookupCandidate} {records : List StoredRecord}
    (empty : ∀ other ∈ passed, collect (readMatchingRecords host release other.citationPath
      activeScopes) artifacts = .ok [])
    (read : collect (readMatchingRecords host release candidate.citationPath activeScopes)
      artifacts = .ok records) (several : 2 ≤ records.length) :
    ∀ inactiveMatch, resolveCandidates host release sliceParentBody identifier citationPath
        artifacts activeScopes (passed ++ candidate :: rest) inactiveMatch =
      .error (.ambiguousSource citationPath.text (records.map StoredRecord.row)) := by
  induction passed with
  | nil =>
    intro inactiveMatch
    rw [List.nil_append, resolveCandidates, read]
    match records, several with
    | _ :: _ :: _, _ => rfl
  | cons head passed ih =>
    intro inactiveMatch
    rw [List.cons_append, resolveCandidates, empty head List.mem_cons_self]
    exact ih (fun other member => empty other (List.mem_cons_of_mem _ member)) _

end Stop

end AxiomEncode.Corpus
