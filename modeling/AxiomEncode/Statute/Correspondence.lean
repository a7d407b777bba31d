/-
# Statute.Correspondence -- citations and files, one to one

`Corresponds` is what a citation owes another one and its readers: both of its forms are
read back to it, no other citation has its file, and the file that the corpus gives its
path to is followed back to it.  `corresponds_iff` says for which citations that is so:
a suffix of the last segment is lost on the way to the file and is a level of its own for
the corpus.
-/
import AxiomEncode.Statute.Files

namespace AxiomEncode.Statute

open Theory

set_option autoImplicit false

variable {parts other : CitationParts}

/-- The last segment stays one name in the corpus. -/
def CitationParts.LeafStays (parts : CitationParts) : Prop :=
  '.' ∉ parts.leaf ∨ preserveDottedLeafFilename parts.segments = true

/-- Reading a path of segments back. -/
theorem partsOfPath_append (title : Text) (directories : List Text) (name : Text) :
    (partsOfPath (statutes :: title :: (directories ++ [name]))).map CitationParts.segments =
      some (title :: (directories ++ [stem name])) := by
  cases directories with
  | nil =>
    rw [List.nil_append, partsOfPath, statutes_eq, if_neg (by decide), if_pos rfl]
    rfl
  | cons first rest =>
    rw [List.cons_append, partsOfPath, statutes_eq, if_neg (by decide), if_neg (by simp)]
    simp [CitationParts.segments]

/-- A name without dots is one segment. -/
theorem getLastD_segments (parts : CitationParts) : parts.segments.getLastD [] = parts.leaf := by
  rw [← parts.directories_append_leaf]
  simp

theorem dropLast_segments (parts : CitationParts) : parts.segments.dropLast = parts.directories := rfl

/-- Where the leaf stays one name, the path of the corpus is that of the segments. -/
theorem dottedLeaf_of_stays (valid : parts.Valid) (stays : parts.LeafStays) :
    dottedLeafToNestedYamlPath parts.segments = parts.directories ++ [parts.leaf ++ yaml] := by
  have place : yamlFile parts.directories parts.leaf = parts.directories ++ [parts.leaf ++ yaml] := by
    rw [yamlFile, pathOf_of_valid valid.directories]
  unfold dottedLeafToNestedYamlPath
  rw [getLastD_segments, dropLast_segments]
  by_cases kept : preserveDottedLeafFilename parts.segments = true
  · rw [if_pos kept, place]
  · rw [if_neg kept, List.splitOn_eq_singleton (stays.resolve_right kept)]
    simpa using place

/-- The title and what follows it, but for the leaf. -/
theorem exists_directories (parts : CitationParts) :
    ∃ rest, parts.directories = parts.title :: rest ∧ parts.segments = parts.title :: (rest ++ [parts.leaf]) := by
  obtain ⟨title, section_, fragments⟩ := parts
  refine ⟨(section_ :: fragments).dropLast, rfl, ?_⟩
  conv_lhs => rw [← CitationParts.directories_append_leaf]
  rfl

/-- The leaf that is read back is the stem of the file. -/
theorem leaf_of_partsOfPath {path : RulePath} {name : Text}
    (back : partsOfPath (path ++ [name]) = some parts) : parts.leaf = stem name := by
  match path, back with
  | [], back => cases back
  | [root], back => cases back
  | [root, title], back =>
    simp only [List.cons_append, List.nil_append, partsOfPath] at back
    split_ifs at back
    obtain rfl := Option.some.inj back
    rfl
  | root :: title :: first :: rest, back =>
    simp only [List.cons_append, partsOfPath] at back
    split_ifs at back with _ empty
    · simp at empty
    · obtain rfl := Option.some.inj back
      simp [CitationParts.leaf, CitationParts.segments]

/-- **The path of the corpus is followed back** exactly if the leaf stays one name. -/
theorem partsOfPath_iff (valid : parts.Valid) :
    partsOfPath (statutes :: dottedLeafToNestedYamlPath parts.segments) = some parts ↔
      parts.LeafStays := by
  constructor
  · intro back
    by_contra moves
    rw [CitationParts.LeafStays, not_or, not_not, Bool.not_eq_true] at moves
    obtain ⟨dotted, notKept⟩ := moves
    unfold dottedLeafToNestedYamlPath at back
    rw [notKept, if_neg (by decide), getLastD_segments, yamlFile, ← List.cons_append] at back
    have isLeaf := leaf_of_partsOfPath back
    have plain : '.' ∉ (parts.leaf.splitOn '.').getLastD [] := by
      rw [List.getLastD_eq_getLast?, List.getLast?_eq_getLast_of_ne_nil (List.splitOn_ne_nil _ _)]
      exact not_mem_of_mem_splitOn (List.getLast_mem _)
    by_cases empty : (parts.leaf.splitOn '.').getLastD [] = []
    · -- A leaf that ends with a dot is read back as the suffix, which does not.
      rw [empty, List.nil_append, stem_yaml] at isLeaf
      rw [isLeaf] at empty
      exact absurd empty (by decide)
    · rw [stem_append_yaml empty] at isLeaf
      rw [← isLeaf] at plain
      exact plain dotted
  · intro stays
    obtain ⟨rest, isDirectories, isSegments⟩ := exists_directories parts
    have back := partsOfPath_append parts.title rest (parts.leaf ++ yaml)
    rw [stem_append_yaml (isSegment_iff.mp valid.leaf).1, ← isSegments] at back
    rw [dottedLeaf_of_stays valid stays, isDirectories]
    obtain ⟨found, isFound, same⟩ := Option.map_eq_some_iff.mp back
    rw [List.cons_append, isFound, CitationParts.segments_injective same]

/-! ## One to one -/

/-- What a citation owes another one and its readers. -/
structure CitationParts.Corresponds (bareCitationPath : Text → Except Text Text)
    (parts other : CitationParts) : Prop where
  text : parseUscCitation parts.text = .ok parts
  path : parseUscCitation (citationToCitationPath parts) = .ok parts
  file : citationToRelativeRulespecPath parts = citationToRelativeRulespecPath other →
    parts = other
  back : citationPartsForEvalIdentifier bareCitationPath (citationToCitationPath parts) =
    .ok (some parts)

theorem citationPartsForEvalIdentifier_path (bareCitationPath : Text → Except Text Text)
    (valid : parts.Valid) :
    citationPartsForEvalIdentifier bareCitationPath (citationToCitationPath parts) =
      .ok (partsOfPath (statutes :: dottedLeafToNestedYamlPath parts.segments)) :=
  bind_eq_ok_iff.mpr ⟨_, targetRel_path bareCitationPath valid, rfl⟩

/-- **Citations and files correspond** exactly where no segment holds `USC`, the last segment is
one name in the corpus, and the other citation is the same or has another stem. -/
theorem corresponds_iff (bareCitationPath : Text → Except Text Text) (parts other : CitationParts)
    (valid : parts.Valid) (otherValid : other.Valid) :
    parts.Corresponds bareCitationPath other ↔
      ¬ parts.MentionsUsc ∧ parts.LeafStays ∧ (parts = other ∨ ¬ parts.SameStem other) := by
  have file : (citationToRelativeRulespecPath parts = citationToRelativeRulespecPath other →
      parts = other) ↔ (parts = other ∨ ¬ parts.SameStem other) := by
    rw [samePath_iff valid otherValid]
    tauto
  have back : citationPartsForEvalIdentifier bareCitationPath (citationToCitationPath parts) =
      .ok (some parts) ↔ parts.LeafStays := by
    rw [citationPartsForEvalIdentifier_path bareCitationPath valid, Except.ok.injEq,
      partsOfPath_iff valid]
  have both := CitationParts.parse_both_iff valid
  constructor
  · intro h
    exact ⟨both.mp ⟨h.text, h.path⟩, back.mp h.back, file.mp h.file⟩
  · rintro ⟨plain, stays, apart⟩
    exact ⟨(both.mpr plain).1, (both.mpr plain).2, file.mpr apart, back.mpr stays⟩

/-! ## Two sections of one title -/

def section161 : CitationParts := ⟨"26".toList, "1.61".toList, []⟩

def section162 : CitationParts := ⟨"26".toList, "1.62".toList, []⟩

/-- **Two provisions in one file**: the sections 1.61 and 1.62. -/
theorem dotted_sections_share_file :
    section161.Valid ∧ section162.Valid ∧
      ¬ section161.Corresponds (fun _ => .error []) section162 := by
  have valid : section161.Valid := by
    unfold CitationParts.Valid
    decide
  have valid' : section162.Valid := by
    unfold CitationParts.Valid
    decide
  refine ⟨valid, valid', fun corresponds => ?_⟩
  have same : citationToRelativeRulespecPath section161 =
      citationToRelativeRulespecPath section162 := by decide
  exact absurd (corresponds.file same) (by decide)

theorem corresponds_sample :
    (CitationParts.Valid ⟨"26".toList, "1".toList, ["a".toList]⟩ ∧ section161.Valid) ∧
      (CitationParts.Corresponds (fun _ => .error []) ⟨"26".toList, "1".toList, ["a".toList]⟩
          section161 ↔
        ¬ CitationParts.MentionsUsc ⟨"26".toList, "1".toList, ["a".toList]⟩ ∧
          CitationParts.LeafStays ⟨"26".toList, "1".toList, ["a".toList]⟩ ∧
          (⟨"26".toList, "1".toList, ["a".toList]⟩ = section161 ∨
            ¬ CitationParts.SameStem ⟨"26".toList, "1".toList, ["a".toList]⟩ section161)) := by
  have valid : CitationParts.Valid ⟨"26".toList, "1".toList, ["a".toList]⟩ := by
    unfold CitationParts.Valid
    decide
  have valid' : section161.Valid := by
    unfold CitationParts.Valid
    decide
  exact ⟨⟨valid, valid'⟩, corresponds_iff _ _ _ valid valid'⟩

end AxiomEncode.Statute
