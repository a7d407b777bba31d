/-
# Statute.Files -- the file of a citation

The file that `citationToRelativeRulespecPath` names keeps all segments of a citation but
the last as directories, and of the last only what comes before its suffix: two citations
whose last segments differ in what follows the last dot are written to one file.  An
identifier of the corpus goes the other way and takes such a segment for two.
-/
import AxiomEncode.Statute.CitationSpec

namespace AxiomEncode.Statute

open Theory

set_option autoImplicit false

theorem yaml_eq : yaml = ['.', 'y', 'a', 'm', 'l'] := by decide

/-- The stem of a name with the suffix is the name. -/
theorem stem_append_yaml {name : Text} (nonempty : name ≠ []) : stem (name ++ yaml) = name := by
  have positive : 0 < name.length := List.length_pos_iff.mpr nonempty
  have length : stemLength (name ++ yaml) = name.length := by
    unfold stemLength
    have tail : ((name ++ yaml).reverse.takeWhile (· ≠ '.')).length = 4 := by
      rw [yaml_eq, List.reverse_append]
      simp
    have dots : (name ++ yaml).contains '.' = true := by
      rw [yaml_eq]
      simp
    have size : (name ++ yaml).length = name.length + 5 := by
      rw [yaml_eq]
      simp
    simp only [tail, dots, size]
    rw [if_pos]
    · omega
    · simp
      omega
  rw [stem, length, List.take_left']
  rfl

theorem stem_yaml : stem yaml = yaml := by decide

namespace CitationParts

variable {parts other : CitationParts}

/-- The last segment. -/
def leaf (parts : CitationParts) : Text := parts.segments.getLast (List.cons_ne_nil _ _)

/-- The segments before it. -/
def directories (parts : CitationParts) : List Text := parts.segments.dropLast

theorem directories_append_leaf (parts : CitationParts) :
    parts.directories ++ [parts.leaf] = parts.segments :=
  List.dropLast_append_getLast _

theorem Valid.leaf (valid : parts.Valid) : isSegment parts.leaf = true :=
  valid _ (List.getLast_mem _)

theorem Valid.directories (valid : parts.Valid) :
    ∀ segment ∈ parts.directories, isSegment segment = true := fun segment member =>
  valid segment (List.dropLast_subset _ member)

/-- Two citations that differ at most in the suffix of their last segments. -/
def SameStem (parts other : CitationParts) : Prop :=
  parts.directories = other.directories ∧ stem parts.leaf = stem other.leaf

end CitationParts

theorem pathOf_of_valid {segments : List Text}
    (valid : ∀ segment ∈ segments, isSegment segment = true) : pathOf segments = segments := by
  refine List.filter_eq_self.mpr fun segment member => ?_
  obtain ⟨nonempty, -, dot, -⟩ := isSegment_iff.mp (valid segment member)
  simp [nonempty, dot]

theorem withYamlSuffix_append (directories : List Text) (name : Text) :
    withYamlSuffix (directories ++ [name]) = some (directories ++ [stem name ++ yaml]) := by
  simp [withYamlSuffix]

def statutes : Text := ['s', 't', 'a', 't', 'u', 't', 'e', 's']

theorem statutes_eq : "statutes".toList = statutes := by decide

/-- **The file of a citation**: its segments, the last one without its suffix. -/
theorem citationToRelativeRulespecPath_eq {parts : CitationParts} (valid : parts.Valid) :
    citationToRelativeRulespecPath parts =
      some (statutes :: (parts.directories ++ [stem parts.leaf ++ yaml])) := by
  obtain ⟨title, section_, fragments⟩ := parts
  have validTitle := valid.title
  have validSection := valid.section_
  have validFragments := valid.fragments
  have root : isSegment statutes = true := by decide
  have sectionPath : pathOf [statutes, title, section_] = [statutes, title, section_] := by
    refine pathOf_of_valid fun segment member => ?_
    simp only [List.mem_cons, List.not_mem_nil, or_false] at member
    obtain rfl | rfl | rfl := member
    · exact root
    · exact validTitle
    · exact validSection
  unfold citationToRelativeRulespecPath
  simp only [statutes_eq, normalize_of_isSegment validTitle, normalize_of_isSegment validSection,
    sectionPath]
  cases fragments using List.reverseRecOn with
  | nil =>
    rw [if_pos rfl]
    exact withYamlSuffix_append [statutes, title] section_
  | append_singleton rest last =>
    have same : (rest ++ [last]).map normalizeRulespecPathSegment = rest ++ [last] :=
      (List.map_congr_left fun segment member =>
        normalize_of_isSegment (validFragments segment member)).trans (List.map_id _)
    rw [if_neg (by simp), same, pathOf_of_valid validFragments, withYamlSuffix_append]
    simp [CitationParts.directories, CitationParts.leaf, CitationParts.segments,
      List.dropLast_cons_of_ne_nil]

/-- **Two citations share a file** exactly if they agree up to the suffix of their last segments. -/
theorem samePath_iff {parts other : CitationParts} (valid : parts.Valid) (valid' : other.Valid) :
    citationToRelativeRulespecPath parts = citationToRelativeRulespecPath other ↔
      parts.SameStem other := by
  rw [citationToRelativeRulespecPath_eq valid, citationToRelativeRulespecPath_eq valid',
    Option.some.injEq, List.cons.injEq, List.append_singleton_inj, List.append_left_inj]
  simp [CitationParts.SameStem]

/-! ## The identifier of the corpus -/

/-- Parts that are joined end with the last of them. -/
theorem exists_intercalate_append {α : Type} (sep : α) (parts : List (List α)) (last : List α) :
    ∃ before, [sep].intercalate (parts ++ [last]) = before ++ last := by
  induction parts with
  | nil => exact ⟨[], by simp [List.intercalate]⟩
  | cons part rest ih =>
    obtain ⟨before, shape⟩ := ih
    obtain ⟨next, more, isCons⟩ := List.exists_cons_of_ne_nil
      (show rest ++ [last] ≠ [] from List.append_ne_nil_of_right_ne_nil _ (List.cons_ne_nil _ _))
    refine ⟨part ++ [sep] ++ before, ?_⟩
    rw [List.cons_append, isCons, List.intercalate_cons_cons, ← isCons, shape]
    simp

section

variable {parts : CitationParts}

/-- A citation path has no slash on its ends. -/
theorem stripChars_slash_path (valid : parts.Valid) :
    stripChars (· == '/') (strip (citationToCitationPath parts)) = citationToCitationPath parts := by
  have stripped : strip (citationToCitationPath parts) = citationToCitationPath parts := by
    refine stripChars_of_all fun c member => ?_
    obtain rfl | segment := CitationParts.mem_path valid member
    · decide
    · exact isSpace_of_isSegmentChar segment
  rw [stripped]
  refine stripChars_eq_self (fun c first => ?_) fun c last => ?_
  · rw [CitationParts.path_eq, List.intercalate_cons_cons] at first
    obtain rfl := Option.some.inj first
    decide
  · have leafValid := valid.leaf
    have shape : ∃ before, citationToCitationPath parts = before ++ parts.leaf := by
      have whole : us :: statute :: parts.segments =
          (us :: statute :: parts.directories) ++ [parts.leaf] := by
        rw [List.cons_append, List.cons_append, parts.directories_append_leaf]
      rw [CitationParts.path_eq, whole]
      exact exists_intercalate_append _ _ _
    obtain ⟨before, shape⟩ := shape
    rw [shape, List.getLast?_append_of_ne_nil _ (isSegment_iff.mp leafValid).1] at last
    have ne : c ≠ '/' := by
      rintro rfl
      exact not_mem_of_isSegment leafValid (by decide) (List.mem_of_getLast? last)
    simpa using ne

theorem slashParts_path (valid : parts.Valid) :
    slashParts (citationToCitationPath parts) = us :: statute :: parts.segments := by
  rw [CitationParts.path_eq, CitationParts.slashParts_intercalate (CitationParts.valid_path valid)
    (List.cons_ne_nil _ _)]

theorem identifierParts_path (valid : parts.Valid) :
    identifierParts (citationToCitationPath parts) = us :: statute :: parts.segments := by
  unfold identifierParts
  rw [stripChars_slash_path valid, slashParts_path valid]
  exact (List.map_congr_left fun segment member =>
    normalize_of_isSegment (CitationParts.valid_path valid segment member)).trans (List.map_id _)

theorem looksLike_path (valid : parts.Valid) :
    looksLikeCorpusCitationPath (citationToCitationPath parts) = true := by
  have known : statute ∈ rulespecSourceRootTokens := by decide
  unfold looksLikeCorpusCitationPath
  rw [stripChars_slash_path valid, slashParts_path valid]
  simp [CitationParts.segments, known]

/-- The place of a citation of the code. -/
theorem firstPlace_path (title : Text) (rest : List Text) :
    firstPlace (us :: statute :: title :: rest) =
      .ok (some (statutes :: dottedLeafToNestedYamlPath (title :: rest))) := by
  have noColon : us.contains ':' = false := by decide
  have notRoot : rulespecSourceRootTokens.contains us = false := by decide
  have root : rulespecOutputRootBySourceToken.lookup statute = some statutes := by decide
  have prefixed : placePrefixed (us :: statute :: title :: rest) = .ok none := by
    unfold placePrefixed
    simp only [noColon, Bool.false_and, Bool.false_eq_true, if_false]
  have rooted : placeRooted (us :: statute :: title :: rest) = none := by
    unfold placeRooted
    simp only [notRoot, Bool.false_eq_true, if_false]
  have notLouisiana : us ≠ "us-la".toList := by decide
  have notColorado : us ≠ "us-co".toList := by decide
  have notKingdom : us ≠ "uk".toList := by decide
  have notRegulation :
      ["regulation".toList, "regulations".toList].contains statute = false := by decide
  have tail : canonicalTail us statute statutes (title :: rest) = .ok (title :: rest) := by
    unfold canonicalTail expandLouisianaTitleSectionTail
    simp only [notLouisiana, notKingdom, notRegulation, ne_eq, not_false_eq_true, decide_true,
      Bool.true_or, if_true, Bool.and_false, Bool.false_eq_true, if_false]
    rfl
  have placed : placeTail us statutes (title :: rest) =
      some (statutes :: dottedLeafToNestedYamlPath (title :: rest)) := by
    have plain : preserveStateStatuteDottedLeaf us statutes (title :: rest) = false := by
      unfold preserveStateStatuteDottedLeaf
      rw [if_pos (by simp only [ne_eq, notColorado, not_false_eq_true, decide_true, Bool.true_or])]
    unfold placeTail
    rw [if_neg (List.cons_ne_nil _ _), plain, if_neg (by decide)]
  have jurisdiction : placeJurisdiction (us :: statute :: title :: rest) =
      .ok (some (statutes :: dottedLeafToNestedYamlPath (title :: rest))) := by
    unfold placeJurisdiction
    simp only [root]
    exact bind_eq_ok_iff.mpr ⟨title :: rest, tail, congrArg Except.ok placed⟩
  unfold firstPlace
  refine bind_eq_ok_iff.mpr ⟨none, prefixed, ?_⟩
  simp only [rooted]
  exact jurisdiction

/-- The file of a citation path. -/
theorem targetRel_path (bareCitationPath : Text → Except Text Text) (valid : parts.Valid) :
    targetRelForEvalIdentifier bareCitationPath (citationToCitationPath parts) =
      .ok (some (statutes :: dottedLeafToNestedYamlPath parts.segments)) := by
  have safe : ((us :: statute :: parts.segments).any fun part => part = ['.'] || part = ['.', '.']) =
      false := by
    rw [List.any_eq_false]
    intro segment member
    obtain ⟨-, -, dot, dots⟩ :=
      isSegment_iff.mp (CitationParts.valid_path valid segment member)
    simp [dot, dots]
  have first : ((citationToCitationPath parts).takeWhile (· ≠ '/')).contains ':' = false := by
    simp only [List.contains_eq_mem, decide_eq_false_iff_not]
    intro member
    obtain bad | segment := CitationParts.mem_path valid ((List.takeWhile_prefix _).subset member)
    · exact absurd bad (by decide)
    · exact absurd segment (by decide)
  have source : sourceIdentifierToRelativeRulespecPath (citationToCitationPath parts) =
      .ok (statutes :: dottedLeafToNestedYamlPath parts.segments) := by
    unfold sourceIdentifierToRelativeRulespecPath
    rw [identifierParts_path valid]
    refine bind_eq_ok_iff.mpr ⟨(), require_eq_ok_iff.mpr (by rw [safe]; rfl), ?_⟩
    exact bind_eq_ok_iff.mpr ⟨_, firstPlace_path _ _, rfl⟩
  unfold targetRelForEvalIdentifier
  simp only [stripChars_slash_path valid, first, Bool.false_and, Bool.false_eq_true, if_false,
    looksLike_path valid, if_true, source]
  rfl

end

end AxiomEncode.Statute
