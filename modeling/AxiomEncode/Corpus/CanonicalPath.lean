/-
# Corpus.CanonicalPath -- normalized paths, canonical or not

Three readers turn a text into a citation path.  `normalizeCitationPath` strips
blanks and then slashes, `normalizeCorpusIdentifier` brings an identifier of a
user into the form of a path first, and `requireCanonicalCorpusCitationPath`
refuses every text that normalization would change.

A normalized path need not be canonical.  A segment may end in a blank, and a
slash behind the blank hides it from the first strip: `us/statute/26 /` is
normalized to `us/statute/26 `, which normalizes to `us/statute/26`.  Nothing
else goes wrong (`normalized_canonical_iff`): the path is canonical iff the text
that was normalized does not end in a blank once it is stripped (`HidesBlank`).
-/
import AxiomEncode.Corpus.Identifier
import AxiomEncode.Statute.Citation
import AxiomEncode.Theory.PyNumber

namespace AxiomEncode.Corpus

open Theory

set_option autoImplicit false

/-! ## The readers -/

/-- `require_canonical_corpus_citation_path` -/
def requireCanonicalCorpusCitationPath (host : Host) (identifier : Text) :
    Except ResolveError CitationPath :=
  match normalizeCitationPath host identifier with
  | .error (.invalidCitation _) => .error (.invalidCitation
      ("Corpus citation path must be an exact canonical " ++
        "<jurisdiction>/<document-class>/... path: " ++ host.quote identifier))
  | .error other => .error other
  | .ok citationPath =>
    if citationPath.text ≠ identifier then .error (.invalidCitation
      ("Corpus citation path must be an exact canonical path; expected " ++
        host.quote citationPath.text ++ ", got " ++ host.quote identifier))
    else .ok citationPath

/-- `_RULESPEC_DOCUMENT_CLASS` -/
def rulespecDocumentClass : List (Text × Text) :=
  [("forms", "form"), ("guidance", "guidance"), ("manuals", "manual"), ("policies", "policy"),
    ("regulations", "regulation"), ("statutes", "statute")].map
      fun entry => (entry.1.toList, entry.2.toList)

section Cfr

/-- A letter in either case. -/
private def letter (c : Char) : Regex := .oneOf [c, c.toUpper]

private def optDot : Regex := .opt (.char '.')

private def citationSpaces : Regex := .plus (.set isSpace)

/-- `[0-9A-Za-z.-]` in any case: the four letters outside ASCII have a case form inside. -/
def isCfrSectionChar (c : Char) : Bool :=
  isAsciiAlnum c || c == '.' || c == '-' || "İıſK".toList.contains c

/-- `(?:\([^)]+\))*` -/
private def parenthesized : Regex :=
  .star (.sequence [.char '(', .plus (.set (· != ')')), .char ')'])

/-- `_CFR_IDENTIFIER_RE`: title in group 1, section in group 2, tail in group 3. -/
def cfrIdentifier : Regex :=
  .sequence [.atStart, .group 1 (.plus (.set fun c => (digit? c).isSome)), citationSpaces,
    letter 'c', optDot, .star (.set isSpace), letter 'f', optDot, .star (.set isSpace),
    letter 'r', optDot, citationSpaces,
    .opt (.seq (.alt (.sequence [letter 'p', letter 'a', letter 'r', letter 't'])
      (.sequence [letter 'p', letter 't', optDot])) citationSpaces),
    .opt (.seq (.plus (.char '§')) (.star (.set isSpace))),
    .group 2 (.plus (.set isCfrSectionChar)), .group 3 parenthesized]

/-- `\(([^)]+)\)` -/
private def parenthesis : Regex :=
  .sequence [.char '(', .group 1 (.plus (.set (· != ')'))), .char ')']

/-- The text a group of a match captured. -/
private def groupText (text : Text) (span : Option (Nat × Nat)) : Text :=
  match span with
  | some (first, last) => Regex.slice text first last
  | none => []

/-- The path of a citation of the Code of Federal Regulations. -/
def cfrPath (value : Text) : Option Text := do
  let found ← (cfrIdentifier.run (.start value)).find? fun cursor => cursor.after.isEmpty
  let tail := groupText value (found.group? 3)
  let fragments := (parenthesis.finditer tail).map fun part => groupText tail (part.span 1)
  let section_ := ((groupText value (found.group? 2)).splitOn '.').filter (· ≠ [])
  some (['/'].intercalate ("us".toList :: "regulation".toList :: groupText value (found.group? 1) ::
    (section_ ++ fragments)))

end Cfr

/-- The parts of a RuleSpec identifier `jurisdiction:root/...`, as a path. -/
def rulespecPath (parts : List Text) : Option Text :=
  match parts with
  | [] => none
  | first :: rest =>
    if first.contains ':' then
      let jurisdiction := first.takeWhile (· ≠ ':')
      let sourceRoot := (first.dropWhile (· ≠ ':')).drop 1
      let documentClass := (rulespecDocumentClass.lookup sourceRoot).getD sourceRoot
      if jurisdiction ≠ [] ∧ documentClass ≠ [] then
        some (['/'].intercalate (jurisdiction :: documentClass :: rest))
      else none
    else none

def couldNotNormalize (host : Host) (identifier : Text) : ResolveError :=
  .invalidCitation ("Could not normalize corpus identifier " ++ host.quote identifier)

/-- `normalize_corpus_identifier` -/
def normalizeCorpusIdentifier (host : Host) (identifier : Text) :
    Except ResolveError CitationPath :=
  let value := stripChars (· == '/') (strip identifier)
  let parts := (value.splitOn '/').filter (· ≠ [])
  if value.isEmpty then .error (.invalidCitation "Corpus citation path must not be empty")
  else
    match rulespecPath parts with
    | some path => normalizeCitationPath host path
    | none =>
      if 2 ≤ parts.length && documentClasses.contains (parts.getD 1 []) then
        normalizeCitationPath host value
      else
        match cfrPath value with
        | some path => normalizeCitationPath host path
        | none =>
          match Statute.parseUscCitation value with
          | .error _ => .error (couldNotNormalize host identifier)
          | .ok citation =>
            match normalizeCitationPath host (Statute.citationToCitationPath citation) with
            | .error _ => .error (couldNotNormalize host identifier)
            | .ok path => .ok path

/-- The text that `normalizeCorpusIdentifier` hands to `normalizeCitationPath`. -/
def identifierPath (identifier : Text) : Option Text :=
  let value := stripChars (· == '/') (strip identifier)
  let parts := (value.splitOn '/').filter (· ≠ [])
  if value.isEmpty then none
  else
    match rulespecPath parts with
    | some path => some path
    | none =>
      if 2 ≤ parts.length && documentClasses.contains (parts.getD 1 []) then some value
      else
        match cfrPath value with
        | some path => some path
        | none => (Statute.parseUscCitation value).toOption.map Statute.citationToCitationPath

theorem exists_identifierPath {host : Host} {identifier : Text} {path : CitationPath}
    (normalized : normalizeCorpusIdentifier host identifier = .ok path) :
    ∃ text, identifierPath identifier = some text ∧ normalizeCitationPath host text = .ok path := by
  unfold normalizeCorpusIdentifier at normalized
  unfold identifierPath
  dsimp only at normalized ⊢
  generalize stripChars (· == '/') (strip identifier) = value at normalized ⊢
  generalize (value.splitOn '/').filter (· ≠ []) = parts at normalized ⊢
  by_cases empty : value.isEmpty
  · simp [empty] at normalized
  · cases way : rulespecPath parts with
    | some text =>
      simp only [empty, Bool.false_eq_true, if_false, way] at normalized ⊢
      exact ⟨text, rfl, normalized⟩
    | none =>
      by_cases isPath : (2 ≤ parts.length && documentClasses.contains (parts.getD 1 [])) = true
      · simp only [empty, Bool.false_eq_true, if_false, way, isPath, if_true] at normalized ⊢
        exact ⟨value, rfl, normalized⟩
      · cases cfr : cfrPath value with
        | some text =>
          simp only [empty, Bool.false_eq_true, if_false, way, isPath, cfr] at normalized ⊢
          exact ⟨text, rfl, normalized⟩
        | none =>
          cases parsed : Statute.parseUscCitation value with
          | error detail =>
            simp only [empty, Bool.false_eq_true, if_false, way, isPath, cfr, parsed,
              reduceCtorEq] at normalized
          | ok citation =>
            simp only [empty, Bool.false_eq_true, if_false, way, isPath, cfr, parsed] at normalized ⊢
            refine ⟨_, rfl, ?_⟩
            cases last : normalizeCitationPath host
              (Statute.citationToCitationPath citation) with
            | error detail => simp [last] at normalized
            | ok other => simpa [last] using normalized

/-! ## What normalization keeps -/

/-- The text whose parts become the path. -/
def strippedPath (identifier : Text) : Text := stripChars (· == '/') (strip identifier)

/-- A blank that only a slash kept from being stripped. -/
def HidesBlank (identifier : Text) : Prop := (strippedPath identifier).getLast? = some ' '

instance (identifier : Text) : Decidable (HidesBlank identifier) := by
  unfold HidesBlank
  infer_instance

/-- What `normalizeCitationPath` demands of the parts of a path. -/
def IsCitation (parts : List Text) : Prop :=
  parts.length ≤ maxCorpusCitationSegments ∧ 2 ≤ parts.length ∧
    (∀ part ∈ parts, isSafeSegment part = true) ∧ documentClasses.contains (parts.getD 1 []) = true ∧
    isCitationJurisdiction (parts.getD 0 []) = true ∧
    ∀ part ∈ parts.drop 2, isCitationSegment part = true

instance (parts : List Text) : Decidable (IsCitation parts) := by
  unfold IsCitation
  infer_instance

variable {host : Host} {identifier : Text} {path : CitationPath}

theorem normalizeCitationPath_eq_ok_iff :
    normalizeCitationPath host identifier = .ok path ↔
      identifier.length ≤ maxCorpusCitationLength ∧ strippedPath identifier ≠ [] ∧
        IsCitation ((strippedPath identifier).splitOn '/') ∧
        citationSegments ((strippedPath identifier).splitOn '/') = path := by
  unfold normalizeCitationPath strippedPath IsCitation
  generalize stripChars (· == '/') (strip identifier) = body
  simp only [bind_eq_ok_iff, require_eq_ok_iff, refuse_eq_ok_iff, decide_eq_true_eq,
    List.find?_eq_none, Bool.not_eq_true', Bool.not_eq_false, pure, Except.pure, Except.ok.injEq]
  by_cases empty : body = []
  · simp [empty]
  · simp [empty, and_assoc]

/-- A normalized path is the stripped text. -/
theorem text_of_normalized (normalized : normalizeCitationPath host identifier = .ok path) :
    path.text = strippedPath identifier := by
  rw [CitationPath.text, (normalizeCitationPath_parts normalized).1]
  exact List.intercalate_splitOn '/'

variable {c : Char} {body : Text}

theorem isAsciiAlnum_iff :
    isAsciiAlnum c = true ↔ (48 ≤ c.toNat ∧ c.toNat ≤ 57) ∨ (97 ≤ c.toNat ∧ c.toNat ≤ 122) ∨
      (65 ≤ c.toNat ∧ c.toNat ≤ 90) := by
  simp only [isAsciiAlnum, isAsciiDigit, isAsciiLower, isAsciiUpper, Bool.or_eq_true,
    Bool.and_eq_true, decide_eq_true_eq, or_assoc]
  exact Iff.rfl

/-- The only blank of a citation is the space. -/
theorem eq_space_of_segment {text : Text} (segment : isCitationSegment text = true)
    (member : c ∈ text) (space : isSpace c = true) : c = ' ' := by
  have other : isAsciiAlnum c = false := by
    rw [Bool.eq_false_iff, ne_eq, isAsciiAlnum_iff]
    simp only [isSpace, Bool.or_eq_true, Bool.and_eq_true, decide_eq_true_eq, beq_iff_eq] at space
    omega
  cases text with
  | nil => cases member
  | cons first rest =>
    simp only [isCitationSegment, Bool.and_eq_true, decide_eq_true_eq, List.all_eq_true,
      Bool.or_eq_true] at segment
    have allowed : (" .:-–".toList.contains c) = true := by
      rcases List.mem_cons.mp member with rfl | later
      · simp [other] at segment
      · rcases segment.2.2 c later with alnum | allowed
        · simp [other] at alnum
        · exact allowed
    have cases_ : c = ' ' ∨ c = '.' ∨ c = ':' ∨ c = '-' ∨ c = '–' := by simpa using allowed
    rcases cases_ with rfl | rfl | rfl | rfl | rfl
    · rfl
    all_goals exact absurd space (by decide)

/-- The last character of a citation is one of a segment. -/
theorem eq_space_of_last (citation : IsCitation (body.splitOn '/'))
    (last : body.getLast? = some c) (space : isSpace c = true) : c = ' ' := by
  have joined : ['/'].intercalate (body.splitOn '/') = body := List.intercalate_splitOn '/'
  have member : c ∈ ['/'].intercalate (body.splitOn '/') := by
    rw [joined]
    exact List.mem_of_getLast? last
  rcases mem_intercalate member with rfl | ⟨part, has, inside⟩
  · exact absurd space (by decide)
  · obtain ⟨-, two, safe, documentClass, jurisdiction, rest⟩ := citation
    match parts : body.splitOn '/' with
    | [] => simp [parts] at two
    | [_] => simp [parts] at two
    | first :: second :: others =>
      rw [parts] at has safe documentClass jurisdiction rest
      rcases List.mem_cons.mp has with rfl | has
      · exact eq_space_of_segment (isCitationSegment_of_jurisdiction (safe _ (by simp)) jurisdiction)
          inside space
      · rcases List.mem_cons.mp has with rfl | has
        · exact eq_space_of_segment
            (isCitationSegment_of_documentClass (safe _ (by simp)) documentClass) inside space
        · exact eq_space_of_segment (rest part has) inside space

/-- The first character of a citation is a letter of its jurisdiction. -/
theorem isSpace_head (citation : IsCitation (body.splitOn '/')) (first : body.head? = some c) :
    isSpace c = false := by
  obtain ⟨-, two, safe, -, jurisdiction, -⟩ := citation
  have joined : ['/'].intercalate (body.splitOn '/') = body := List.intercalate_splitOn '/'
  match parts : body.splitOn '/' with
  | [] => simp [parts] at two
  | country :: others =>
    rw [parts] at safe jurisdiction joined
    have segment := isCitationSegment_of_jurisdiction (safe country (by simp)) jurisdiction
    obtain ⟨tail, split⟩ := exists_intercalate_cons '/' country others
    cases country with
    | nil => simp [isCitationSegment] at segment
    | cons d rest =>
      rw [← joined, split] at first
      cases first
      by_contra space
      simp only [Bool.not_eq_false] at space
      have blank := eq_space_of_segment segment List.mem_cons_self space
      rw [blank] at segment
      simp [isCitationSegment, isAsciiAlnum, isAsciiDigit, isAsciiLower, isAsciiUpper] at segment

/-- Stripping once more changes a citation iff it ends in a blank. -/
theorem strippedPath_eq_self_iff {identifier : Text}
    (citation : IsCitation ((strippedPath identifier).splitOn '/')) :
    strippedPath (strippedPath identifier) = strippedPath identifier ↔ ¬ HidesBlank identifier := by
  constructor
  · intro same hidden
    have shorter := @length_stripChars_lt isSpace _ _ hidden (by decide)
    have still := length_stripChars_le (· == '/') (strip (strippedPath identifier))
    have equal := congrArg List.length same
    unfold strip at still
    unfold strippedPath strip at equal shorter still
    omega
  · intro plain
    have unstripped : strip (strippedPath identifier) = strippedPath identifier := by
      apply stripChars_eq_self
      · exact fun c first => isSpace_head citation first
      · intro c last
        by_contra space
        simp only [Bool.not_eq_false] at space
        rw [eq_space_of_last citation last space] at last
        exact plain last
    conv_lhs => rw [strippedPath, unstripped, strippedPath, stripChars_stripChars]
    rfl

/-! ## Main results -/

/-- A text is canonical when normalization gives it back and the strict reader accepts it. -/
def Canonical (host : Host) (path : CitationPath) : Prop :=
  normalizeCitationPath host path.text = .ok path ∧
    requireCanonicalCorpusCitationPath host path.text = .ok path

theorem canonical_iff_normalizes :
    Canonical host path ↔ normalizeCitationPath host path.text = .ok path := by
  refine ⟨fun canonical => canonical.1, fun normalized => ⟨normalized, ?_⟩⟩
  unfold requireCanonicalCorpusCitationPath
  simp [normalized]

theorem canonical_iff (normalized : normalizeCitationPath host identifier = .ok path) :
    Canonical host path ↔ ¬ HidesBlank identifier := by
  obtain ⟨short, nonempty, citation, segments⟩ := normalizeCitationPath_eq_ok_iff.mp normalized
  rw [canonical_iff_normalizes, text_of_normalized normalized, ← strippedPath_eq_self_iff citation]
  constructor
  · intro again
    rw [← text_of_normalized again, text_of_normalized normalized]
  · intro same
    have bounded : (strippedPath identifier).length ≤ maxCorpusCitationLength :=
      le_trans (le_trans (length_stripChars_le _ _) (length_stripChars_le _ _)) short
    rw [normalizeCitationPath_eq_ok_iff, same]
    exact ⟨bounded, nonempty, citation, segments⟩

/-- **Normalized paths are canonical but for a hidden blank** -/
theorem normalized_canonical_iff (host : Host) (identifier : Text) :
    (∀ path, normalizeCitationPath host identifier = .ok path →
      (Canonical host path ↔ ¬ HidesBlank identifier)) ∧
    ∀ path, normalizeCorpusIdentifier host identifier = .ok path →
      (Canonical host path ↔ ∀ text ∈ identifierPath identifier, ¬ HidesBlank text) := by
  refine ⟨fun path normalized => canonical_iff normalized, fun path normalized => ?_⟩
  obtain ⟨text, handed, inner⟩ := exists_identifierPath normalized
  rw [canonical_iff inner, handed]
  simp

/-- A host that opens no file. -/
def filelessHost : Host where
  repr value := match value with
    | .str text => quoted text
    | _ => "None"
  sha256 _ := ""
  decodeUtf8 := decodeUtf8
  loads _ := none
  lookupFile _ := .missing

/-- Without a hidden blank both readers give a canonical path. -/
theorem normalized_canonical_plain :
    Canonical filelessHost (citationSegments ["us".toList, "statute".toList, "26".toList]) ∧
      Canonical filelessHost (citationSegments ["us".toList, "statute".toList, "26".toList]) :=
  ⟨((normalized_canonical_iff filelessHost " /us/statute/26/ ".toList).1 _
      (normalizeCitationPath_eq_ok_iff.mpr ⟨by decide, by decide, by decide, rfl⟩)).mpr (by decide),
    ((normalized_canonical_iff filelessHost "us:statutes/26".toList).2 _
      ((@normalizeCitationPath_eq_ok_iff _ "us/statute/26".toList _).mpr
        ⟨by decide, by decide, by decide, rfl⟩)).mpr (by decide)⟩

/-- A blank before a slash is left behind: `us/statute/26 /`, and one slash further for the
reader that strips twice. -/
theorem hidden_blank_not_canonical :
    (∃ path, normalizeCitationPath filelessHost "us/statute/26 /".toList = .ok path ∧
      ¬ Canonical filelessHost path) ∧
    ∃ path, normalizeCorpusIdentifier filelessHost "us/statute/26 / /".toList = .ok path ∧
      ¬ Canonical filelessHost path := by
  have first : normalizeCitationPath filelessHost "us/statute/26 /".toList =
      .ok (citationSegments ["us".toList, "statute".toList, "26 ".toList]) :=
    normalizeCitationPath_eq_ok_iff.mpr ⟨by decide, by decide, by decide, rfl⟩
  refine ⟨⟨_, first, fun canonical => ?_⟩, ⟨_, first, fun canonical => ?_⟩⟩ <;>
    exact (canonical_iff first).mp canonical (by decide)

end AxiomEncode.Corpus
