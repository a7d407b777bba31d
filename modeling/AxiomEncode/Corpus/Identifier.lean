/-
# Corpus.Identifier -- from an identifier to a normalized citation path

`normalizeCitationPath` is the one way from text to a `CitationPath`: it strips
the identifier, splits it at slashes and refuses every part outside the citation
grammar.  What it uses of its host (`Host`) is a parameter of the resolver.
-/
import AxiomEncode.Corpus.Records
import AxiomEncode.Theory.Checks
import AxiomEncode.Theory.PyText

namespace AxiomEncode.Corpus

open Theory

set_option autoImplicit false

/-- A path below the root of the checkout. -/
inductive FileLookup where
  | missing
  /-- A symlink, a directory, or a path that cannot be opened. -/
  | refused (detail : String)
  | regular (bytes : List UInt8)

/-- What the resolver takes from the language's library and from the checkout. -/
structure Host where
  /-- `repr` -/
  repr : Json → String
  /-- `hashlib.sha256(raw).hexdigest()` -/
  sha256 : List UInt8 → String
  /-- `raw.decode("utf-8")` -/
  decodeUtf8 : List UInt8 → Option Text
  /-- `json.loads` -/
  loads : Text → Option Json
  lookupFile : Text → FileLookup

abbrev ResolveError := CorpusError CorpusRowIdentity

/-- `f"{text!r}"` -/
def Host.quote (host : Host) (text : Text) : String := host.repr (.str text)

/-- `_sha256_text` -/
def Host.sha256Text (host : Host) (text : Text) : String := host.sha256 (utf8 text)

def documentClasses : List Text :=
  ["form", "guidance", "district-plan", "legislation", "manual", "other", "policy", "regulation",
    "rulemaking", "statute"].map String.toList

/-- `_CITATION_JURISDICTION_RE`: `^[a-z]{2,3}(?:-[a-z]{2,32})*$`. -/
def isCitationJurisdiction (text : Text) : Bool :=
  match text.splitOn '-' with
  | [] => false
  | country :: regions =>
    2 ≤ country.length && country.length ≤ 3 && country.all isAsciiLower &&
      regions.all fun region =>
        2 ≤ region.length && region.length ≤ 32 && region.all isAsciiLower

/-- `_validate_safe_segment` -/
def isSafeSegment (value : Text) : Bool :=
  value.length ≤ maxCorpusCitationSegmentLength && !(["", ".", ".."].contains (String.ofList value)) &&
    value.all fun c => !"/\\*%".toList.contains c && c.toNat != 0

/-- The parts as segments.  A part outside the citation grammar would be left
out; `normalizeCitationPath` has refused those before. -/
def citationSegments (parts : List Text) : CitationPath :=
  parts.filterMap fun part => if h : isCitationSegment part = true then some ⟨part, h⟩ else none

/-- `_normalize_citation_path` -/
def normalizeCitationPath (host : Host) (identifier : Text) :
    Except ResolveError CitationPath := do
  require (identifier.length ≤ maxCorpusCitationLength)
    (.invalidCitation "Corpus citation path exceeds the maximum length of 4096 characters")
  let normalized := stripChars (· == '/') (strip identifier)
  let parts := if normalized.isEmpty then [] else normalized.splitOn '/'
  require (parts.length ≤ maxCorpusCitationSegments)
    (.invalidCitation "Corpus citation path exceeds the maximum segment count of 64")
  require (2 ≤ parts.length)
    (.invalidCitation ("Corpus citation path must have at least two segments: " ++
      host.quote identifier))
  refuse (parts.find? fun part => !isSafeSegment part)
    fun part => .invalidCitation ("Unsafe citation path segment: " ++ host.quote part)
  require (documentClasses.contains (parts.getD 1 []))
    (.invalidCitation ("Unsupported corpus document class " ++ host.quote (parts.getD 1 []) ++
      " in " ++ host.quote identifier))
  require (isCitationJurisdiction (parts.getD 0 []))
    (.invalidCitation ("Invalid corpus jurisdiction " ++ host.quote (parts.getD 0 []) ++
      " in " ++ host.quote identifier))
  refuse ((parts.drop 2).find? fun part => !isCitationSegment part)
    fun part => .invalidCitation ("Invalid corpus citation path segment " ++ host.quote part ++
      " in " ++ host.quote identifier)
  pure (citationSegments parts)

/-! ## Every part passes the grammar -/

variable {text : Text}

theorem isCitationSegment_of_lower (safe : isSafeSegment text = true)
    (first : ∃ c rest, text = c :: rest ∧ isAsciiLower c = true)
    (all : ∀ c ∈ text, isAsciiLower c = true ∨ c = '-') : isCitationSegment text = true := by
  obtain ⟨c, rest, rfl, lower⟩ := first
  simp only [isSafeSegment, Bool.and_eq_true, decide_eq_true_eq] at safe
  simp only [isCitationSegment, Bool.and_eq_true, decide_eq_true_eq, List.all_eq_true,
    Bool.or_eq_true, isAsciiAlnum]
  refine ⟨safe.1.1, .inl (.inr lower), fun d hd => ?_⟩
  rcases all d (List.mem_cons_of_mem _ hd) with lower | rfl
  · exact .inl (.inl (.inr lower))
  · exact .inr (by decide)

theorem isCitationSegment_of_documentClass (safe : isSafeSegment text = true)
    (admitted : documentClasses.contains text = true) : isCitationSegment text = true := by
  have member : text ∈ documentClasses := by simpa using admitted
  have each : ∀ name ∈ documentClasses, name ≠ [] ∧ isAsciiLower (name.headD '-') = true ∧
      (name.all fun c => isAsciiLower c || c == '-') = true := by decide
  obtain ⟨nonempty, head, all⟩ := each text member
  simp only [List.all_eq_true, Bool.or_eq_true, beq_iff_eq] at all
  obtain ⟨c, rest, rfl⟩ := List.exists_cons_of_ne_nil nonempty
  exact isCitationSegment_of_lower safe ⟨c, rest, rfl, head⟩ all

theorem isCitationSegment_of_jurisdiction (safe : isSafeSegment text = true)
    (admitted : isCitationJurisdiction text = true) : isCitationSegment text = true := by
  unfold isCitationJurisdiction at admitted
  have whole : List.intercalate ['-'] (text.splitOn '-') = text :=
    List.intercalate_splitOn '-'
  cases split : text.splitOn '-' with
  | nil => simp [split] at admitted
  | cons country regions =>
    rw [split] at admitted whole
    simp only [Bool.and_eq_true, decide_eq_true_eq, List.all_eq_true] at admitted
    obtain ⟨⟨⟨two, -⟩, lower⟩, others⟩ := admitted
    obtain ⟨c, rest, rfl⟩ : ∃ c rest, country = c :: rest :=
      List.exists_cons_of_ne_nil (by intro h; simp [h] at two)
    have all : ∀ d ∈ text, isAsciiLower d = true ∨ d = '-' := by
      intro d hd
      rw [← whole] at hd
      rcases mem_intercalate hd with rfl | ⟨part, member, inside⟩
      · exact .inr rfl
      · rcases List.mem_cons.mp member with rfl | region
        · exact .inl (lower d inside)
        · exact .inl ((others part region).2 d inside)
    obtain ⟨tail, append⟩ := exists_intercalate_cons '-' (c :: rest) regions
    rw [append] at whole
    exact isCitationSegment_of_lower safe
      ⟨c, rest ++ tail, whole.symm, lower c List.mem_cons_self⟩ all

theorem citationSegments_val {parts : List Text}
    (each : ∀ part ∈ parts, isCitationSegment part = true) :
    (citationSegments parts).map Subtype.val = parts := by
  induction parts with
  | nil => rfl
  | cons part rest ih =>
    have here := each part List.mem_cons_self
    have below := ih fun other member => each other (List.mem_cons_of_mem _ member)
    rw [citationSegments, List.filterMap_cons_some (dif_pos here), List.map_cons,
      ← citationSegments, below]

/-- A normalized path is the split identifier, part by part. -/
theorem normalizeCitationPath_parts {host : Host} {identifier : Text} {path : CitationPath}
    (normalized : normalizeCitationPath host identifier = .ok path) :
    path.map Subtype.val = List.splitOn '/' (stripChars (· == '/') (strip identifier)) ∧
      2 ≤ path.length := by
  simp only [normalizeCitationPath, bind_eq_ok_iff, require_eq_ok_iff, refuse_eq_ok_iff,
    decide_eq_true_eq, List.find?_eq_none, Bool.not_eq_true', Bool.not_eq_false] at normalized
  obtain ⟨-, -, -, -, -, two, -, safe, -, documentClass, -, jurisdiction, -, rest, done⟩ :=
    normalized
  cases Except.ok.inj done
  set body := stripChars (· == '/') (strip identifier)
  cases empty : body.isEmpty with
  | true => simp [empty] at two
  | false =>
    simp only [empty, Bool.false_eq_true, if_false] at two safe documentClass jurisdiction rest
    obtain ⟨first, second, others, parts⟩ : ∃ first second others,
        List.splitOn '/' body = first :: second :: others := by
      cases h : List.splitOn '/' body with
      | nil => simp [h] at two
      | cons first tail =>
        cases tail with
        | nil => simp [h] at two
        | cons second others => exact ⟨first, second, others, rfl⟩
    rw [parts] at two safe documentClass jurisdiction rest
    have each : ∀ part ∈ first :: second :: others, isCitationSegment part = true := by
      intro part member
      rcases List.mem_cons.mp member with rfl | member
      · exact isCitationSegment_of_jurisdiction (safe _ (by simp)) jurisdiction
      · rcases List.mem_cons.mp member with rfl | member
        · exact isCitationSegment_of_documentClass (safe _ (by simp)) documentClass
        · exact rest part member
    have val := citationSegments_val each
    simp only [if_false, Bool.false_eq_true, parts]
    refine ⟨val, ?_⟩
    rw [← List.length_map (f := Subtype.val), val]
    exact two

end AxiomEncode.Corpus
