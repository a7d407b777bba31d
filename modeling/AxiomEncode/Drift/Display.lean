/-
# Drift.Display -- text that is shown

Sanitizing writes characters that do not show as `\uXXXX`, `githubSafeText` escapes what GitHub
would read as markup, and the `bounded` functions cut a text and close it with a digest.  The SHA-256
of a text's UTF-8 is a parameter.
-/
import AxiomEncode.Theory.CodePoints

namespace AxiomEncode.Drift

set_option autoImplicit false

open Theory CodePoints

abbrev Sha256 := Text → Fin 64 → Fin 16

def maxDiffPathChars : Nat := 4096
def maxErrorChars : Nat := 4096
def maxGithubIssueBodyBytes : Nat := 60000
def maxGithubIssueTitleChars : Nat := 240
def maxGithubIssuePathPreviewChars : Nat := 256

/-- The code points of the categories `Cc`, `Cf`, `Cs`, `Zl` and `Zp`. -/
def unsafeDisplayRanges : List (Nat × Nat) :=
  [(0x0, 0x1F), (0x7F, 0x9F), (0xAD, 0xAD), (0x600, 0x605), (0x61C, 0x61C), (0x6DD, 0x6DD),
    (0x70F, 0x70F), (0x890, 0x891), (0x8E2, 0x8E2), (0x180E, 0x180E), (0x200B, 0x200F),
    (0x2028, 0x202E), (0x2060, 0x2064), (0x2066, 0x206F), (0xD800, 0xDFFF), (0xFEFF, 0xFEFF),
    (0xFFF9, 0xFFFB), (0x110BD, 0x110BD), (0x110CD, 0x110CD), (0x13430, 0x1343F),
    (0x1BCA0, 0x1BCA3), (0x1D173, 0x1D17A), (0xE0001, 0xE0001), (0xE0020, 0xE007F)]

def isUnsafeDisplayCharacter (preserveLfTab : Bool) (c : Nat) : Bool :=
  !(preserveLfTab && (c == 10 || c == 9)) &&
    unsafeDisplayRanges.any fun range => range.1 ≤ c && c ≤ range.2

def containsUnsafeDisplayCharacters (preserveLfTab : Bool) (value : Text) : Bool :=
  value.any (isUnsafeDisplayCharacter preserveLfTab)

def upperHexChar (digit : Nat) : Nat := if digit < 10 then 48 + digit else 55 + digit

/-- `\uXXXX` or `\UXXXXXXXX` -/
def visibleEscape (c : Nat) : Text :=
  let digits (count : Nat) : Text :=
    (List.range count).reverse.map fun i => upperHexChar (c / 16 ^ i % 16)
  if c ≤ 0xFFFF then codes "\\u" ++ digits 4 else codes "\\U" ++ digits 8

def sanitizeDisplayText (preserveLfTab : Bool) (value : Text) : Text :=
  value.flatMap fun c => if isUnsafeDisplayCharacter preserveLfTab c then visibleEscape c else [c]

def boundedDiffPath (sha256 : Sha256) (path : Text) : Text :=
  let escaped := sanitizeDisplayText false path
  bounded sha256 maxDiffPathChars (codes "…[sha256:")
    (if escaped = [] then codes "(root)" else escaped)

def boundedError (sha256 : Sha256) (error : Text) : Text :=
  bounded sha256 maxErrorChars (codes "…[truncated; sha256:") (sanitizeDisplayText true error)

def boundedTextWithDigest (sha256 : Sha256) (value : Text) (maxChars : Nat) : Text :=
  bounded sha256 maxChars (codes "…[sha256:") (sanitizeDisplayText false value)

def boundedUtf8 (sha256 : Sha256) (value : Text) (maxBytes : Nat) : Text :=
  let sanitized := sanitizeDisplayText true value
  if utf8Length sanitized ≤ maxBytes then sanitized
  else
    let suffix := digestSuffix (sha256 sanitized) (codes "\n\n[truncated; sha256:")
    takeUtf8 (maxBytes - utf8Length suffix) sanitized ++ suffix

/-- `html.escape(text, quote=True)`, then the characters of mentions, code and links. -/
def entities : List (Nat × Text) :=
  [(38, codes "&amp;"), (60, codes "&lt;"), (62, codes "&gt;"), (34, codes "&quot;"),
    (39, codes "&#x27;"), (64, codes "&#64;"), (96, codes "&#96;"), (91, codes "&#91;"),
    (93, codes "&#93;"), (40, codes "&#40;"), (41, codes "&#41;")]

def githubSafeText (preserveLfTab : Bool) (value : Text) : Text :=
  replacePoints entities (sanitizeDisplayText preserveLfTab value)

/-- The text inside the code element. -/
def inlineText (tableCell : Bool) (value : Text) : Text :=
  let safe := replacePoint 10 (codes " ") (replacePoint 13 (codes " ") (githubSafeText false value))
  if tableCell then replacePoint 124 (codes "&#124;") safe else safe

def githubInlineCode (tableCell : Bool) (value : Text) : Text :=
  codes "<code>" ++ inlineText tableCell value ++ codes "</code>"

/-! ## Sanitized texts -/

/-- Every character shows. -/
def Sanitized (preserveLfTab : Bool) (value : Text) : Prop :=
  containsUnsafeDisplayCharacters preserveLfTab value = false

section Sanitized

variable {lfTab : Bool} {value more : Text} {c d : Nat} {sha256 : Sha256}

theorem sanitized_iff :
    Sanitized lfTab value ↔ ∀ c ∈ value, isUnsafeDisplayCharacter lfTab c = false := by
  simp [Sanitized, containsUnsafeDisplayCharacters]

theorem Sanitized.append (first : Sanitized lfTab value) (second : Sanitized lfTab more) :
    Sanitized lfTab (value ++ more) := by
  rw [sanitized_iff] at first second ⊢
  intro c isMember
  rcases List.mem_append.mp isMember with isMember | isMember
  · exact first c isMember
  · exact second c isMember

theorem Sanitized.mono (sanitized : Sanitized lfTab more) (within : ∀ c ∈ value, c ∈ more) :
    Sanitized lfTab value :=
  sanitized_iff.mpr fun c isMember => sanitized_iff.mp sanitized c (within c isMember)

/-- What shows on one line shows with line feeds and tabs kept. -/
theorem Sanitized.multiline (sanitized : Sanitized false value) : Sanitized lfTab value := by
  rw [sanitized_iff] at sanitized ⊢
  intro c isMember
  have shows := sanitized c isMember
  simp only [isUnsafeDisplayCharacter, Bool.false_and, Bool.not_false, Bool.true_and] at shows
  simp [isUnsafeDisplayCharacter, shows]

theorem upperHexChar_mem (digit : Nat) : upperHexChar (digit % 16) ∈ codes "0123456789ABCDEF" := by
  have small : digit % 16 < 16 := Nat.mod_lt _ (by decide)
  generalize digit % 16 = d at small
  revert d
  decide

theorem mem_visibleEscape (isMember : c ∈ visibleEscape d) : c ∈ codes "\\uU0123456789ABCDEF" := by
  unfold visibleEscape at isMember
  split_ifs at isMember with short
  all_goals
    rw [List.mem_append] at isMember
    rcases isMember with isPrefix | isDigit
  · exact List.mem_of_mem_take (i := 2) isPrefix
  · obtain ⟨i, -, rfl⟩ := List.mem_map.mp isDigit
    exact List.mem_of_mem_drop (i := 3) (upperHexChar_mem _)
  · have listed : ∀ c ∈ codes "\\U", c ∈ codes "\\uU0123456789ABCDEF" := by decide
    exact listed c isPrefix
  · obtain ⟨i, -, rfl⟩ := List.mem_map.mp isDigit
    exact List.mem_of_mem_drop (i := 3) (upperHexChar_mem _)

theorem sanitizeDisplayText_of_sanitized (sanitized : Sanitized lfTab value) :
    sanitizeDisplayText lfTab value = value := by
  have each : ∀ c ∈ value,
      (if isUnsafeDisplayCharacter lfTab c then visibleEscape c else [c]) = [c] := by
    intro c isMember
    rw [sanitized_iff.mp sanitized c isMember]
    rfl
  rw [sanitizeDisplayText, List.flatMap_congr each]
  exact List.flatMap_singleton' value

theorem mem_sanitizeDisplayText (isMember : c ∈ sanitizeDisplayText lfTab value) :
    c ∈ codes "\\uU0123456789ABCDEF" ∨ (c ∈ value ∧ isUnsafeDisplayCharacter lfTab c = false) := by
  obtain ⟨d, isHeld, isMember⟩ := List.mem_flatMap.mp isMember
  split_ifs at isMember with hidden
  · exact .inl (mem_visibleEscape isMember)
  · rw [List.mem_singleton.mp isMember]
    exact .inr ⟨isHeld, by simpa using hidden⟩

/-- **What is sanitized shows.** -/
theorem sanitized_sanitizeDisplayText (lfTab : Bool) (value : Text) :
    Sanitized lfTab (sanitizeDisplayText lfTab value) := by
  rw [sanitized_iff]
  intro c isMember
  rcases mem_sanitizeDisplayText isMember with escape | ⟨-, shows⟩
  · have plain : Sanitized lfTab (codes "\\uU0123456789ABCDEF") :=
      Sanitized.multiline (by unfold Sanitized; decide)
    exact sanitized_iff.mp plain c escape
  · exact shows

theorem sanitizeDisplayText_ne_nil (nonempty : value ≠ []) : sanitizeDisplayText lfTab value ≠ [] := by
  obtain ⟨c, text, rfl⟩ := List.exists_cons_of_ne_nil nonempty
  rw [sanitizeDisplayText, List.flatMap_cons]
  split_ifs with hidden
  · have long : visibleEscape c ≠ [] := by
      unfold visibleEscape
      split_ifs <;> simp [codes]
    simp [long]
  · simp

theorem Sanitized.bounded {limit : Nat} {opening : Text} (sanitized : Sanitized lfTab value)
    (plain : Sanitized lfTab opening) : Sanitized lfTab (bounded sha256 limit opening value) := by
  rw [sanitized_iff]
  intro c isMember
  rcases mem_bounded isMember with kept | isOpening | isDigit
  · exact sanitized_iff.mp sanitized c kept
  · exact sanitized_iff.mp plain c isOpening
  · have digits : Sanitized lfTab (codes "0123456789abcdef]") :=
      Sanitized.multiline (by unfold Sanitized; decide)
    exact sanitized_iff.mp digits c isDigit

end Sanitized

/-! ## Bounds -/

section Bounds

variable {value : Text} {sha256 : Sha256}

theorem sanitized_boundedDiffPath (path : Text) : Sanitized false (boundedDiffPath sha256 path) := by
  unfold boundedDiffPath
  refine Sanitized.bounded ?_ (by unfold Sanitized; decide)
  split_ifs with isRoot
  · unfold Sanitized
    decide
  · exact sanitized_sanitizeDisplayText false path

theorem length_boundedDiffPath_le (path : Text) :
    (boundedDiffPath sha256 path).length ≤ maxDiffPathChars :=
  length_bounded_le (by decide)

theorem boundedDiffPath_ne_nil (path : Text) : boundedDiffPath sha256 path ≠ [] := by
  refine bounded_ne_nil ?_
  split_ifs with isRoot
  · decide
  · exact isRoot

/-- A path that was bounded stays as it is. -/
theorem boundedDiffPath_of_bounded (sanitized : Sanitized false value) (nonempty : value ≠ [])
    (short : value.length ≤ maxDiffPathChars) : boundedDiffPath sha256 value = value := by
  rw [boundedDiffPath, sanitizeDisplayText_of_sanitized sanitized, if_neg nonempty]
  exact bounded_of_length_le short

theorem sanitized_boundedError (error : Text) : Sanitized true (boundedError sha256 error) :=
  (sanitized_sanitizeDisplayText true error).bounded (by unfold Sanitized; decide)

theorem length_boundedError_le (error : Text) : (boundedError sha256 error).length ≤ maxErrorChars :=
  length_bounded_le (by decide)

theorem boundedError_ne_nil (nonempty : value ≠ []) : boundedError sha256 value ≠ [] :=
  bounded_ne_nil (sanitizeDisplayText_ne_nil nonempty)

/-- An error that was bounded stays as it is. -/
theorem boundedError_of_bounded (sanitized : Sanitized true value)
    (short : value.length ≤ maxErrorChars) : boundedError sha256 value = value := by
  rw [boundedError, sanitizeDisplayText_of_sanitized sanitized]
  exact bounded_of_length_le short

theorem boundedUtf8_of_short {maxBytes : Nat} (sanitized : Sanitized true value)
    (short : utf8Length value ≤ maxBytes) : boundedUtf8 sha256 value maxBytes = value := by
  rw [boundedUtf8, sanitizeDisplayText_of_sanitized sanitized]
  exact if_pos short

end Bounds

/-! ## Escaped texts -/

/-- A character of the category `Cc`. -/
def IsControl (c : Nat) : Prop := c < 0x20 ∨ 0x7F ≤ c ∧ c ≤ 0x9F

instance (c : Nat) : Decidable (IsControl c) := inferInstanceAs (Decidable (_ ∨ _))

/-- No markup and no control character, some exceptions apart. -/
def Escaped (except value : Text) : Prop :=
  ∀ c ∈ value, c ∉ except → c ∉ codes "@`[]()<>|" ∧ ¬ IsControl c

section Escaped

variable {lfTab tableCell : Bool} {value except : Text} {c : Nat}

theorem isUnsafe_of_isControl (isControl : IsControl c) (kept : lfTab = true → c ≠ 10 ∧ c ≠ 9) :
    isUnsafeDisplayCharacter lfTab c = true := by
  have inRange : unsafeDisplayRanges.any (fun range => range.1 ≤ c && c ≤ range.2) = true := by
    rw [List.any_eq_true]
    rcases isControl with low | ⟨above, below⟩
    · exact ⟨(0x0, 0x1F), by decide, by simp; omega⟩
    · exact ⟨(0x7F, 0x9F), by decide, by simp; omega⟩
  rw [isUnsafeDisplayCharacter, inRange, Bool.and_true]
  cases lfTab with
  | false => rfl
  | true =>
    obtain ⟨notFeed, notTab⟩ := kept rfl
    simp [notFeed, notTab]

theorem not_mem_of_isControl (isControl : IsControl c) (kept : lfTab = true → c ≠ 10 ∧ c ≠ 9) :
    c ∉ sanitizeDisplayText lfTab value := by
  intro isMember
  have shows := sanitized_iff.mp (sanitized_sanitizeDisplayText lfTab value) c isMember
  rw [isUnsafe_of_isControl isControl kept] at shows
  cases shows

theorem not_isControl_entities : ∀ entity ∈ entities, ∀ c ∈ entity.2, ¬ IsControl c := by decide

theorem control_not_mem_githubSafeText (isControl : IsControl c)
    (kept : lfTab = true → c ≠ 10 ∧ c ≠ 9) : c ∉ githubSafeText lfTab value :=
  not_mem_replacePoints (.inr (not_mem_of_isControl isControl kept)) fun entity listed inside =>
    not_isControl_entities entity listed c inside isControl

theorem markup_not_mem_githubSafeText (markup : c ∈ codes "@`[]()<>") :
    c ∉ githubSafeText lfTab value := by
  have replaced : ∀ c ∈ codes "@`[]()<>",
      c ∈ entities.map Prod.fst ∧ ∀ entity ∈ entities, c ∉ entity.2 := by decide
  exact not_mem_replacePoints (.inl (replaced c markup).1) (replaced c markup).2

theorem inlineText_false : inlineText false value = githubSafeText false value := by
  have noFeed : 10 ∉ githubSafeText false value :=
    control_not_mem_githubSafeText (by decide) (fun kept => by cases kept)
  have noReturn : 13 ∉ githubSafeText false value :=
    control_not_mem_githubSafeText (by decide) (fun kept => by cases kept)
  rw [inlineText, replacePoint_of_not_mem noReturn, replacePoint_of_not_mem noFeed]
  exact if_neg Bool.false_ne_true

theorem inlineText_true :
    inlineText true value = replacePoint 124 (codes "&#124;") (githubSafeText false value) := by
  rw [← @inlineText_false value, inlineText, inlineText, if_pos rfl,
    if_neg Bool.false_ne_true]

/-- **A table cell holds no markup and no control character.** -/
theorem escaped_inlineText : Escaped [] (inlineText true value) := by
  rw [inlineText_true]
  intro c isMember _
  refine ⟨fun markup => ?_, fun isControl => ?_⟩
  · rcases mem_replacePoint.mp isMember with ⟨held, notBar⟩ | ⟨-, inEntity⟩
    · have listed : ∀ c ∈ codes "@`[]()<>|", c ≠ 124 → c ∈ codes "@`[]()<>" := by decide
      exact markup_not_mem_githubSafeText (listed c markup notBar) held
    · have apart : ∀ c ∈ codes "@`[]()<>|", c ∉ codes "&#124;" := by decide
      exact apart c markup inEntity
  · rcases mem_replacePoint.mp isMember with ⟨held, -⟩ | ⟨-, inEntity⟩
    · exact control_not_mem_githubSafeText isControl (fun kept => by cases kept) held
    · have apart : ∀ c ∈ codes "&#124;", ¬ IsControl c := by decide
      exact apart c inEntity isControl

theorem utf8Length_entity_le (c : Nat) : utf8Length (replacePoints entities [c]) ≤ 6 := by
  by_cases listed : c ∈ entities.map Prod.fst
  · have each : ∀ c ∈ entities.map Prod.fst, utf8Length (replacePoints entities [c]) ≤ 6 := by decide
    exact each c listed
  · rw [replacePoints_of_not_mem]
    · have one := width_le c
      rw [utf8Length_cons, utf8Length_nil]
      omega
    · intro entity isEntity same
      refine listed ?_
      rw [← List.mem_singleton.mp same]
      exact List.mem_map_of_mem isEntity

end Escaped

end AxiomEncode.Drift
