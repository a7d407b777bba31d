/-
# Drift.Issue -- the issue that is opened for a drifted module

`driftIssueBody` writes a table of the retained differences, as many rows as fit, and
counts the ones that are not shown.  For a module whose path is not too long the final
byte budget never cuts the table: `driftIssueBody_table` says what the body is.
-/
import AxiomEncode.Drift.Report
import Mathlib.Tactic.IntervalCases

namespace AxiomEncode.Drift

set_option autoImplicit false

open Theory CodePoints

/-- `"\n".join(lines)` -/
def joinLines (lines : List Text) : Text := [10].intercalate lines

def numeral (value : Nat) : Text := codes (toString value)

def issueHeader (result : DriftResult) : List Text :=
  [codes "The golden-regeneration drift check re-generated " ++ githubInlineCode false result.module ++
      codes " with the current encoder and found a semantic difference from the merged module " ++
      codes "(comments and ordering ignored).",
    [],
    codes "This is the check that would have caught the 0.2.1187 silent wrong-root immediately. " ++
      codes "Investigate whether the encoder change is intended; if so, re-merge the module, " ++
      codes "otherwise fix the regression.",
    [],
    codes "### Differences (" ++ numeral result.diffCount ++ codes ")",
    [],
    codes "| path | change | merged | regenerated |",
    codes "| --- | --- | --- | --- |"]

/-- The row of a difference.  The values are encodable: `json.dumps` raises for an integer of more
than 4300 digits. -/
def issueRow (sha256 : Sha256) (diff : Diff) : Text :=
  let path := boundedTextWithDigest sha256 diff.path maxGithubIssuePathPreviewChars
  codes "| " ++ githubInlineCode true path ++ codes " | " ++ githubInlineCode true diff.change ++
    codes " | " ++ githubInlineCode true (diff.merged.dumps.take 120) ++ codes " | " ++
    githubInlineCode true (diff.regenerated.dumps.take 120) ++ codes " |"

def moreRow (hidden : Nat) : Text := codes "| … | … | " ++ numeral hidden ++ codes " more | … |"

/-- The rows that fit, and how many they are. -/
def addRows (sha256 : Sha256) : List Diff → List Text → Nat → List Text × Nat
  | [], lines, displayed => (lines, displayed)
  | diff :: diffs, lines, displayed =>
    let row := issueRow sha256 diff
    if maxGithubIssueBodyBytes - 256 < utf8Length (joinLines (lines ++ [row])) then
      (lines, displayed)
    else addRows sha256 diffs (lines ++ [row]) (displayed + 1)

/-- `drift_issue_body` -/
def driftIssueBody (sha256 : Sha256) (result : DriftResult) : Text :=
  let (lines, displayed) :=
    addRows sha256 (result.diffs.take maxRetainedDiffs) (issueHeader result) 0
  let lines :=
    if displayed < result.diffCount then lines ++ [moreRow (result.diffCount - displayed)] else lines
  boundedUtf8 sha256 (joinLines lines) maxGithubIssueBodyBytes

/-! ## What is written shows -/

variable {displayed : Nat}

section Rows

variable {sha256 : Sha256} {tableCell lfTab : Bool} {value : Text} {result : DriftResult}
  {diff : Diff} {lines : List Text} {c : Nat}

theorem sanitized_replacePoint {entity : Text} (sanitized : Sanitized lfTab value)
    (plain : Sanitized lfTab entity) (c : Nat) : Sanitized lfTab (replacePoint c entity value) := by
  rw [sanitized_iff] at *
  intro d member
  rcases mem_replacePoint.mp member with ⟨held, -⟩ | ⟨-, inside⟩
  · exact sanitized d held
  · exact plain d inside

theorem sanitized_replacePoints {entities : List (Nat × Text)} (sanitized : Sanitized lfTab value)
    (plain : ∀ entity ∈ entities, Sanitized lfTab entity.2) :
    Sanitized lfTab (replacePoints entities value) := by
  induction entities generalizing value with
  | nil => exact sanitized
  | cons entity entities ih =>
    rw [List.forall_mem_cons] at plain
    exact ih (sanitized_replacePoint sanitized plain.1 _) plain.2

instance (lfTab : Bool) (value : Text) : Decidable (Sanitized lfTab value) :=
  inferInstanceAs (Decidable (_ = false))

theorem sanitized_githubSafeText (value : Text) : Sanitized false (githubSafeText false value) :=
  sanitized_replacePoints (sanitized_sanitizeDisplayText false value) (by decide)

theorem sanitized_inlineText (value : Text) : Sanitized false (inlineText tableCell value) := by
  cases tableCell with
  | false =>
    rw [inlineText_false]
    exact sanitized_githubSafeText value
  | true =>
    rw [inlineText_true]
    exact sanitized_replacePoint (sanitized_githubSafeText value) (by decide) _

theorem sanitized_githubInlineCode (tableCell : Bool) (value : Text) :
    Sanitized false (githubInlineCode tableCell value) :=
  ((show Sanitized false (codes "<code>") by decide).append (sanitized_inlineText value)).append
    (by decide)

theorem mem_numeral {n : Nat} (member : c ∈ numeral n) : c ∈ codes "0123456789" := by
  obtain ⟨digit, inside, rfl⟩ := List.mem_map.mp member
  rw [Nat.toString_eq_repr, Nat.toList_repr] at inside
  have isDigit := Nat.isDigit_of_mem_toDigits (by decide) (by decide) inside
  have bounds : 48 ≤ digit.toNat ∧ digit.toNat ≤ 57 := by
    simpa [Char.isDigit, UInt32.le_iff_toNat_le] using isDigit
  have listed : ∀ c, 48 ≤ c → c ≤ 57 → c ∈ codes "0123456789" := by
    intro c low high
    interval_cases c <;> decide
  exact listed _ bounds.1 bounds.2

theorem length_numeral_le {n digits : Nat} (positive : 0 < digits) (small : n < 10 ^ digits) :
    (numeral n).length ≤ digits := by
  rw [numeral, codes, List.length_map, Nat.toString_eq_repr, Nat.toList_repr]
  exact (Nat.length_toDigits_le_iff (by decide) positive).mpr small

theorem sanitized_numeral (n : Nat) : Sanitized lfTab (numeral n) := by
  have digits : Sanitized lfTab (codes "0123456789") :=
    Sanitized.multiline (show Sanitized false _ by decide)
  exact sanitized_iff.mpr fun c member => sanitized_iff.mp digits c (mem_numeral member)

theorem utf8Length_numeral (n : Nat) : utf8Length (numeral n) = (numeral n).length := by
  refine utf8Length_ascii fun c member => ?_
  have ascii : ∀ c ∈ codes "0123456789", c < 0x80 := by decide
  exact ascii c (mem_numeral member)

theorem sanitized_issueHeader : ∀ line ∈ issueHeader result, Sanitized true line := by
  have code : Sanitized true (githubInlineCode false result.module) :=
    (sanitized_githubInlineCode _ _).multiline
  simp only [issueHeader, List.forall_mem_cons]
  refine ⟨?_, ?_, ?_, ?_, ?_, ?_, ?_, ?_, fun _ none => absurd none List.not_mem_nil⟩
  · refine Sanitized.append (Sanitized.append (Sanitized.append ?_ code) ?_) ?_
    all_goals decide +kernel
  · decide +kernel
  · refine Sanitized.append (Sanitized.append ?_ ?_) ?_
    all_goals decide +kernel
  · decide +kernel
  · exact ((show Sanitized true _ by decide +kernel).append (sanitized_numeral _)).append (by decide +kernel)
  · decide +kernel
  · decide +kernel
  · decide +kernel

theorem sanitized_issueRow : Sanitized true (issueRow sha256 diff) := by
  have code : ∀ value, Sanitized true (githubInlineCode true value) := fun value =>
    (sanitized_githubInlineCode _ value).multiline
  have bar : Sanitized true (codes " | ") := by decide
  exact ((((((((show Sanitized true (codes "| ") by decide).append (code _)).append bar).append
    (code _)).append bar).append (code _)).append bar).append (code _)).append (by decide)

theorem sanitized_moreRow (hidden : Nat) : Sanitized true (moreRow hidden) :=
  ((show Sanitized true (codes "| … | … | ") by decide).append (sanitized_numeral _)).append
    (by decide)

/-! ## Rows -/

/-- A row of a table with four cells. -/
structure IsTableRow (row : Text) : Prop where
  cells : row.count 124 = 5
  oneLine : 10 ∉ row

theorem bar_not_mem_githubInlineCode : 124 ∉ githubInlineCode true value := by
  intro member
  rcases List.mem_append.mp member with member | closing
  · rcases List.mem_append.mp member with opening | inside
    · exact absurd opening (by decide)
    · exact (escaped_inlineText 124 inside List.not_mem_nil).1 (by decide)
  · exact absurd closing (by decide)

theorem lineFeed_not_mem_githubInlineCode : 10 ∉ githubInlineCode tableCell value := by
  intro member
  have hidden := sanitized_iff.mp (sanitized_githubInlineCode tableCell value) 10 member
  exact absurd hidden (by decide)

/-- **Every row has four cells**, whatever the difference. -/
theorem isTableRow_issueRow (sha256 : Sha256) (diff : Diff) : IsTableRow (issueRow sha256 diff) where
  cells := by
    have code : ∀ value, (githubInlineCode true value).count 124 = 0 := fun value =>
      List.count_eq_zero_of_not_mem bar_not_mem_githubInlineCode
    have first : (codes "| ").count 124 = 1 := by decide
    have middle : (codes " | ").count 124 = 1 := by decide
    have last : (codes " |").count 124 = 1 := by decide
    simp only [issueRow, List.count_append, code, first, middle, last]
  oneLine := by
    have first : 10 ∉ codes "| " := by decide
    have middle : 10 ∉ codes " | " := by decide
    have last : 10 ∉ codes " |" := by decide
    simp only [issueRow, List.mem_append, first, middle, last, lineFeed_not_mem_githubInlineCode,
      or_self, not_false_iff]

/-! ## Lines -/

theorem sanitized_joinLines (each : ∀ line ∈ lines, Sanitized true line) :
    Sanitized true (joinLines lines) := by
  rw [sanitized_iff]
  intro c member
  rcases mem_intercalate member with rfl | ⟨line, listed, inside⟩
  · decide
  · exact sanitized_iff.mp (each line listed) c inside

theorem joinLines_concat (nonempty : lines ≠ []) (row : Text) :
    joinLines (lines ++ [row]) = joinLines lines ++ 10 :: row := by
  induction lines with
  | nil => exact absurd rfl nonempty
  | cons line lines ih =>
    cases lines with
    | nil => simp [joinLines]
    | cons next lines =>
      have rest := ih (List.cons_ne_nil _ _)
      simp only [joinLines, List.cons_append, List.intercalate_cons_cons] at rest ⊢
      rw [rest]
      simp only [List.append_assoc]

theorem utf8Length_joinLines_concat (nonempty : lines ≠ []) (row : Text) :
    utf8Length (joinLines (lines ++ [row])) = utf8Length (joinLines lines) + 1 + utf8Length row := by
  rw [joinLines_concat nonempty, utf8Length_append, utf8Length_cons, width_ascii (by decide),
    Nat.add_assoc]

theorem splitOn_joinLines (nonempty : lines ≠ []) (each : ∀ line ∈ lines, 10 ∉ line) :
    (joinLines lines).splitOn 10 = lines :=
  List.splitOn_intercalate 10 each nonempty

theorem utf8Length_joinLines_le (lines : List Text) :
    utf8Length (joinLines lines) ≤ (lines.map utf8Length).sum + lines.length := by
  induction lines with
  | nil => exact Nat.le_refl 0
  | cons line lines ih =>
    cases lines with
    | nil => simp [joinLines]
    | cons next lines =>
      simp only [joinLines, List.intercalate_cons_cons, utf8Length_append, utf8Length_cons,
        utf8Length_nil, List.map_cons, List.sum_cons, List.length_cons] at ih ⊢
      have feed : width 10 = 1 := rfl
      omega

/-! ## The budget -/

theorem utf8Length_visibleEscape_le (c : Nat) : utf8Length (visibleEscape c) ≤ 10 := by
  rw [utf8Length_ascii]
  · unfold visibleEscape
    split_ifs <;> simp [codes]
  · intro d member
    have ascii : ∀ d ∈ codes "\\uU0123456789ABCDEF", d < 0x80 := by decide
    exact ascii d (mem_visibleEscape member)

/-- An escape is not escaped again. -/
theorem utf8Length_escaped_le (c : Nat) :
    utf8Length (replacePoints entities
      (if isUnsafeDisplayCharacter lfTab c then visibleEscape c else [c])) ≤ 10 := by
  split_ifs with hidden
  · rw [replacePoints_of_not_mem]
    · exact utf8Length_visibleEscape_le c
    · intro entity listed member
      have apart : ∀ entity ∈ entities, entity.1 ∉ codes "\\uU0123456789ABCDEF" := by decide
      exact apart entity listed (mem_visibleEscape member)
  · have small := utf8Length_entity_le c
    omega

theorem utf8Length_githubInlineCode_le (value : Text) :
    utf8Length (githubInlineCode false value) ≤ 10 * value.length + 13 := by
  have opening : utf8Length (codes "<code>") = 6 := by decide
  have closing : utf8Length (codes "</code>") = 7 := by decide
  have each : utf8Length (value.flatMap fun c => replacePoints entities
      (if isUnsafeDisplayCharacter false c then visibleEscape c else [c])) ≤ 10 * value.length :=
    utf8Length_flatMap_le utf8Length_escaped_le value
  have escaped : githubSafeText false value = value.flatMap fun c => replacePoints entities
      (if isUnsafeDisplayCharacter false c then visibleEscape c else [c]) := by
    rw [githubSafeText, replacePoints_eq_flatMap, sanitizeDisplayText, List.flatMap_assoc]
    exact List.flatMap_congr fun c _ => (replacePoints_eq_flatMap entities _).symm
  rw [githubInlineCode, inlineText_false, utf8Length_append, utf8Length_append, opening, closing,
    escaped]
  omega

/-- The header leaves room for rows, for a module that is not too long. -/
theorem utf8Length_header_le (short : result.module.length ≤ maxDiffPathChars)
    (few : result.diffCount < 10 ^ 200) :
    utf8Length (joinLines (issueHeader result)) ≤ maxGithubIssueBodyBytes - 256 := by
  have joined := utf8Length_joinLines_le (issueHeader result)
  have code := utf8Length_githubInlineCode_le result.module
  have count : (numeral result.diffCount).length ≤ 200 := length_numeral_le (by decide) few
  have first : utf8Length (codes "The golden-regeneration drift check re-generated ") +
      utf8Length
        (codes " with the current encoder and found a semantic difference from the merged module ") +
      utf8Length (codes "(comments and ordering ignored).") ≤ 1000 := by
    decide +kernel
  have second : utf8Length
        (codes "This is the check that would have caught the 0.2.1187 silent wrong-root immediately. ") +
      utf8Length
        (codes "Investigate whether the encoder change is intended; if so, re-merge the module, ") +
      utf8Length (codes "otherwise fix the regression.") ≤ 1000 := by
    decide +kernel
  have differences : utf8Length (codes "### Differences (") + utf8Length (codes ")") ≤ 100 := by
    decide +kernel
  have table : utf8Length (codes "| path | change | merged | regenerated |") +
      utf8Length (codes "| --- | --- | --- | --- |") ≤ 1000 := by
    decide +kernel
  simp only [issueHeader, List.map_cons, List.map_nil, List.sum_cons, List.sum_nil,
    List.length_cons, List.length_nil, utf8Length_append, utf8Length_nil, utf8Length_numeral] at joined
  simp only [maxDiffPathChars, maxGithubIssueBodyBytes] at short ⊢
  unfold issueHeader
  omega

theorem utf8Length_moreRow_le {hidden : Nat} (few : hidden < 10 ^ 200) :
    1 + utf8Length (moreRow hidden) ≤ 256 := by
  have opening : utf8Length (codes "| … | … | ") + utf8Length (codes " more | … |") ≤ 50 := by decide +kernel
  have count : (numeral hidden).length ≤ 200 := length_numeral_le (by decide) few
  rw [moreRow, utf8Length_append, utf8Length_append, utf8Length_numeral]
  omega

theorem isTableRow_moreRow (hidden : Nat) : IsTableRow (moreRow hidden) where
  cells := by
    have first : (codes "| … | … | ").count 124 = 3 := by decide
    have last : (codes " more | … |").count 124 = 2 := by decide
    have none : (numeral hidden).count 124 = 0 :=
      List.count_eq_zero_of_not_mem fun member => absurd (mem_numeral member) (by decide)
    rw [moreRow, List.count_append, List.count_append, first, last, none]
  oneLine := by
    have first : 10 ∉ codes "| … | … | " := by decide
    have last : 10 ∉ codes " more | … |" := by decide
    have none : 10 ∉ numeral hidden := fun member => absurd (mem_numeral member) (by decide)
    simp only [moreRow, List.mem_append, first, last, none, or_self, not_false_iff]

theorem oneLine_issueHeader : ∀ line ∈ issueHeader result, 10 ∉ line := by
  have code : 10 ∉ githubInlineCode false result.module := lineFeed_not_mem_githubInlineCode
  have digits : 10 ∉ numeral result.diffCount := fun member => absurd (mem_numeral member) (by decide +kernel)
  simp only [issueHeader, List.forall_mem_cons, List.mem_append, code, digits, or_false]
  refine ⟨?_, ?_, ?_, ?_, ?_, ?_, ?_, ?_, fun _ none => absurd none List.not_mem_nil⟩
  · decide +kernel
  · decide +kernel
  · decide +kernel
  all_goals decide +kernel

/-! ## The rows that fit -/

/-- The table shows the first differences, and the next one would not fit. -/
structure Fits (sha256 : Sha256) (lines : List Text) (diffs shown hidden : List Diff) : Prop where
  split : diffs = shown ++ hidden
  fits : utf8Length (joinLines (lines ++ shown.map (issueRow sha256))) ≤
    maxGithubIssueBodyBytes - 256
  full : ∀ next ∈ hidden.head?, maxGithubIssueBodyBytes - 256 <
    utf8Length (joinLines (lines ++ shown.map (issueRow sha256) ++ [issueRow sha256 next]))

variable {diffs : List Diff}

theorem addRows_of_full
    (full : maxGithubIssueBodyBytes - 256 <
      utf8Length (joinLines (lines ++ [issueRow sha256 diff]))) :
    addRows sha256 (diff :: diffs) lines displayed = (lines, displayed) :=
  if_pos full

theorem addRows_of_room
    (room : ¬ maxGithubIssueBodyBytes - 256 <
      utf8Length (joinLines (lines ++ [issueRow sha256 diff]))) :
    addRows sha256 (diff :: diffs) lines displayed =
      addRows sha256 diffs (lines ++ [issueRow sha256 diff]) (displayed + 1) :=
  if_neg room

theorem addRows_fits (sha256 : Sha256) (diffs : List Diff) (displayed : Nat)
    (room : utf8Length (joinLines lines) ≤ maxGithubIssueBodyBytes - 256) :
    ∃ shown hidden, Fits sha256 lines diffs shown hidden ∧
      addRows sha256 diffs lines displayed =
        (lines ++ shown.map (issueRow sha256), displayed + shown.length) := by
  induction diffs generalizing lines displayed with
  | nil =>
    refine ⟨[], [], ⟨rfl, ?_, ?_⟩, ?_⟩
    · rw [List.map_nil, List.append_nil]
      exact room
    · rintro next ⟨⟩
    · rw [List.map_nil, List.append_nil]
      rfl
  | cons diff diffs ih =>
    by_cases full : maxGithubIssueBodyBytes - 256 <
        utf8Length (joinLines (lines ++ [issueRow sha256 diff]))
    · refine ⟨[], diff :: diffs, ⟨rfl, ?_, ?_⟩, ?_⟩
      · rw [List.map_nil, List.append_nil]
        exact room
      · rintro next ⟨⟩
        rw [List.map_nil, List.append_nil]
        exact full
      · rw [addRows_of_full full, List.map_nil, List.append_nil]
        rfl
    · obtain ⟨shown, hidden, table, equation⟩ := ih (displayed + 1) (Nat.le_of_not_lt full)
      have grouped : lines ++ (diff :: shown).map (issueRow sha256) =
          lines ++ [issueRow sha256 diff] ++ shown.map (issueRow sha256) := by
        rw [List.map_cons, List.append_cons]
      refine ⟨diff :: shown, hidden, ⟨?_, ?_, ?_⟩, ?_⟩
      · rw [table.split, List.cons_append]
      · rw [grouped]
        exact table.fits
      · intro next listed
        rw [grouped]
        exact table.full next listed
      · rw [addRows_of_room full, equation, grouped, List.length_cons, Nat.add_assoc,
          Nat.add_comm 1]

end Rows

/-- What is written of the differences that are not shown. -/
def moreRows (result : DriftResult) (shown : List Diff) : List Text :=
  if shown.length < result.diffCount then [moreRow (result.diffCount - shown.length)] else []

section Table

variable {sha256 : Sha256} {result : DriftResult} {shown hidden : List Diff}

theorem isTableRow_rows : ∀ row ∈ shown.map (issueRow sha256) ++ moreRows result shown,
    IsTableRow row := by
  intro row member
  rcases List.mem_append.mp member with isShown | isMore
  · obtain ⟨diff, -, rfl⟩ := List.mem_map.mp isShown
    exact isTableRow_issueRow sha256 diff
  · unfold moreRows at isMore
    split_ifs at isMore with more
    · rw [List.mem_singleton.mp isMore]
      exact isTableRow_moreRow _
    · exact absurd isMore List.not_mem_nil

theorem sanitized_rows : ∀ row ∈ shown.map (issueRow sha256) ++ moreRows result shown,
    Sanitized true row := by
  intro row member
  rcases List.mem_append.mp member with isShown | isMore
  · obtain ⟨diff, -, rfl⟩ := List.mem_map.mp isShown
    exact sanitized_issueRow
  · unfold moreRows at isMore
    split_ifs at isMore with more
    · rw [List.mem_singleton.mp isMore]
      exact sanitized_moreRow _
    · exact absurd isMore List.not_mem_nil

/-- The row that counts the others has its room. -/
theorem utf8Length_body_le (few : result.diffCount < 10 ^ 200)
    (table : Fits sha256 (issueHeader result) (result.diffs.take maxRetainedDiffs) shown hidden) :
    utf8Length (joinLines (issueHeader result ++ (shown.map (issueRow sha256) ++
      moreRows result shown))) ≤ maxGithubIssueBodyBytes := by
  have fits := table.fits
  simp only [maxGithubIssueBodyBytes] at fits ⊢
  unfold moreRows
  split_ifs with more
  · have nonempty : issueHeader result ++ shown.map (issueRow sha256) ≠ [] :=
      List.append_ne_nil_of_left_ne_nil (List.cons_ne_nil _ _) _
    have last : 1 + utf8Length (moreRow (result.diffCount - shown.length)) ≤ 256 :=
      utf8Length_moreRow_le (Nat.lt_of_le_of_lt (Nat.sub_le _ _) few)
    rw [← List.append_assoc, utf8Length_joinLines_concat nonempty]
    omega
  · rw [List.append_nil]
    omega

theorem driftIssueBody_eq
    (added : addRows sha256 (result.diffs.take maxRetainedDiffs) (issueHeader result) 0 =
      (issueHeader result ++ shown.map (issueRow sha256), displayed))
    (counted : displayed = shown.length) :
    driftIssueBody sha256 result = boundedUtf8 sha256 (joinLines (issueHeader result ++
      (shown.map (issueRow sha256) ++ moreRows result shown))) maxGithubIssueBodyBytes := by
  subst counted
  unfold driftIssueBody moreRows
  simp only [added]
  split_ifs
  · rw [List.append_assoc]
  · rw [List.append_nil]

end Table

/--
**The table is never cut.**  Unless a module's path or the count is too long, every line of the
issue is a line of the header or a row with four cells, whatever the documents hold: the first
retained differences, as many as fit, and then the number of the others.
-/
theorem driftIssueBody_table (sha256 : Sha256) (result : DriftResult)
    (short : result.module.length ≤ maxDiffPathChars) (few : result.diffCount < 10 ^ 200) :
    ∃ shown hidden,
      Fits sha256 (issueHeader result) (result.diffs.take maxRetainedDiffs) shown hidden ∧
      (driftIssueBody sha256 result).splitOn 10 =
        issueHeader result ++ (shown.map (issueRow sha256) ++ moreRows result shown) ∧
      (∀ row ∈ shown.map (issueRow sha256) ++ moreRows result shown, IsTableRow row) ∧
      Sanitized true (driftIssueBody sha256 result) ∧
      utf8Length (driftIssueBody sha256 result) ≤ maxGithubIssueBodyBytes := by
  obtain ⟨shown, hidden, table, added⟩ :=
    addRows_fits sha256 (result.diffs.take maxRetainedDiffs) 0
      (utf8Length_header_le short few)
  have fits := utf8Length_body_le few table
  have shows : Sanitized true (joinLines (issueHeader result ++
      (shown.map (issueRow sha256) ++ moreRows result shown))) :=
    sanitized_joinLines (List.forall_mem_append.mpr ⟨sanitized_issueHeader, sanitized_rows⟩)
  have body := driftIssueBody_eq added (Nat.zero_add _)
  rw [boundedUtf8_of_short shows fits] at body
  rw [body]
  refine ⟨shown, hidden, table, ?_, isTableRow_rows, shows, fits⟩
  refine splitOn_joinLines (List.append_ne_nil_of_left_ne_nil (List.cons_ne_nil _ _) _) ?_
  exact List.forall_mem_append.mpr
    ⟨oneLine_issueHeader, fun row member => (isTableRow_rows row member).oneLine⟩

/-- A result with a cell that holds what would end it. -/
def barredResult : DriftResult where
  module := codes "us/statutes/7.yaml"
  drifted := true
  diffs := [⟨codes "rates|wage", codes "removed", .str (codes "</code>|\n"), .null⟩]
  error := none
  totalDiffs := some 3

theorem driftIssueBody_table_sample :
    ∃ shown hidden,
      Fits (fun _ _ => 0) (issueHeader barredResult) (barredResult.diffs.take maxRetainedDiffs) shown
        hidden ∧
      (driftIssueBody (fun _ _ => 0) barredResult).splitOn 10 = issueHeader barredResult ++
        (shown.map (issueRow fun _ _ => 0) ++ moreRows barredResult shown) ∧
      (∀ row ∈ shown.map (issueRow fun _ _ => 0) ++ moreRows barredResult shown, IsTableRow row) ∧
      Sanitized true (driftIssueBody (fun _ _ => 0) barredResult) ∧
      utf8Length (driftIssueBody (fun _ _ => 0) barredResult) ≤ maxGithubIssueBodyBytes :=
  driftIssueBody_table (fun _ _ => 0) barredResult (by decide +kernel) (by decide +kernel)

end AxiomEncode.Drift
