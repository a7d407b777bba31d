/-
# Migration.PlannedMoves -- what a loaded plan says of its moves

A primary path has a jurisdiction, a content root, directories and the stem of its file.
`admitted_of_load`: the moves of a plan lead from canonical primary paths to their canonical
destinations, no two of them to one destination, and none from a plain path.
-/
import AxiomEncode.Migration.PathPlanSpec

namespace AxiomEncode.Migration

open Theory

set_option autoImplicit false

/-! ## The parts of a primary path -/

/-- The parts of a path to a primary RuleSpec: the jurisdiction, the directories behind it and
the stem of the file name. -/
structure PathParts where
  jurisdiction : Text
  contentRoot : Text
  directories : Path
  stem : Text

namespace PathParts

variable (parts : PathParts)

def front : Path := parts.jurisdiction :: parts.contentRoot :: parts.directories

def path : Path := parts.front ++ [parts.stem ++ dotYaml]

/-- The text of the path behind the jurisdiction and without `.yaml`. -/
def body : Text := leading (parts.contentRoot :: parts.directories) ++ parts.stem

theorem asPosix_path :
    asPosix parts.path = parts.jurisdiction ++ '/' :: (parts.body ++ dotYaml) := by
  rw [path, asPosix_concat, front, leading, List.flatMap_cons, ← leading, body]
  simp

end PathParts

section Parts

variable {text : Text} {path : Path}

theorem stemAndSuffix_append (name : Text) :
    (stemAndSuffix name).1 ++ (stemAndSuffix name).2 = name := by
  rw [stemAndSuffix]
  split_ifs with dotted
  · rw [Bool.and_eq_true, Bool.and_eq_true, List.contains_iff_mem] at dotted
    -- the name, read from its end
    obtain ⟨suffix, rest, backwards, clean⟩ : ∃ suffix rest, name.reverse = suffix ++ '.' :: rest
        ∧ ∀ c ∈ suffix, c ≠ '.' := by
      have present : '.' ∈ name.reverse := List.mem_reverse.mpr dotted.1.1
      obtain ⟨suffix, rest, split, missing⟩ := List.eq_append_cons_of_mem present
      exact ⟨suffix, rest, split, fun c member same => missing (same ▸ member)⟩
    have forwards : name = rest.reverse ++ '.' :: suffix.reverse := by
      rw [← List.reverse_reverse name, backwards]
      simp
    have run : name.reverse.takeWhile (· ≠ '.') = suffix := by
      rw [backwards, List.takeWhile_append_of_pos (by simpa using clean)]
      simp
    have cut : name.length - suffix.reverse.length - 1 = rest.reverse.length := by
      rw [forwards]
      simp only [List.length_append, List.length_cons, List.length_reverse]
      omega
    simp only [run, cut]
    conv_rhs => rw [forwards]
    rw [forwards, List.take_left]
  · simp

theorem stemAndSuffix_nonempty {name suffix : Text} (same : (stemAndSuffix name).2 = suffix)
    (nonempty : suffix ≠ []) : (stemAndSuffix name).1 ≠ [] := by
  rw [stemAndSuffix] at same ⊢
  split_ifs at same ⊢ with dotted
  · rw [Bool.and_eq_true, Bool.and_eq_true] at dotted
    simpa using dotted.1.2
  · exact absurd same.symm nonempty

/-- A jurisdiction begins with a letter and is plain. -/
theorem plain_jurisdiction (valid : isJurisdiction text = true) :
    text.head?.any isLowerLetter = true ∧ ∀ c ∈ text, isPlain c = true := by
  have whole := @List.intercalate_splitOn _ text _ _ '-'
  rw [isJurisdiction] at valid
  cases split : text.splitOn '-' with
  | nil =>
    rw [split] at valid
    cases valid
  | cons country others =>
    rw [split] at valid whole
    simp only [Bool.and_eq_true, List.all_eq_true, decide_eq_true_eq] at valid
    obtain ⟨⟨two, letters⟩, parts⟩ := valid
    have letterPlain : ∀ c, isLowerLetter c = true → isPlain c = true := by
      intro c letter
      simp [isPlain, isLowerAlnum, letter]
    constructor
    · obtain ⟨tail, from'⟩ := exists_intercalate_cons '-' country others
      rw [← whole, from']
      cases country with
      | nil => cases two
      | cons c country => exact letters c List.mem_cons_self
    · intro c member
      rw [← whole] at member
      rcases mem_intercalate member with rfl | ⟨part, inside, here⟩
      · decide
      · rcases List.mem_cons.mp inside with rfl | later
        · exact letterPlain c (letters c here)
        · have kept := (parts part later).2 c here
          rw [Bool.or_eq_true, beq_iff_eq] at kept
          rcases kept with alnum | rfl
          · simp [isPlain, alnum]
          · decide

/-- What `_validate_primary_path` says. -/
structure IsPrimary (parts : PathParts) : Prop where
  letter : parts.jurisdiction.head?.any isLowerLetter = true
  plain : ∀ c ∈ parts.jurisdiction, isPlain c = true
  stem : parts.stem ≠ []
  noTest : ¬ dotTestYaml <:+ parts.stem ++ dotYaml

variable {field : String} {source destination : Path}

theorem exists_parts (valid : validatePrimaryPath path field = .ok ()) :
    ∃ parts : PathParts, path = parts.path ∧ IsPrimary parts := by
  simp only [validatePrimaryPath, bind_eq_ok_iff, check_eq_ok_iff, Bool.and_eq_true, beq_iff_eq,
    decide_eq_true_eq, Bool.not_eq_true', exists_and_left, exists_const] at valid
  obtain ⟨long, jurisdictional, -, yaml, noTest⟩ := valid
  obtain ⟨jurisdiction, contentRoot, rest, rfl⟩ : ∃ jurisdiction contentRoot rest,
      path = jurisdiction :: contentRoot :: rest := by
    cases path with
    | nil => simp at long
    | cons jurisdiction rest =>
      cases rest with
      | nil => simp at long
      | cons contentRoot rest => exact ⟨jurisdiction, contentRoot, rest, rfl⟩
  have nonempty : rest ≠ [] := by
    rintro rfl
    simp at long
  obtain ⟨directories, name, rfl⟩ : ∃ directories name, rest = directories ++ [name] :=
    ⟨_, _, (List.dropLast_concat_getLast nonempty).symm⟩
  have isName : nameOf (jurisdiction :: contentRoot :: (directories ++ [name])) = name := by
    rw [nameOf, ← List.cons_append, ← List.cons_append, List.getLastD_concat]
  rw [isName] at yaml noTest
  have whole := stemAndSuffix_append name
  rw [yaml] at whole
  obtain ⟨letter, plain⟩ := plain_jurisdiction jurisdictional
  refine ⟨⟨jurisdiction, contentRoot, directories, (stemAndSuffix name).1⟩, ?_, letter, plain,
    stemAndSuffix_nonempty yaml (by decide), ?_⟩
  · rw [PathParts.path, whole]
    rfl
  · rw [whole, ← List.isSuffixOf_iff_suffix, noTest]
    decide

/-! ## The admitted moves -/

/-- A path that `_safe_repo_path` returns: it is read back from its text. -/
def IsCanonical (path : Path) : Prop := pathOf (asPosix path) = path

theorem IsCanonical.flat (canonical : IsCanonical path) : ∀ part ∈ path, '/' ∉ part := by
  intro part member
  rw [← canonical] at member
  exact not_mem_of_mem_splitOn (List.mem_filter.mp member).1

theorem IsCanonical.eq_of_asPosix {other : Path} (canonical : IsCanonical path)
    (canonicalOther : IsCanonical other) (same : asPosix path = asPosix other) : path = other := by
  rw [← canonical, same, canonicalOther]

theorem safeRepoPath_ok {raw : Option Json} (safe : safeRepoPath raw field = .ok path) :
    IsCanonical path := by
  rw [safeRepoPath] at safe
  cases text : raw.bind Json.text? with
  | none =>
    rw [text] at safe
    cases safe
  | some raw =>
    rw [text] at safe
    simp only [bind_eq_ok_iff, check_eq_ok_iff, exists_and_left, exists_const, Bool.and_eq_true,
      beq_iff_eq] at safe
    obtain ⟨-, ⟨⟨-, readBack⟩, -⟩, isPath⟩ := safe
    cases isPath
    rw [IsCanonical, readBack]

/-- One move of a plan. -/
structure Admitted (unicode : Unicode) (move : PlannedMove) : Prop where
  canonicalSource : IsCanonical move.source
  canonicalDestination : IsCanonical move.destination
  primarySource : ∃ field, validatePrimaryPath move.source field = .ok ()
  primaryDestination : ∃ field, validatePrimaryPath move.destination field = .ok ()
  normalized : unicode.canonicalDestination move.source = .ok move.destination
  moved : move.source ≠ move.destination

variable {unicode : Unicode} {move other : PlannedMove} {moves : List PlannedMove}

theorem admitMove_ok {item : Json} (ok : unicode.admitMove item field = .ok move) :
    Admitted unicode move := by
  unfold Unicode.admitMove at ok
  cases item with
  | obj members =>
    simp only [bind_eq_ok_iff, check_eq_ok_iff, exists_and_left, exists_const, beq_iff_eq,
      decide_eq_true_eq] at ok
    obtain ⟨-, source, safeSource, destination, safeDestination, _, primarySource, _,
      primaryDestination, canonical, normalized, rfl, moved, isMove⟩ := ok
    cases isMove
    exact ⟨safeRepoPath_ok safeSource, safeRepoPath_ok safeDestination, ⟨_, primarySource⟩,
      ⟨_, primaryDestination⟩, normalized, moved⟩
  | null => cases ok
  | bool _ => cases ok
  | int _ => cases ok
  | float _ => cases ok
  | str _ => cases ok
  | arr _ => cases ok

/-- No two moves lead to one destination. -/
def OneDestination (moves : List PlannedMove) : Prop :=
  moves.Pairwise fun move other => asPosix move.destination ≠ asPosix other.destination

theorem admitMoves_ok {items : List Json} {index : Nat} {admitted : List PlannedMove}
    (ok : unicode.admitMoves moves index items = .ok admitted)
    (each : ∀ move ∈ moves, Admitted unicode move) (distinct : OneDestination moves) :
    (∀ move ∈ admitted, Admitted unicode move) ∧ OneDestination admitted := by
  induction items generalizing moves index with
  | nil =>
    cases ok
    exact ⟨each, distinct⟩
  | cons item items ih =>
    simp only [Unicode.admitMoves, bind_eq_ok_iff, check_eq_ok_iff, exists_and_left,
      exists_const] at ok
    obtain ⟨move, admitted, -, collides, rest⟩ := ok
    refine ih rest ?_ ?_
    · intro other member
      rcases List.mem_append.mp member with earlier | last
      · exact each other earlier
      · rw [List.mem_singleton.mp last]
        exact admitMove_ok admitted
    · refine List.pairwise_append.mpr ⟨distinct, List.pairwise_singleton _ _, ?_⟩
      intro other earlier last isLast
      rw [List.mem_singleton.mp isLast]
      intro same
      rw [Bool.not_eq_true', ← Bool.not_eq_true, List.any_eq_true] at collides
      exact collides ⟨other, earlier, by simpa using same⟩

/-- What a loaded plan says of its moves. -/
theorem admitted_of_load {raw : List UInt8} {plan : PathMigrationPlan}
    (loaded : unicode.loadPlanBytes raw = .ok plan) :
    (∀ move ∈ plan.moves, Admitted unicode move) ∧ OneDestination plan.moves := by
  unfold Unicode.loadPlanBytes at loaded
  simp only [bind_eq_ok_iff, check_eq_ok_iff, exists_and_left, exists_const] at loaded
  obtain ⟨-, loaded⟩ := loaded
  split at loaded
  · cases loaded
  · simp only [bind_eq_ok_iff, check_eq_ok_iff, exists_and_left, exists_const] at loaded
    obtain ⟨-, -, loaded⟩ := loaded
    split at loaded
    · simp only [bind_eq_ok_iff, check_eq_ok_iff, exists_and_left, exists_const] at loaded
      obtain ⟨-, -, -, moves, admitted, -, isPlan⟩ := loaded
      cases isPlan
      exact admitMoves_ok admitted (by simp) List.Pairwise.nil
    · split_ifs at loaded <;> cases loaded
    · cases loaded
  · cases loaded

/-! ## Where a source is not plain -/

def flawCount (text : Text) : Nat := text.countP isFlaw

theorem flawCount_append (front back : Text) :
    flawCount (front ++ back) = flawCount front + flawCount back :=
  List.countP_append

theorem flawCount_eq_zero : flawCount text = 0 ↔ ∀ c ∈ text, isPlain c = true ∨ c = '/' := by
  rw [flawCount, List.countP_eq_zero]
  refine forall₂_congr fun c _ => ?_
  rw [isFlaw, Bool.not_eq_true', Bool.not_eq_false, Bool.or_eq_true, beq_iff_eq]

/-- A plain component is left as it is. -/
theorem normalizeComponent_plain {component : Text} {pieces : List Text}
    (ok : unicode.normalizeComponent component = .ok pieces)
    (plain : ∀ c ∈ component, isPlain c = true) : pieces = [component] := by
  have same : unicode.normalizedText component = component := by
    rw [normalizedText_eq ok]
    have spaced := dashSpaces_plain_append plain []
    rw [List.append_nil, dashSpaces, List.append_nil] at spaced
    rw [flatMap_expansion_plain plain, recoded_plain plain, spaced, map_toLower_plain plain]
  obtain ⟨isPieces, nonempty, -⟩ := normalizeComponent_eq_ok ok
  have whole : component.splitOn '/' = [component] := by
    refine List.splitOn_eq_singleton fun slash => ?_
    exact absurd (plain _ slash) (by decide)
  rw [same, whole] at isPieces
  rw [isPieces] at nonempty ⊢
  cases component with
  | nil => exact absurd rfl nonempty
  | cons c component => rfl

theorem canonicalDestination_plain (ok : unicode.canonicalDestination source = .ok destination)
    (plain : ∀ component ∈ source, ∀ c ∈ component, isPlain c = true) : destination = source := by
  induction source generalizing destination with
  | nil =>
    cases ok
    rfl
  | cons component source ih =>
    obtain ⟨pieces, tail, normalized, others, rfl⟩ := canonicalDestination_cons.mp ok
    rw [normalizeComponent_plain normalized (plain component List.mem_cons_self),
      ih others fun part member => plain part (List.mem_cons_of_mem _ member)]
    rfl

theorem mem_asPosix {part : Text} (member : part ∈ path) {c : Char} (inside : c ∈ part) :
    c ∈ asPosix path := by
  obtain ⟨front, back, rfl⟩ := List.append_of_mem member
  rw [asPosix, if_neg (by simp)]
  induction front with
  | nil =>
    obtain ⟨tail, split⟩ := exists_intercalate_cons '/' part back
    rw [List.nil_append, split]
    exact List.mem_append_left _ inside
  | cons first front ih =>
    obtain ⟨next, rest, split⟩ := List.exists_cons_of_ne_nil (show front ++ part :: back ≠ [] by simp)
    rw [List.cons_append, split, List.intercalate_cons_cons, ← split]
    exact List.mem_append_right _ (ih (by simp))

theorem Admitted.flaw (admitted : Admitted unicode move) : 0 < flawCount (asPosix move.source) := by
  by_contra none
  have plain := flawCount_eq_zero.mp (Nat.eq_zero_of_not_pos none)
  refine admitted.moved (canonicalDestination_plain admitted.normalized ?_).symm
  intro component member c inside
  refine (plain c (mem_asPosix member inside)).resolve_right ?_
  rintro rfl
  exact admitted.canonicalSource.flat component member inside

/-- A destination is plain. -/
theorem plain_canonicalDestination (ok : unicode.canonicalDestination source = .ok destination) :
    ∀ c ∈ asPosix destination, isPlain c = true ∨ c = '/' := by
  have safe := mem_canonicalDestination ok
  intro c member
  rw [asPosix] at member
  split_ifs at member with empty
  · rw [List.mem_singleton.mp member]
    exact .inl (by decide)
  · rcases mem_intercalate member with slash | ⟨part, inside, here⟩
    · exact .inr slash
    · exact .inl ((plain_of_safe (safe part inside)).2 c here)

end Parts

end AxiomEncode.Migration
