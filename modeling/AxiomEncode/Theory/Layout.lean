/-
# Theory.Layout -- a text and the same text with its whitespace collapsed

`Collapsed` relates a text to one with a space for each run of whitespace, and `Thins` to
what is left of that without the spaces at its end: the text as it is met by somebody who
reads it from one side.  A reader who skips whitespace, or stops at it, meets the same
characters in both, and so does a pattern that is `Blind` to how long the runs are.
-/
import AxiomEncode.Theory.PyText
import AxiomEncode.Theory.RegexLanguage

namespace AxiomEncode.Theory

set_option autoImplicit false

/-- A space for each run of whitespace. -/
inductive Collapsed : List Char → List Char → Prop
  | nil : Collapsed [] []
  | char {c : Char} {text thin : List Char} (visible : isSpace c = false) (rest : Collapsed text thin) :
      Collapsed (c :: text) (c :: thin)
  | run {gap text thin : List Char} (nonempty : gap ≠ []) (blank : ∀ c ∈ gap, isSpace c = true)
      (rest : Collapsed text thin) : Collapsed (gap ++ text) (' ' :: thin)

/-- The same without whitespace at the end. -/
inductive Thins : List Char → List Char → Prop
  | blank {gap : List Char} (blank : ∀ c ∈ gap, isSpace c = true) : Thins gap []
  | char {c : Char} {text thin : List Char} (visible : isSpace c = false) (rest : Thins text thin) :
      Thins (c :: text) (c :: thin)
  | run {gap text thin : List Char} (nonempty : gap ≠ []) (blank : ∀ c ∈ gap, isSpace c = true)
      (rest : Thins text thin) : Thins (gap ++ text) (' ' :: thin)

section Layout

variable {text thin other otherThin gap passed : List Char} {c : Char} {p : Char → Bool}

theorem isSpace_space : isSpace ' ' = true := by decide

/-! ## Collapsed texts -/

theorem Collapsed.append (first : Collapsed text thin) (second : Collapsed other otherThin) :
    Collapsed (text ++ other) (thin ++ otherThin) := by
  induction first with
  | nil => exact second
  | char visible _ ih => exact .char visible ih
  | run nonempty blank _ ih =>
    rw [List.append_assoc]
    exact .run nonempty blank ih

theorem Collapsed.reverse (collapsed : Collapsed text thin) : Collapsed text.reverse thin.reverse := by
  induction collapsed with
  | nil => exact .nil
  | char visible _ ih =>
    rw [List.reverse_cons, List.reverse_cons]
    exact ih.append (.char visible .nil)
  | run nonempty blank _ ih =>
    rw [List.reverse_append, List.reverse_cons]
    have last := Collapsed.run (mt List.reverse_eq_nil_iff.mp nonempty)
      (fun c member => blank c (List.mem_reverse.mp member)) .nil
    rw [List.append_nil] at last
    exact ih.append last

theorem Collapsed.dropSpaces (collapsed : Collapsed text thin) :
    Collapsed (text.dropWhile isSpace) (thin.dropWhile isSpace) := by
  induction collapsed with
  | nil => exact .nil
  | char visible rest ih =>
    rw [List.dropWhile_cons_of_neg (by simp [visible]), List.dropWhile_cons_of_neg (by simp [visible])]
    exact .char visible rest
  | run nonempty blank _ ih =>
    rw [List.dropWhile_append_of_pos blank, List.dropWhile_cons_of_pos isSpace_space]
    exact ih

theorem Thins.blank_of_nil (thins : Thins text []) : ∀ c ∈ text, isSpace c = true := by
  cases thins with
  | blank blank => exact blank

theorem rdropWhile_cons (p : Char → Bool) (c : Char) (text : List Char) :
    (c :: text).rdropWhile p =
      if text.rdropWhile p = [] then (if p c then [] else [c]) else c :: text.rdropWhile p := by
  simp only [List.rdropWhile, List.reverse_cons, List.dropWhile_append, List.isEmpty_iff,
    List.reverse_eq_nil_iff]
  split
  · cases keep : p c <;> simp [List.dropWhile, keep]
  · rw [List.reverse_append]
    rfl

theorem rdropSpaces_char (visible : isSpace c = false) (text : List Char) :
    (c :: text).rdropWhile isSpace = c :: text.rdropWhile isSpace := by
  rw [rdropWhile_cons, visible]
  split
  · next none_ => rw [none_]; rfl
  · rfl

/-- A collapsed text without the spaces at its end. -/
theorem Collapsed.thins (collapsed : Collapsed text thin) : Thins text (thin.rdropWhile isSpace) := by
  induction collapsed with
  | nil => exact .blank (List.forall_mem_nil _)
  | char visible _ ih =>
    rw [rdropSpaces_char visible]
    exact .char visible ih
  | run nonempty blank _ ih =>
    rw [rdropWhile_cons, if_pos isSpace_space]
    split
    · next none_ =>
        rw [none_] at ih
        exact .blank (List.forall_mem_append.mpr ⟨blank, ih.blank_of_nil⟩)
    · exact .run nonempty blank ih

/-! ## What is met from one side -/

/-- A visible character is met in both. -/
theorem Thins.of_visible (thins : Thins (c :: text) thin) (visible : isSpace c = false) :
    ∃ rest, thin = c :: rest ∧ Thins text rest := by
  have notSpace : ∀ {gap : List Char}, (∀ d ∈ gap, isSpace d = true) → gap.head? ≠ some c := by
    intro gap blank head
    rw [blank c (List.mem_of_head? head)] at visible
    cases visible
  generalize whole : c :: text = long at thins
  cases thins with
  | blank blank => exact absurd (whole ▸ rfl) (notSpace blank)
  | char _ rest =>
    obtain ⟨rfl, rfl⟩ := List.cons.inj whole
    exact ⟨_, rfl, rest⟩
  | @run gap _ _ nonempty blank rest =>
    obtain ⟨d, gap, rfl⟩ := List.exists_cons_of_ne_nil nonempty
    obtain ⟨rfl, -⟩ := List.cons.inj whole
    exact absurd rfl (notSpace blank)

theorem Thins.of_visible_thin (thins : Thins text (c :: thin)) (visible : isSpace c = false) :
    ∃ rest, text = c :: rest ∧ Thins rest thin := by
  cases thins with
  | char _ rest => exact ⟨_, rfl, rest⟩
  | run _ _ _ => cases visible

theorem Thins.of_space_thin (thins : Thins text (c :: thin)) (space : isSpace c = true) :
    c = ' ' ∧ ∃ gap rest, text = gap ++ rest ∧ gap ≠ [] ∧ (∀ d ∈ gap, isSpace d = true) ∧
      Thins rest thin := by
  cases thins with
  | char visible _ =>
    rw [space] at visible
    cases visible
  | run nonempty blank rest => exact ⟨rfl, _, _, rfl, nonempty, blank, rest⟩

/-- A test that no whitespace passes has the same answer at the front of both. -/
theorem Thins.head_any (thins : Thins text thin) (solid : ∀ c, isSpace c = true → p c = false) :
    text.head?.any p = thin.head?.any p := by
  have ofBlank : ∀ {gap rest : List Char}, gap ≠ [] → (∀ c ∈ gap, isSpace c = true) →
      (gap ++ rest).head?.any p = false := by
    intro gap rest nonempty blank
    obtain ⟨c, gap, rfl⟩ := List.exists_cons_of_ne_nil nonempty
    exact solid c (blank c List.mem_cons_self)
  cases thins with
  | blank blank =>
    cases text with
    | nil => rfl
    | cons c gap => exact solid c (blank c List.mem_cons_self)
  | char _ _ => rfl
  | run nonempty blank _ =>
    rw [ofBlank nonempty blank]
    exact (solid ' ' isSpace_space).symm

/-- What passes a test that a space fails is met in front of both. -/
theorem Thins.head_any_of_thin (thins : Thins text thin) (space : p ' ' = false)
    (found : thin.head?.any p = true) : text.head?.any p = true := by
  cases thins with
  | blank _ => cases found
  | char _ _ => exact found
  | run _ _ _ =>
    rw [List.head?_cons, Option.any_some, space] at found
    cases found

/-- Whitespace in front of a text is a space in front of it. -/
theorem Thins.head_space (thins : Thins text thin) (space : text.head?.any isSpace = true) :
    thin = [] ∨ thin.head?.any isSpace = true := by
  cases thins with
  | blank _ => exact .inl rfl
  | char visible _ =>
    rw [List.head?_cons, Option.any_some, visible] at space
    cases space
  | run _ _ _ => exact .inr isSpace_space

theorem Thins.head_space_of_thin (thins : Thins text thin) (space : thin.head?.any isSpace = true) :
    text.head?.any isSpace = true := by
  cases thins with
  | blank _ => cases space
  | char _ _ => exact space
  | run nonempty blank _ =>
    obtain ⟨c, gap, rfl⟩ := List.exists_cons_of_ne_nil nonempty
    exact blank c List.mem_cons_self

theorem Thins.dropSpaces (thins : Thins text thin) :
    Thins (text.dropWhile isSpace) (thin.dropWhile isSpace) := by
  induction thins with
  | blank blank =>
    rw [List.dropWhile_eq_nil_iff.mpr blank]
    exact .blank (List.forall_mem_nil _)
  | char visible rest _ =>
    rw [List.dropWhile_cons_of_neg (by simp [visible]), List.dropWhile_cons_of_neg (by simp [visible])]
    exact .char visible rest
  | run nonempty blank _ ih =>
    rw [List.dropWhile_append_of_pos blank, List.dropWhile_cons_of_pos isSpace_space]
    exact ih

/-- Whoever passes over what is no whitespace passes over the same. -/
theorem Thins.takeWhile (thins : Thins text thin) (solid : ∀ c, isSpace c = true → p c = false) :
    text.takeWhile p = thin.takeWhile p := by
  have ofBlank : ∀ {gap rest : List Char}, gap ≠ [] → (∀ c ∈ gap, isSpace c = true) →
      (gap ++ rest).takeWhile p = [] := by
    intro gap rest nonempty blank
    obtain ⟨c, gap, rfl⟩ := List.exists_cons_of_ne_nil nonempty
    exact List.takeWhile_cons_of_neg (by simp [solid c (blank c List.mem_cons_self)])
  induction thins with
  | @blank gap blank =>
    cases gap with
    | nil => rfl
    | cons c gap =>
      have none_ := @ofBlank (c :: gap) [] (List.cons_ne_nil _ _) blank
      rwa [List.append_nil] at none_
  | @char c _ _ _ _ ih => rw [List.takeWhile_cons, List.takeWhile_cons, ih]
  | run nonempty blank _ _ =>
    rw [ofBlank nonempty blank, List.takeWhile_cons_of_neg (by simp [solid ' ' isSpace_space])]

theorem Thins.dropWhile (thins : Thins text thin) (solid : ∀ c, isSpace c = true → p c = false) :
    Thins (text.dropWhile p) (thin.dropWhile p) := by
  have ofBlank : ∀ {gap rest : List Char}, gap ≠ [] → (∀ c ∈ gap, isSpace c = true) →
      (gap ++ rest).dropWhile p = gap ++ rest := by
    intro gap rest nonempty blank
    obtain ⟨c, gap, rfl⟩ := List.exists_cons_of_ne_nil nonempty
    exact List.dropWhile_cons_of_neg (by simp [solid c (blank c List.mem_cons_self)])
  induction thins with
  | blank blank => exact .blank fun c member => blank c ((List.dropWhile_sublist p).subset member)
  | @char c text thin visible rest ih =>
    rw [List.dropWhile_cons, List.dropWhile_cons]
    split
    · exact ih
    · exact .char visible rest
  | run nonempty blank rest _ =>
    rw [ofBlank nonempty blank, List.dropWhile_cons_of_neg (by simp [solid ' ' isSpace_space])]
    exact .run nonempty blank rest

/-- Whoever passes over all whitespace, and more, meets the same character next. -/
theorem Thins.head_dropWhile (thins : Thins text thin) (spaces : ∀ c, isSpace c = true → p c = true) :
    (text.dropWhile p).head? = (thin.dropWhile p).head? := by
  induction thins with
  | blank blank => rw [List.dropWhile_eq_nil_iff.mpr fun c member => spaces c (blank c member)]; rfl
  | char _ _ ih =>
    rw [List.dropWhile_cons, List.dropWhile_cons]
    split
    · exact ih
    · rfl
  | run nonempty blank _ ih =>
    rw [List.dropWhile_append_of_pos fun c member => spaces c (blank c member),
      List.dropWhile_cons_of_pos (spaces ' ' isSpace_space)]
    exact ih

/-- What has no whitespace is the same in both. -/
theorem Thins.of_append (thins : Thins (passed ++ text) thin) (visible : ∀ c ∈ passed, isSpace c = false) :
    ∃ rest, thin = passed ++ rest ∧ Thins text rest := by
  induction passed generalizing thin with
  | nil => exact ⟨thin, rfl, thins⟩
  | cons c passed ih =>
    rw [List.forall_mem_cons] at visible
    obtain ⟨rest, rfl, further⟩ := thins.of_visible visible.1
    obtain ⟨rest, rfl, last⟩ := ih further visible.2
    exact ⟨rest, rfl, last⟩

/-- A character by character rewriting that blanks out, at most. -/
theorem Thins.map {f : Char → Char} (thins : Thins text thin)
    (spaces : ∀ c, isSpace c = true → f c = ' ') (visible : ∀ c, isSpace c = false → f c = c ∨ f c = ' ') :
    Thins (text.map f) (thin.map f) := by
  have blanks : ∀ {gap : List Char}, (∀ c ∈ gap, isSpace c = true) →
      ∀ c ∈ gap.map f, isSpace c = true := by
    intro gap blank c member
    obtain ⟨d, inside, rfl⟩ := List.mem_map.mp member
    rw [spaces d (blank d inside)]
    exact isSpace_space
  induction thins with
  | blank blank => exact .blank (blanks blank)
  | @char c text thin isVisible _ ih =>
    rw [List.map_cons, List.map_cons]
    rcases visible c isVisible with kept | gone
    · rw [kept]
      exact .char isVisible ih
    · rw [gone]
      exact .run (List.cons_ne_nil ' ' []) (List.forall_mem_singleton.mpr isSpace_space) ih
  | run nonempty blank _ ih =>
    rw [List.map_append, List.map_cons, spaces ' ' isSpace_space]
    exact .run (mt List.map_eq_nil_iff.mp nonempty) (blanks blank) ih

/-! ## The words of a text -/

/-- The words that are left when a text is cut at the characters of no word. -/
def wordsOf (p : Char → Bool) (text : List Char) : List (List Char) :=
  (text.splitOnP fun c => !p c).filter (· ≠ [])

theorem splitOnP_gap (solid : ∀ c, isSpace c = true → p c = false)
    (blank : ∀ c ∈ gap, isSpace c = true) (text : List Char) :
    ((gap ++ text).splitOnP fun c => !p c) =
      List.replicate gap.length [] ++ text.splitOnP fun c => !p c := by
  induction gap with
  | nil => rfl
  | cons c gap ih =>
    rw [List.forall_mem_cons] at blank
    rw [List.cons_append, List.splitOnP_cons_eq_if_modifyHead, if_pos (by simp [solid c blank.1]),
      ih blank.2]
    rfl

/-- The first word that is cut off, and the others. -/
theorem Thins.split (thins : Thins text thin) (solid : ∀ c, isSpace c = true → p c = false) :
    ∃ first rest others, (text.splitOnP fun c => !p c) = first :: rest ∧
      (thin.splitOnP fun c => !p c) = first :: others ∧ rest.filter (· ≠ []) = others.filter (· ≠ []) := by
  have gone (n : Nat) (pieces : List (List Char)) :
      (List.replicate n [] ++ pieces).filter (· ≠ []) = pieces.filter (· ≠ []) := by
    rw [List.filter_append, List.filter_replicate_of_neg (by simp), List.nil_append]
  induction thins with
  | @blank gap blank =>
    have cut := splitOnP_gap solid blank []
    rw [List.append_nil, List.splitOnP_nil, ← List.replicate_one, List.replicate_append_replicate,
      List.replicate_succ] at cut
    refine ⟨[], _, [], cut, List.splitOnP_nil, ?_⟩
    have none_ := gone gap.length []
    rwa [List.append_nil] at none_
  | @char c text thin visible _ ih =>
    obtain ⟨first, rest, others, isText, isThin, same⟩ := ih
    rw [List.splitOnP_cons_eq_if_modifyHead, List.splitOnP_cons_eq_if_modifyHead, isText, isThin]
    cases p c with
    | true => exact ⟨c :: first, rest, others, rfl, rfl, same⟩
    | false =>
      refine ⟨[], first :: rest, first :: others, rfl, rfl, ?_⟩
      rw [List.filter_cons, List.filter_cons, same]
  | @run gap text thin nonempty blank _ ih =>
    obtain ⟨first, rest, others, isText, isThin, same⟩ := ih
    obtain ⟨n, isLength⟩ := Nat.exists_eq_succ_of_ne_zero (mt List.length_eq_zero_iff.mp nonempty)
    have single := @splitOnP_gap [' '] p solid (by simp [isSpace_space]) thin
    rw [splitOnP_gap solid blank, isLength, List.replicate_succ]
    refine ⟨[], _, _, rfl, single, (gone n _).trans ((Eq.symm ?_).trans (gone 0 _).symm)⟩
    rw [isText, isThin, List.filter_cons, List.filter_cons, same]

/-- Both have the same words. -/
theorem Thins.wordsOf (thins : Thins text thin) (solid : ∀ c, isSpace c = true → p c = false) :
    wordsOf p text = wordsOf p thin := by
  obtain ⟨first, rest, others, isText, isThin, same⟩ := thins.split solid
  rw [Theory.wordsOf, Theory.wordsOf, isText, isThin, List.filter_cons, List.filter_cons, same]

theorem Thins.of_append_thin (thins : Thins text (passed ++ thin))
    (visible : ∀ c ∈ passed, isSpace c = false) : ∃ rest, text = passed ++ rest ∧ Thins rest thin := by
  induction passed generalizing text with
  | nil => exact ⟨text, rfl, thins⟩
  | cons c passed ih =>
    rw [List.forall_mem_cons] at visible
    obtain ⟨rest, rfl, further⟩ := thins.of_visible_thin visible.1
    obtain ⟨rest, rfl, last⟩ := ih further visible.2
    exact ⟨rest, rfl, last⟩

theorem Thins.of_spaces_thin (thins : Thins text (passed ++ thin))
    (blank : ∀ c ∈ passed, isSpace c = true) :
    ∃ gap rest, text = gap ++ rest ∧ (gap = [] ↔ passed = []) ∧ (∀ c ∈ gap, isSpace c = true) ∧
      Thins rest thin := by
  induction passed generalizing text with
  | nil => exact ⟨[], text, rfl, Iff.rfl, List.forall_mem_nil _, thins⟩
  | cons c passed ih =>
    rw [List.forall_mem_cons] at blank
    obtain ⟨-, first, rest, rfl, nonempty, isBlank, further⟩ := thins.of_space_thin blank.1
    obtain ⟨second, rest, rfl, -, isBlank', last⟩ := ih further blank.2
    exact ⟨first ++ second, rest, (List.append_assoc ..).symm,
      iff_of_false (List.append_ne_nil_of_left_ne_nil nonempty _) (List.cons_ne_nil _ _),
      List.forall_mem_append.mpr ⟨isBlank, isBlank'⟩, last⟩

/-! ## A reader who lags behind -/

/-- A thin text, but for whitespace in front of the text that was passed in the thin one. -/
def Lags (text thin : List Char) : Prop :=
  ∃ gap rest, text = gap ++ rest ∧ (∀ c ∈ gap, isSpace c = true) ∧ Thins rest thin

variable {rest : List Char}

theorem Lags.visible {c : Char} (lags : Lags (c :: rest) thin) (visible : isSpace c = false) :
    Thins (c :: rest) thin := by
  obtain ⟨gap, rest, split, blank, thins⟩ := lags
  cases gap with
  | nil => exact split ▸ thins
  | cons d gap =>
    obtain ⟨rfl, -⟩ := List.cons.inj split
    rw [blank c List.mem_cons_self] at visible
    cases visible

theorem Thins.lags (thins : Thins text thin) : Lags text thin :=
  ⟨[], text, rfl, List.forall_mem_nil _, thins⟩

theorem Lags.eq_nil (lags : Lags [] thin) : thin = [] := by
  obtain ⟨gap, rest, split, -, thins⟩ := lags
  have none_ := (List.append_eq_nil_iff.mp split.symm).2
  cases thins with
  | blank _ => rfl
  | char _ _ => cases none_
  | run nonempty _ _ => exact absurd (List.append_eq_nil_iff.mp none_).1 nonempty

/-- Whoever skips the whitespace in front of the thin text is not ahead of who skips some of it in
front of the text. -/
theorem Lags.skip {passed : List Char} (lags : Lags (passed ++ rest) thin)
    (blank : ∀ c ∈ passed, isSpace c = true) : Lags rest (thin.dropWhile isSpace) := by
  obtain ⟨gap, tail, split, blank', thins⟩ := lags
  have same : rest.dropWhile isSpace = tail.dropWhile isSpace := by
    rw [← List.dropWhile_append_of_pos blank, split, List.dropWhile_append_of_pos blank']
  exact ⟨rest.takeWhile isSpace, _, List.takeWhile_append_dropWhile.symm,
    fun c => List.mem_takeWhile_imp, same ▸ thins.dropSpaces⟩

end Layout

namespace Regex

/-! ## Patterns that do not see the layout -/

/-- A pattern of visible characters, and of one pattern for whitespace perhaps. -/
inductive Blind (space : Option Regex) : Regex → Prop
  | eps : Blind space .eps
  | set {p : Char → Bool} (visible : ∀ c, p c = true → isSpace c = false) : Blind space (.set p)
  | star {p : Char → Bool} (visible : ∀ c, p c = true → isSpace c = false) :
      Blind space (.star (.set p))
  | space {r : Regex} (isSpace : space = some r) : Blind space r
  | seq {r s : Regex} (first : Blind space r) (second : Blind space s) : Blind space (.seq r s)
  | alt {r s : Regex} (first : Blind space r) (second : Blind space s) : Blind space (.alt r s)

section Blind

variable {space : Option Regex} {r s : Regex} {rs : List Regex} {p : Char → Bool} {c d c' d' : Cursor}
  {text thin : List Char}

theorem Blind.opt (blind : Blind space r) : Blind space (opt r) := blind.alt .eps

theorem Blind.sequence (each : ∀ r ∈ rs, Blind space r) : Blind space (sequence rs) := by
  induction rs with
  | nil => exact .eps
  | cons r rs ih =>
    rw [List.forall_mem_cons] at each
    cases rs with
    | nil => exact each.1
    | cons s rs => exact each.1.seq (ih each.2)

theorem Blind.anyOf (each : ∀ r ∈ rs, Blind space r) : Blind space (anyOf rs) := by
  induction rs with
  | nil => exact .set fun _ none_ => nomatch none_
  | cons r rs ih =>
    rw [List.forall_mem_cons] at each
    cases rs with
    | nil => exact each.1
    | cons s rs => exact each.1.alt (ih each.2)

theorem Blind.between (visible : ∀ c, p c = true → isSpace c = false) (low high : Nat) :
    Blind space (between (.set p) low high) := by
  have rounds (n : Nat) : Blind space (times (.set p) n) ∧ Blind space (upTo (.set p) n) := by
    induction n with
    | zero => exact ⟨.eps, .eps⟩
    | succ n ih => exact ⟨(Blind.set visible).seq ih.1, ((Blind.set visible).seq ih.2).alt .eps⟩
  exact (rounds low).1.seq (rounds (high - low)).2

/-- A letter that is no whitespace, whatever its case. -/
theorem visible_of_anyCase {c d : Char} (visible : isSpace c = false) (upper : isSpace c.toUpper = false)
    (matched : (decide (d = c) || decide (d = c.toUpper) || (decide (c = 's') && decide (d = 'ſ')) ||
      (decide (c = 'k') && decide (d = '\u212A')) ||
      (decide (c = 'i') && (decide (d = 'İ') || decide (d = 'ı')))) = true) : isSpace d = false := by
  simp only [Bool.or_eq_true, Bool.and_eq_true, decide_eq_true_eq] at matched
  rcases matched with (((rfl | rfl) | ⟨-, rfl⟩) | ⟨-, rfl⟩) | ⟨-, rfl | rfl⟩
  · exact visible
  · exact upper
  all_goals decide

/-- The letters of a word. -/
def isVisibleWord (word : String) : Bool := word.toList.all fun c => !isSpace c && !isSpace c.toUpper

variable {word : String} {first second : List Char}

theorem Blind.ignoringCase (visible : isVisibleWord word = true) :
    Blind space (ignoringCase word) := by
  refine .sequence fun r member => ?_
  obtain ⟨c, inside, rfl⟩ := List.mem_map.mp member
  have own := List.all_eq_true.mp visible c inside
  rw [Bool.and_eq_true, Bool.not_eq_true', Bool.not_eq_true'] at own
  exact .set fun d => visible_of_anyCase own.1 own.2

/-- A pattern without one for whitespace passes over visible characters. -/
theorem Blind.passed (blind : Blind none r) (read : d ∈ r.run c) :
    ∃ xs, c.after = xs ++ d.after ∧ ∀ x ∈ xs, isSpace x = false := by
  induction blind generalizing c d with
  | eps => exact ⟨[], by rw [List.mem_singleton.mp read, List.nil_append], List.forall_mem_nil _⟩
  | set visible =>
    obtain ⟨x, rest, after, good, rfl⟩ := mem_run_set.mp read
    exact ⟨[x], after, List.forall_mem_singleton.mpr (visible x good)⟩
  | star visible =>
    obtain ⟨xs, rest, after, all, rfl⟩ := mem_run_star_set.mp read
    exact ⟨xs, after, fun x member => visible x (List.all_eq_true.mp all x member)⟩
  | space isSpace => cases isSpace
  | seq _ _ ih ih' =>
    obtain ⟨e, first, second⟩ := mem_run_seq.mp read
    obtain ⟨xs, after, all⟩ := ih first
    obtain ⟨ys, after', all'⟩ := ih' second
    exact ⟨xs ++ ys, by rw [after, after', List.append_assoc], List.forall_mem_append.mpr ⟨all, all'⟩⟩
  | alt _ _ ih ih' => exact (mem_run_alt.mp read).elim ih ih'

/-! ### Read in the text, read in the thin text -/

/-- **What is read of the text is read of the thin text**, where whitespace may be missing. -/
theorem Blind.thinner (blind : Blind space r) (stars : ∀ s, space = some s → s = .star (.set isSpace))
    (lags : Lags c.after c'.after) (read : d ∈ r.run c) : ∃ d' ∈ r.run c', Lags d.after d'.after := by
  induction blind generalizing c c' d with
  | eps => exact ⟨c', List.mem_singleton_self _, List.mem_singleton.mp read ▸ lags⟩
  | set visible =>
    obtain ⟨x, rest, after, good, rfl⟩ := mem_run_set.mp read
    rw [after] at lags
    obtain ⟨thin, after', further⟩ := (lags.visible (visible x good)).of_visible (visible x good)
    exact ⟨_, mem_run_set.mpr ⟨x, thin, after', good, rfl⟩, further.lags⟩
  | star visible =>
    obtain ⟨xs, rest, after, all, rfl⟩ := mem_run_star_set.mp read
    have seen : ∀ x ∈ xs, isSpace x = false := fun x member =>
      visible x (List.all_eq_true.mp all x member)
    rw [after] at lags
    cases xs with
    | nil => exact ⟨_, mem_run_star_set.mpr ⟨[], _, rfl, rfl, rfl⟩, lags⟩
    | cons x xs =>
      have thins : Thins (x :: xs ++ rest) c'.after := lags.visible (seen x List.mem_cons_self)
      obtain ⟨thin, after', further⟩ := thins.of_append seen
      exact ⟨_, mem_run_star_set.mpr ⟨x :: xs, thin, after', all, rfl⟩, further.lags⟩
  | space allowed =>
    obtain rfl := stars _ allowed
    obtain ⟨xs, rest, after, all, rfl⟩ := mem_run_star_set.mp read
    rw [after] at lags
    exact ⟨_, mem_run_star_set.mpr ⟨c'.after.takeWhile isSpace, _, List.takeWhile_append_dropWhile.symm,
      List.all_eq_true.mpr fun x => List.mem_takeWhile_imp, rfl⟩, lags.skip (List.all_eq_true.mp all)⟩
  | seq _ _ ih ih' =>
    obtain ⟨e, first, second⟩ := mem_run_seq.mp read
    obtain ⟨e', first', lags'⟩ := ih lags first
    obtain ⟨d', second', last⟩ := ih' lags' second
    exact ⟨d', mem_run_seq.mpr ⟨e', first', second'⟩, last⟩
  | alt _ _ ih ih' =>
    rcases mem_run_alt.mp read with first | second
    · obtain ⟨d', first', last⟩ := ih lags first
      exact ⟨d', mem_run_alt.mpr (.inl first'), last⟩
    · obtain ⟨d', second', last⟩ := ih' lags second
      exact ⟨d', mem_run_alt.mpr (.inr second'), last⟩

theorem Blind.fullMatch (blind : Blind (some (.star (.set isSpace))) r) (lags : Lags text thin)
    (whole : r.fullMatch text = true) : r.fullMatch thin = true := by
  rw [Regex.fullMatch, List.any_eq_true] at whole ⊢
  obtain ⟨d, read, ends⟩ := whole
  obtain ⟨d', read', last⟩ := @Blind.thinner _ _ (.start text) d (.start thin) blind
    (fun _ isStar => (Option.some.inj isStar).symm) lags read
  rw [List.isEmpty_iff.mp ends] at last
  exact ⟨d', read', List.isEmpty_iff.mpr last.eq_nil⟩

theorem mem_run_sequence_concat : d ∈ (sequence (rs ++ [r])).run c ↔
    ∃ e ∈ (sequence rs).run c, d ∈ r.run e := by
  induction rs generalizing c with
  | nil => simp [sequence, run]
  | cons s rs ih =>
    cases rs with
    | nil => exact mem_run_seq
    | cons t rs =>
      have split : sequence (s :: t :: rs ++ [r]) = .seq s (sequence (t :: rs ++ [r])) := rfl
      have split' : sequence (s :: t :: rs) = .seq s (sequence (t :: rs)) := rfl
      simp only [split, split', mem_run_seq, ih]
      constructor
      · rintro ⟨e, first, f, second, last⟩
        exact ⟨f, ⟨e, first, second⟩, last⟩
      · rintro ⟨f, ⟨e, first, second⟩, last⟩
        exact ⟨e, first, f, second, last⟩

theorem thins_of_visible {xs : List Char} (visible : ∀ x ∈ xs, isSpace x = false) : Thins xs xs := by
  induction xs with
  | nil => exact .blank (List.forall_mem_nil _)
  | cons x xs ih =>
    rw [List.forall_mem_cons] at visible
    exact .char visible.1 (ih visible.2)

/-- Visible characters at the end of a text, which is met from there. -/
theorem search_dollar_of_thins (blind : Blind none (sequence rs)) (thins : Thins text thin)
    (first : text.head?.any isSpace = false)
    (found : ((sequence (rs ++ [dollar])).search text.reverse).isSome = true) :
    ((sequence (rs ++ [dollar])).search thin.reverse).isSome = true := by
  obtain ⟨passed, rest, cut, answers⟩ := search_isSome.mp found
  obtain ⟨d, ends⟩ := run_ne_nil.mp answers
  obtain ⟨e, read, atEnd_⟩ := mem_run_sequence_concat.mp ends
  obtain ⟨xs, isRest, visible⟩ := blind.passed read
  have isRest : rest = xs ++ e.after := isRest
  have noTail : e.after = [] := by
    rcases mem_run_alt.mp atEnd_ with here | ahead
    · exact (mem_run_atEnd.mp here).1
    · obtain ⟨f, break_⟩ := run_ne_nil.mp (mem_run_ahead.mp ahead).1
      obtain ⟨g, line, isEnd⟩ := mem_run_seq.mp break_
      obtain ⟨more, isTail, rfl⟩ := mem_run_char.mp line
      have none_ : more = [] := (mem_run_atEnd.mp isEnd).1
      have last : text.reverse.getLast? = some '\n' := by
        rw [cut, isRest, isTail, none_, ← List.append_assoc, List.getLast?_concat]
      rw [List.getLast?_reverse] at last
      rw [last] at first
      cases first
  rw [noTail, List.append_nil] at isRest
  have whole : text = xs.reverse ++ passed.reverse := by
    rw [← List.reverse_append, ← List.reverse_reverse text, cut, isRest]
  rw [whole] at thins
  obtain ⟨others, rfl, -⟩ := thins.of_append fun c inside => visible c (List.mem_reverse.mp inside)
  have here : Lags rest xs := isRest ▸ (thins_of_visible visible).lags
  obtain ⟨f, read', last⟩ := @Blind.thinner _ _ { before := passed.reverse, after := rest } e
    { before := others, after := xs } blind (fun _ none_ => nomatch none_) here read
  rw [noTail] at last
  refine search_isSome.mpr ⟨others.reverse, xs, by simp, run_ne_nil.mpr ⟨f,
    mem_run_sequence_concat.mpr ⟨f, ?_, mem_run_alt.mpr (.inl (mem_run_atEnd.mpr ⟨last.eq_nil, rfl⟩))⟩⟩⟩
  rwa [List.reverse_reverse]

/-! ### Read in the thin text, read in the text -/

/-- Two texts that end the same for whoever asks for a visible character: they are given from their
ends. -/
def SameEnd (first second : List Char) : Prop :=
  ∀ p : Char → Bool, (∀ c, isSpace c = true → p c = false) → first.head?.any p = second.head?.any p

theorem SameEnd.append (same : SameEnd first second) (xs : List Char) :
    SameEnd (xs ++ first) (xs ++ second) := by
  cases xs with
  | nil => exact same
  | cons x xs => exact fun _ _ => rfl

theorem sameEnd_of_blank (blank : ∀ c ∈ first, isSpace c = true)
    (blank' : ∀ c ∈ second, isSpace c = true) : SameEnd first second := by
  have none_ {xs : List Char} (blank : ∀ c ∈ xs, isSpace c = true) {p : Char → Bool}
      (solid : ∀ c, isSpace c = true → p c = false) : xs.head?.any p = false := by
    cases xs with
    | nil => rfl
    | cons x xs => exact solid x (blank x List.mem_cons_self)
  exact fun p solid => (none_ blank solid).trans (none_ blank' solid).symm

/-- The readers stand at the same place of a text and the thin text. -/
structure Meets (c c' : Cursor) : Prop where
  after : Thins c.after c'.after
  before : SameEnd c.before c'.before

/-- **What is read of the thin text is read of the text**, where runs of whitespace may be longer. -/
theorem Blind.wider (blind : Blind (some (.plus (.set isSpace))) r) (meets : Meets c c')
    (read : d' ∈ r.run c') : ∃ d ∈ r.run c, Meets d d' := by
  induction blind generalizing c c' d' with
  | eps => exact ⟨c, List.mem_singleton_self _, List.mem_singleton.mp read ▸ meets⟩
  | set visible =>
    obtain ⟨x, thin, after, good, rfl⟩ := mem_run_set.mp read
    obtain ⟨rest, after', further⟩ := (after ▸ meets.after).of_visible_thin (visible x good)
    exact ⟨_, mem_run_set.mpr ⟨x, rest, after', good, rfl⟩, further, fun _ _ => rfl⟩
  | star visible =>
    obtain ⟨xs, thin, after, all, rfl⟩ := mem_run_star_set.mp read
    obtain ⟨rest, after', further⟩ := (after ▸ meets.after).of_append_thin fun x member =>
      visible x (List.all_eq_true.mp all x member)
    exact ⟨_, mem_run_star_set.mpr ⟨xs, rest, after', all, rfl⟩, further, meets.before.append _⟩
  | space isPlus =>
    obtain rfl := Option.some.inj isPlus
    obtain ⟨xs, thin, after, some_, all, rfl⟩ := mem_run_plus_set.mp read
    obtain ⟨gap, rest, after', same, blank, further⟩ :=
      (after ▸ meets.after).of_spaces_thin (List.all_eq_true.mp all)
    refine ⟨_, mem_run_plus_set.mpr ⟨gap, rest, after', mt same.mp some_, List.all_eq_true.mpr blank, rfl⟩,
      further, fun p solid => ?_⟩
    have ends := sameEnd_of_blank (fun c member => blank c (List.mem_reverse.mp member))
      (fun c member => List.all_eq_true.mp all c (List.mem_reverse.mp member)) p solid
    rwa [Cursor.past, Cursor.past,
      List.head?_append_of_ne_nil _ (mt (List.reverse_eq_nil_iff.trans same).mp some_),
      List.head?_append_of_ne_nil _ (mt List.reverse_eq_nil_iff.mp some_)]
  | seq _ _ ih ih' =>
    obtain ⟨e', first, second⟩ := mem_run_seq.mp read
    obtain ⟨e, first', meets'⟩ := ih meets first
    obtain ⟨d, second', last⟩ := ih' meets' second
    exact ⟨d, mem_run_seq.mpr ⟨e, first', second'⟩, last⟩
  | alt _ _ ih ih' =>
    rcases mem_run_alt.mp read with first | second
    · obtain ⟨d, first', last⟩ := ih meets first
      exact ⟨d, mem_run_alt.mpr (.inl first'), last⟩
    · obtain ⟨d, second', last⟩ := ih' meets second
      exact ⟨d, mem_run_alt.mpr (.inr second'), last⟩

/-- A pattern that reads only where a visible character is next. -/
def Opens (r : Regex) : Prop :=
  ∀ c d, d ∈ r.run c → c.after ≠ [] ∧ c.after.head?.any isSpace = false

theorem Opens.set (visible : ∀ c, p c = true → isSpace c = false) : Opens (.set p) := by
  intro c d found
  obtain ⟨x, rest, after, good, -⟩ := mem_run_set.mp found
  rw [after]
  exact ⟨List.cons_ne_nil _ _, visible x good⟩

theorem Opens.sequence (opens : Opens r) (rs : List Regex) : Opens (sequence (r :: rs)) := by
  cases rs with
  | nil => exact opens
  | cons s rs =>
    intro c d found
    obtain ⟨e, first, -⟩ := mem_run_seq.mp found
    exact opens c e first

theorem Opens.anyOf (each : ∀ r ∈ rs, Opens r) : Opens (anyOf rs) := by
  intro c d found
  obtain ⟨r, listed, found⟩ := mem_run_anyOf.mp found
  exact each r listed c d found

theorem Opens.ignoringCase (nonempty : word.toList ≠ []) (visible : isVisibleWord word = true) :
    Opens (ignoringCase word) := by
  obtain ⟨c, rest, isWord⟩ := List.exists_cons_of_ne_nil nonempty
  rw [Regex.ignoringCase, isWord, List.map_cons]
  rw [isVisibleWord, isWord, List.all_cons, Bool.and_eq_true, Bool.and_eq_true, Bool.not_eq_true',
    Bool.not_eq_true'] at visible
  exact .sequence (.set fun d => visible_of_anyCase visible.1.1 visible.1.2) _

/-- Words behind whitespace, up to the boundary of the last one, are read in a text with longer runs
too, and without whitespace in front of it. -/
theorem matchAt_of_thins {words : Regex} {word : Char → Bool}
    (blind : Blind (some (.plus (.set isSpace))) words) (opens : Opens words)
    (solid : ∀ c, isSpace c = true → word c = false) {gap : List Char}
    (blank : ∀ c ∈ gap, isSpace c = true) (thins : Thins (gap ++ text) thin)
    (found : ((sequence [.star (.set isSpace), words, .boundary word]).matchAt (.start thin)).isSome =
      true) :
    ((sequence [.star (.set isSpace), words, .boundary word]).matchAt (.start text)).isSome = true := by
  rw [matchAt_isSome, run_ne_nil] at found ⊢
  obtain ⟨d, found⟩ := found
  obtain ⟨e, spaces, behind⟩ := mem_run_seq.mp found
  obtain ⟨f, read, ends⟩ := mem_run_seq.mp behind
  obtain ⟨xs, rest, isThin, all, rfl⟩ := mem_run_star_set.mp spaces
  have isThin : thin = xs ++ rest := isThin
  obtain ⟨some_, visible⟩ := opens _ _ read
  -- the words begin with a visible character, so the whitespace in front is all passed by then
  have skipped : Thins (text.dropWhile isSpace) rest := by
    have dropped := thins.dropSpaces
    rw [List.dropWhile_append_of_pos blank, isThin,
      List.dropWhile_append_of_pos (List.all_eq_true.mp all)] at dropped
    obtain ⟨x, more, rfl⟩ := List.exists_cons_of_ne_nil some_
    rwa [List.dropWhile_cons_of_neg (by
      have seen : isSpace x = false := visible
      simp [seen])] at dropped
  have front : ∀ c ∈ (text.takeWhile isSpace).reverse ++ [], isSpace c = true := by
    simpa using fun c => List.mem_takeWhile_imp
  have passed : ∀ c ∈ xs.reverse ++ [], isSpace c = true := by simpa using all
  have meets : Meets ((Cursor.start text).past (text.takeWhile isSpace) (text.dropWhile isSpace))
      ((Cursor.start thin).past xs rest) := ⟨skipped, sameEnd_of_blank front passed⟩
  obtain ⟨g, read', meets'⟩ := blind.wider meets read
  have apart : (f.before.head?.any word != f.after.head?.any word) = true := by
    by_contra same
    change d ∈ (boundary word).run f at ends
    rw [boundary, run, if_neg same] at ends
    cases ends
  rw [← meets'.before word solid, ← meets'.after.head_any solid] at apart
  refine ⟨g, mem_run_seq.mpr ⟨_, mem_run_star_set.mpr ⟨_, _, List.takeWhile_append_dropWhile.symm,
    List.all_eq_true.mpr fun c => List.mem_takeWhile_imp, rfl⟩, mem_run_seq.mpr ⟨g, read', ?_⟩⟩⟩
  show g ∈ (boundary word).run g
  rw [boundary, run, if_pos apart]
  exact List.mem_singleton_self g

end Blind

end Regex

end AxiomEncode.Theory
