/-
# Migration.PathPlanSpec -- what an admitted move says about its two paths

A destination is plain: lower-case letters, digits, `.`, `_`, `-` and slashes.  A source
that is plain is its own destination, so an admitted source is not.  And normalization
loses no text: where the source goes on behind a plain beginning, the destination holds
more than that beginning (`solid_destination`).
-/
import AxiomEncode.Migration.PathPlan
import Mathlib

namespace AxiomEncode.Migration

open Theory

set_option autoImplicit false

/-- A character of a safe component. -/
def isPlain (c : Char) : Bool := isLowerAlnum c || c == '.' || c == '_' || c == '-'

/-- A character that normalization removes. -/
def isFlaw (c : Char) : Bool := !(isPlain c || c == '/')

def isSolid (c : Char) : Bool := c ≠ '/'

variable {c : Char} {text front back component piece stem : Text} {path source destination : Path}
  {pieces : List Text} {unicode : Unicode}

/-- The plain characters are ASCII, and normalization keeps them. -/
theorem plain_range (plain : isPlain c = true) :
    (97 ≤ c.toNat ∧ c.toNat ≤ 122) ∨ (48 ≤ c.toNat ∧ c.toNat ≤ 57) ∨
      c = '.' ∨ c = '_' ∨ c = '-' := by
  simp only [isPlain, isLowerAlnum, isLowerLetter, Char.isDigit, Bool.or_eq_true, Bool.and_eq_true,
    decide_eq_true_eq, beq_iff_eq] at plain
  rcases plain with (((⟨low, high⟩ | ⟨low, high⟩) | same) | same) | same
  · exact .inl ⟨low, high⟩
  · exact .inr (.inl ⟨low, high⟩)
  · exact .inr (.inr (.inl same))
  · exact .inr (.inr (.inr (.inl same)))
  · exact .inr (.inr (.inr (.inr same)))

theorem ne_of_plain {d : Char} (plain : isPlain c = true) (other : isPlain d = false) : c ≠ d := by
  rintro rfl
  rw [plain] at other
  cases other

theorem isAscii_of_plain (plain : isPlain c = true) : isAscii c = true := by
  rw [isAscii, decide_eq_true_eq]
  rcases plain_range plain with ⟨-, high⟩ | ⟨-, high⟩ | rfl | rfl | rfl
  · omega
  · omega
  all_goals decide

theorem isSpace_of_plain (plain : isPlain c = true) : isSpace c = false := by
  have ascii := isAscii_of_plain plain
  rw [isAscii, decide_eq_true_eq] at ascii
  rcases plain_range plain with ⟨low, high⟩ | ⟨low, high⟩ | rfl | rfl | rfl
  · simp [isSpace]
    omega
  · simp [isSpace]
    omega
  all_goals decide

theorem not_dash_of_ascii (ascii : isAscii c = true) : c ∉ nonAsciiDashes := by
  intro member
  simp only [nonAsciiDashes, List.mem_cons, List.not_mem_nil, or_false] at member
  rcases member with rfl | rfl | rfl | rfl | rfl | rfl | rfl | rfl | rfl <;>
    exact absurd ascii (by decide)

theorem toLower_of_plain (plain : isPlain c = true) : c.toLower = c := by
  rw [Char.toLower, dif_neg]
  rintro ⟨low, high⟩
  have low' : 65 ≤ c.toNat := low
  have high' : c.toNat ≤ 90 := high
  rcases plain_range plain with ⟨low, -⟩ | ⟨-, high⟩ | rfl | rfl | rfl
  · omega
  · omega
  · exact absurd low' (by decide)
  · exact absurd high' (by decide)
  · exact absurd low' (by decide)

theorem isSolid_of_plain (plain : isPlain c = true) : isSolid c = true := by
  rw [isSolid, decide_eq_true_eq]
  exact ne_of_plain plain (by decide)

theorem flatMap_expansion_plain (plain : ∀ c ∈ text, isPlain c = true) :
    text.flatMap unicode.expansion = text := by
  induction text with
  | nil => rfl
  | cons c text ih =>
    rw [List.flatMap_cons, unicode.expansion_ascii c (isAscii_of_plain (plain c (by simp))),
      ih fun c member => plain c (List.mem_cons_of_mem _ member), List.singleton_append]

theorem map_toLower_plain (plain : ∀ c ∈ text, isPlain c = true) : text.map Char.toLower = text :=
  (List.map_congr_left fun c member => toLower_of_plain (plain c member)).trans (List.map_id _)

/-! ## Normalizing a component -/

/-- Dashes translated and colons replaced. -/
def recoded (text : Text) : Text :=
  (translateDashes text).map fun c => if c = ':' then '/' else c

theorem recoded_append (front back : Text) : recoded (front ++ back) = recoded front ++ recoded back := by
  simp [recoded, translateDashes]

theorem recoded_plain (plain : ∀ c ∈ text, isPlain c = true) : recoded text = text := by
  rw [recoded, translateDashes, List.map_map]
  refine (List.map_congr_left fun c member => ?_).trans (List.map_id _)
  have kept := plain c member
  have noColon : c ≠ ':' := ne_of_plain kept (by decide)
  simp [not_dash_of_ascii (isAscii_of_plain kept), noColon]

theorem dashSpaces_append_cons (within : Bool) (visible : isSpace c = false) (front back : Text) :
    dashSpaces within (front ++ c :: back) = dashSpaces within front ++ c :: dashSpaces false back := by
  induction front generalizing within with
  | nil => simp [dashSpaces, visible]
  | cons d front ih =>
    rw [List.cons_append, dashSpaces, dashSpaces]
    split_ifs <;> simp [ih]

theorem dashSpaces_plain_append (plain : ∀ c ∈ front, isPlain c = true) (back : Text) :
    dashSpaces false (front ++ back) = front ++ dashSpaces false back := by
  induction front with
  | nil => rfl
  | cons c front ih =>
    rw [List.cons_append, dashSpaces, if_neg (by simp [isSpace_of_plain (plain c (by simp))]),
      ih fun c member => plain c (List.mem_cons_of_mem _ member), List.cons_append]

theorem dashSpaces_ne_nil (nonempty : text ≠ []) : dashSpaces false text ≠ [] := by
  obtain ⟨c, rest, rfl⟩ := List.exists_cons_of_ne_nil nonempty
  rw [dashSpaces]
  split_ifs <;> simp_all

/-- A character that is no space is kept. -/
theorem mem_dashSpaces {within : Bool} (visible : isSpace c = false) (member : c ∈ text) :
    c ∈ dashSpaces within text := by
  obtain ⟨front, back, rfl⟩ := List.append_of_mem member
  rw [dashSpaces_append_cons within visible]
  simp

theorem of_mem_dashSpaces {within : Bool} (member : c ∈ dashSpaces within text) :
    c = '-' ∨ c ∈ text := by
  induction text generalizing within with
  | nil => cases member
  | cons d text ih =>
    rw [dashSpaces] at member
    split_ifs at member
    · exact (ih member).imp_right (List.mem_cons_of_mem _)
    · rcases List.mem_cons.mp member with same | later
      · exact .inl same
      · exact (ih later).imp_right (List.mem_cons_of_mem _)
    · rcases List.mem_cons.mp member with rfl | later
      · exact .inr List.mem_cons_self
      · exact (ih later).imp_right (List.mem_cons_of_mem _)

theorem normalizeComponent_eq_ok (ok : unicode.normalizeComponent component = .ok pieces) :
    pieces = ((unicode.normalizedText component).splitOn '/').filter (fun piece => !piece.isEmpty)
      ∧ pieces ≠ [] ∧ ∀ piece ∈ pieces, isSafeComponent piece = true := by
  rw [Unicode.normalizeComponent] at ok
  split_ifs at ok with refused
  cases ok
  rw [Bool.or_eq_true, not_or, List.isEmpty_iff, Bool.not_eq_true', ← Bool.not_eq_true,
    not_not, List.all_eq_true] at refused
  exact ⟨rfl, refused⟩

theorem plain_of_safe (safe : isSafeComponent piece = true) :
    piece ≠ [] ∧ ∀ c ∈ piece, isPlain c = true := by
  rw [isSafeComponent, Bool.and_eq_true, Bool.and_eq_true, List.all_eq_true] at safe
  refine ⟨?_, safe.2⟩
  rintro rfl
  cases safe.1.1

/-- The normalized text of an admitted component holds plain characters and slashes. -/
theorem mem_normalizedText (ok : unicode.normalizeComponent component = .ok pieces)
    (member : c ∈ unicode.normalizedText component) : isPlain c = true ∨ c = '/' := by
  obtain ⟨rfl, -, safe⟩ := normalizeComponent_eq_ok ok
  rw [← @List.intercalate_splitOn _ (unicode.normalizedText component) _ _ '/'] at member
  rcases mem_intercalate member with slash | ⟨piece, inside, here⟩
  · exact .inr slash
  · have nonempty : piece ≠ [] := List.ne_nil_of_mem here
    have kept := safe piece (List.mem_filter.mpr ⟨inside, by simpa using nonempty⟩)
    exact .inl ((plain_of_safe kept).2 c here)

/-- An admitted component is normalized character by character. -/
theorem normalizedText_eq (ok : unicode.normalizeComponent component = .ok pieces) :
    unicode.normalizedText component
      = (dashSpaces false (recoded (component.flatMap unicode.expansion))).map Char.toLower := by
  have ascii : ∀ c ∈ unicode.lower (dashSpaces false (recoded (unicode.nfkc component))),
      isAscii c = true := by
    intro c member
    rcases mem_normalizedText ok member with plain | rfl
    · exact isAscii_of_plain plain
    · decide
  have noKelvin : kelvinSign ∉ dashSpaces false (recoded (unicode.nfkc component)) := by
    intro member
    rcases of_mem_dashSpaces member with same | member
    · exact absurd same (by decide)
    · obtain ⟨c, inside, same⟩ := List.mem_map.mp member
      obtain ⟨d, before, rfl⟩ := List.mem_map.mp inside
      split_ifs at same
      · exact absurd same (by decide)
      · exact absurd same (by decide)
      · exact absurd same (by decide)
      · exact unicode.nfkc_noKelvin component (same ▸ before)
  have before := unicode.lower_onlyAscii _ noKelvin ascii
  have expands := unicode.nfkc_expands component (by
    intro c member
    by_cases space : isSpace c = true
    · exact .inr (.inr space)
    by_cases dash : c ∈ nonAsciiDashes
    · exact .inr (.inl dash)
    by_cases colon : c = ':'
    · rw [colon]
      exact .inl (by decide)
    · refine .inl (before c (mem_dashSpaces (by simpa using space) ?_))
      refine List.mem_map.mpr ⟨c, List.mem_map.mpr ⟨c, member, ?_⟩, by simp [colon]⟩
      simp [dash])
  rw [Unicode.normalizedText]
  change unicode.lower (dashSpaces false (recoded (unicode.nfkc component))) = _
  rw [unicode.lower_ascii _ before, expands]

/-! ## No text is lost -/

def plainCount (text : Text) : Nat := text.countP isPlain

def solidCount (text : Text) : Nat := text.countP isSolid

theorem plainCount_append (front back : Text) :
    plainCount (front ++ back) = plainCount front + plainCount back :=
  List.countP_append

theorem solidCount_append (front back : Text) :
    solidCount (front ++ back) = solidCount front + solidCount back :=
  List.countP_append

theorem solidCount_intercalate (parts : List Text) :
    solidCount (['/'].intercalate parts) = (parts.map solidCount).sum := by
  induction parts with
  | nil => rfl
  | cons part parts ih =>
    cases parts with
    | nil => simp
    | cons next parts =>
      rw [List.intercalate_cons_cons, solidCount_append, solidCount_append, ih, List.map_cons,
        List.sum_cons]
      rfl

theorem plainCount_expand (unicode : Unicode) (text : Text) :
    plainCount text ≤ plainCount (text.flatMap unicode.expansion) := by
  induction text with
  | nil => exact le_rfl
  | cons c text ih =>
    rw [List.flatMap_cons, plainCount_append, ← List.singleton_append, plainCount_append]
    refine Nat.add_le_add ?_ ih
    cases plain : isPlain c with
    | false => simp [plainCount, plain]
    | true => rw [unicode.expansion_ascii c (isAscii_of_plain plain)]

theorem plainCount_recoded (text : Text) : plainCount text ≤ plainCount (recoded text) := by
  rw [recoded, translateDashes, List.map_map, plainCount, plainCount, List.countP_map]
  refine List.countP_mono_left fun c _ plain => ?_
  have noColon : c ≠ ':' := ne_of_plain plain (by decide)
  simp [not_dash_of_ascii (isAscii_of_plain plain), noColon, plain]

theorem plainCount_dashSpaces (within : Bool) (text : Text) :
    plainCount text ≤ plainCount (dashSpaces within text) := by
  induction text generalizing within with
  | nil => exact le_rfl
  | cons c text ih =>
    rw [dashSpaces, ← List.singleton_append, plainCount_append]
    split_ifs with space open'
    · have noPlain : isPlain c = false := by
        by_contra plain
        rw [isSpace_of_plain (by simpa using plain)] at space
        cases space
      have := ih true
      simpa [plainCount, noPlain] using this
    · rw [← @List.singleton_append _ '-' (dashSpaces true text), plainCount_append]
      refine Nat.add_le_add ?_ (ih true)
      calc plainCount [c] ≤ 1 := List.countP_le_length
        _ = plainCount ['-'] := by decide
    · rw [← @List.singleton_append _ c (dashSpaces false text), plainCount_append]
      exact Nat.add_le_add_left (ih false) _

theorem isSolid_toLower (solid : isSolid c = true) : isSolid c.toLower = true := by
  rw [isSolid, decide_eq_true_eq] at solid ⊢
  intro slash
  rw [Char.toLower] at slash
  split_ifs at slash with upper
  · have low : 65 ≤ c.val.toNat := upper.1
    have high : c.val.toNat ≤ 90 := upper.2
    have value := congrArg Char.toNat slash
    have wide : (c.val + ('a'.val - 'A'.val)).toNat = 47 := value
    rw [UInt32.toNat_add] at wide
    have shift : ('a'.val - 'A'.val).toNat = 32 := by decide
    rw [shift] at wide
    omega
  · exact solid slash

theorem plainCount_toLower (text : Text) : plainCount text ≤ solidCount (text.map Char.toLower) := by
  rw [plainCount, solidCount, List.countP_map]
  exact List.countP_mono_left fun c _ plain => isSolid_toLower (isSolid_of_plain plain)

theorem solid_normalizedText (ok : unicode.normalizeComponent component = .ok pieces) :
    plainCount component ≤ solidCount (unicode.normalizedText component) := by
  rw [normalizedText_eq ok]
  calc plainCount component
      ≤ plainCount (component.flatMap unicode.expansion) := plainCount_expand unicode component
    _ ≤ plainCount (recoded (component.flatMap unicode.expansion)) := plainCount_recoded _
    _ ≤ plainCount (dashSpaces false (recoded (component.flatMap unicode.expansion))) :=
        plainCount_dashSpaces false _
    _ ≤ _ := plainCount_toLower _

theorem solidCount_pieces (ok : unicode.normalizeComponent component = .ok pieces) :
    (pieces.map solidCount).sum = solidCount (unicode.normalizedText component) := by
  have dropped (parts : List Text) :
      ((parts.filter fun piece => !piece.isEmpty).map solidCount).sum = (parts.map solidCount).sum := by
    induction parts with
    | nil => rfl
    | cons part parts ih =>
      cases part with
      | nil => simpa [solidCount] using ih
      | cons c part => simpa using ih
  obtain ⟨rfl, -, -⟩ := normalizeComponent_eq_ok ok
  rw [dropped, ← solidCount_intercalate, List.intercalate_splitOn]

/-- A component that ends in `.yaml` behind a plain text and more gives more than that. -/
theorem solid_normalizedText_yaml {x : Text} (plain : ∀ c ∈ front, isPlain c = true) (more : x ≠ [])
    (ok : unicode.normalizeComponent (front ++ (x ++ dotYaml)) = .ok pieces) :
    plainCount front + 6 ≤ solidCount (unicode.normalizedText (front ++ (x ++ dotYaml))) := by
  have yamlPlain : ∀ c ∈ dotYaml, isPlain c = true := List.forall_iff_forall_mem.mp (by decide)
  -- what stands between the front and `.yaml`
  obtain ⟨middle, nonempty, split⟩ : ∃ middle, middle ≠ []
      ∧ unicode.normalizedText (front ++ (x ++ dotYaml)) = front ++ (middle ++ dotYaml) := by
    refine ⟨(dashSpaces false (recoded (x.flatMap unicode.expansion))).map Char.toLower, ?_, ?_⟩
    · obtain ⟨c, rest, rfl⟩ := List.exists_cons_of_ne_nil more
      obtain ⟨d, tail, expanded⟩ := List.exists_cons_of_ne_nil (unicode.expansion_ne_nil c)
      intro empty
      refine dashSpaces_ne_nil ?_ (List.map_eq_nil_iff.mp empty)
      simp [expanded, recoded, translateDashes]
    · rw [normalizedText_eq ok, List.flatMap_append, List.flatMap_append, flatMap_expansion_plain plain,
        flatMap_expansion_plain yamlPlain, recoded_append, recoded_append, recoded_plain plain,
        recoded_plain yamlPlain, dashSpaces_plain_append plain, List.map_append, map_toLower_plain plain]
      congr 1
      have behind : dashSpaces false (recoded (x.flatMap unicode.expansion) ++ dotYaml)
          = dashSpaces false (recoded (x.flatMap unicode.expansion)) ++ dotYaml :=
        dashSpaces_append_cons false (by decide) _ _
      rw [behind, List.map_append, map_toLower_plain yamlPlain]
  have solidFront : plainCount front ≤ solidCount front :=
    List.countP_mono_left fun c _ plain => isSolid_of_plain plain
  obtain ⟨body, last, rfl⟩ : ∃ body last, middle = body ++ [last] :=
    ⟨_, _, (List.dropLast_concat_getLast nonempty).symm⟩
  have solidLast : isSolid last = true := by
    by_contra slash
    obtain rfl : last = '/' := by simpa [isSolid] using slash
    obtain ⟨isPieces, -, safe⟩ := normalizeComponent_eq_ok ok
    have piece : dotYaml ∈ pieces := by
      rw [isPieces, split, List.mem_filter]
      refine ⟨?_, rfl⟩
      rw [show front ++ (body ++ ['/'] ++ dotYaml) = (front ++ body) ++ '/' :: dotYaml by simp,
        List.splitOn_append_cons_self, List.mem_append]
      exact .inr (by decide)
    exact absurd (safe _ piece) (by decide)
  have one : solidCount [last] = 1 := by simp [solidCount, solidLast]
  have five : solidCount dotYaml = 5 := by decide
  rw [split, solidCount_append, solidCount_append, solidCount_append, one, five]
  omega

/-! ## A path and its destination -/

/-- The components in front of the last one, each with its slash. -/
def leading (front : Path) : Text := front.flatMap fun component => component ++ ['/']

theorem asPosix_concat (front : Path) (last : Text) : asPosix (front ++ [last]) = leading front ++ last := by
  rw [asPosix, if_neg (by simp)]
  induction front with
  | nil => simp [leading]
  | cons component front ih =>
    obtain ⟨next, rest, split⟩ := List.exists_cons_of_ne_nil (show front ++ [last] ≠ [] by simp)
    rw [List.cons_append, split, List.intercalate_cons_cons, ← split, ih]
    simp [leading]

theorem canonicalDestination_cons {rest : Path} :
    unicode.canonicalDestination (component :: rest) = .ok destination ↔
      ∃ pieces tail, unicode.normalizeComponent component = .ok pieces
        ∧ unicode.canonicalDestination rest = .ok tail ∧ destination = pieces ++ tail := by
  rw [Unicode.canonicalDestination, bind_eq_ok_iff]
  constructor
  · rintro ⟨parts, mapped, flat⟩
    obtain ⟨pieces, others, head, tail, rfl⟩ := mapM_cons_eq_ok_iff.mp mapped
    refine ⟨pieces, others.flatten, head, bind_eq_ok_iff.mpr ⟨others, tail, rfl⟩, ?_⟩
    rw [← Except.ok.inj flat, List.flatten_cons]
  · rintro ⟨pieces, tail, head, others, rfl⟩
    obtain ⟨parts, mapped, flat⟩ := bind_eq_ok_iff.mp others
    refine ⟨pieces :: parts, mapM_cons_eq_ok_iff.mpr ⟨pieces, parts, head, mapped, rfl⟩, ?_⟩
    rw [← Except.ok.inj flat]
    rfl

/-- The destination begins with what comes of the components in front of the last one. -/
theorem exists_of_canonicalDestination {front : Path} {last : Text}
    (ok : unicode.canonicalDestination (front ++ [last]) = .ok destination) :
    ∃ head pieces, destination = head ++ pieces ∧ unicode.normalizeComponent last = .ok pieces
      ∧ plainCount (leading front) ≤ (head.map solidCount).sum := by
  induction front generalizing destination with
  | nil =>
    obtain ⟨pieces, tail, normalized, others, rfl⟩ := canonicalDestination_cons.mp ok
    cases others
    exact ⟨[], pieces, by simp, normalized, le_rfl⟩
  | cons component front ih =>
    obtain ⟨pieces, tail, normalized, others, rfl⟩ := canonicalDestination_cons.mp ok
    obtain ⟨head, lastPieces, rfl, lastNormalized, bound⟩ := ih others
    refine ⟨pieces ++ head, lastPieces, by simp, lastNormalized, ?_⟩
    rw [List.map_append, List.sum_append, solidCount_pieces normalized, leading, List.flatMap_cons,
      ← leading, plainCount_append, plainCount_append]
    have slash : plainCount ['/'] = 0 := by decide
    have := solid_normalizedText normalized
    omega

theorem mem_canonicalDestination (ok : unicode.canonicalDestination source = .ok destination) :
    ∀ piece ∈ destination, isSafeComponent piece = true := by
  induction source generalizing destination with
  | nil =>
    cases ok
    simp
  | cons component source ih =>
    obtain ⟨pieces, tail, normalized, others, rfl⟩ := canonicalDestination_cons.mp ok
    intro piece member
    rcases List.mem_append.mp member with here | later
    · exact (normalizeComponent_eq_ok normalized).2.2 piece here
    · exact ih others piece later

theorem solidCount_asPosix (nonempty : path ≠ []) :
    solidCount (asPosix path) = (path.map solidCount).sum := by
  rw [asPosix, if_neg nonempty, solidCount_intercalate]

/-- **A source that goes on behind a plain beginning has a longer destination.** -/
theorem solid_destination {front : Path} {start x : Text}
    (ok : unicode.canonicalDestination (front ++ [stem ++ dotYaml]) = .ok destination)
    (nonempty : stem ≠ []) (flat : '/' ∉ stem) (split : leading front ++ stem = start ++ x)
    (more : x ≠ []) (plain : ∀ c ∈ start, isPlain c = true ∨ c = '/') :
    plainCount start + 6 ≤ solidCount (asPosix destination) := by
  obtain ⟨head, pieces, rfl, normalized, bound⟩ := exists_of_canonicalDestination ok
  have present : pieces ≠ [] := (normalizeComponent_eq_ok normalized).2.1
  rw [solidCount_asPosix (by simp [present]), List.map_append, List.sum_append,
    solidCount_pieces normalized]
  rcases List.append_eq_append_iff.mp split with ⟨y, rfl, rfl⟩ | ⟨y, inFront, rfl⟩
  · have plainY : ∀ c ∈ y, isPlain c = true := by
      intro c member
      refine (plain c (List.mem_append_right _ member)).resolve_right ?_
      rintro rfl
      exact flat (List.mem_append_left _ member)
    rw [List.append_assoc] at normalized ⊢
    have := solid_normalizedText_yaml plainY more normalized
    rw [plainCount_append]
    omega
  · have normalized' : unicode.normalizeComponent ([] ++ (stem ++ dotYaml)) = .ok pieces := normalized
    have last := solid_normalizedText_yaml (by simp) nonempty normalized'
    have none : plainCount [] = 0 := rfl
    rw [none, List.nil_append] at last
    rw [inFront, plainCount_append] at bound
    omega

end AxiomEncode.Migration
