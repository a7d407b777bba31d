/-
# Migration.ReferencesSpec -- the rules of a plan are separable

A reference is the text of a primary path, of its module identity or of its companion test
(`ReferenceKind`).  The rules of a plan replace references to sources by references to their
destinations.  `separable_of_plan`: what a rule inserts consists of reference characters and
names the rule, and no token begins with its own replacement.
-/
import AxiomEncode.Migration.PlannedMoves
import AxiomEncode.Migration.References
import AxiomEncode.Theory.TokenSequence
import Mathlib.Data.List.Pairwise

namespace AxiomEncode.Migration

open Theory

set_option autoImplicit false

inductive ReferenceKind where
  | file | identity | companion
  deriving DecidableEq

namespace ReferenceKind

/-- What stands behind the jurisdiction. -/
def mark : ReferenceKind → Char
  | identity => ':'
  | _ => '/'

def ending : ReferenceKind → Text
  | file => dotYaml
  | identity => []
  | companion => dotTestYaml

/-- The reference of a kind to a path. -/
def text (kind : ReferenceKind) (parts : PathParts) : Text :=
  parts.jurisdiction ++ kind.mark :: (parts.body ++ kind.ending)

end ReferenceKind

/-- A rule that a move gives. -/
def IsRuleOf (move : PlannedMove) (rule : TokenRule) : Prop :=
  ∃ (kind : ReferenceKind) (source destination : PathParts),
    move.source = source.path ∧ IsPrimary source
      ∧ move.destination = destination.path ∧ IsPrimary destination
      ∧ rule = ⟨kind.text source, kind.text destination⟩

section References

variable {stem old new : Text} {parts other : PathParts} {path : Path} {move : PlannedMove}
  {rules added : List TokenRule} {rule : TokenRule} {companions : List Path}

theorem stemAndSuffix_yaml (nonempty : stem ≠ []) : stemAndSuffix (stem ++ dotYaml) = (stem, dotYaml) := by
  have run : (stem ++ dotYaml).reverse.takeWhile (· ≠ '.') = ['l', 'm', 'a', 'y'] := by
    rw [List.reverse_append]
    rfl
  have cut : (stem ++ dotYaml).length - 4 - 1 = stem.length := by
    simp [dotYaml]
  rw [stemAndSuffix]
  simp only [run, List.length_reverse, List.length_cons, List.length_nil, Nat.zero_add, Nat.reduceAdd,
    cut, List.take_left]
  rw [if_pos]
  · rfl
  · simp [nonempty, dotYaml]

theorem nameOf_path (parts : PathParts) : nameOf parts.path = parts.stem ++ dotYaml := by
  rw [nameOf, PathParts.path, List.getLastD_concat]

theorem withName_path (parts : PathParts) (name : Text) :
    withName parts.path name = parts.front ++ [name] := by
  rw [withName, PathParts.path, List.dropLast_concat]

theorem asPosix_companionPath (primary : IsPrimary parts) :
    asPosix (companionPath parts.path) = ReferenceKind.companion.text parts := by
  rw [companionPath, nameOf_path, stemAndSuffix_yaml primary.stem, withName_path, asPosix_concat]
  simp [ReferenceKind.text, ReferenceKind.mark, ReferenceKind.ending, PathParts.front, PathParts.body,
    leading]

theorem rulespecIdentity_path (primary : IsPrimary parts) {identity : Text}
    (ok : rulespecIdentity parts.path = .ok identity) :
    identity = ReferenceKind.identity.text parts := by
  rw [rulespecIdentity, bind_eq_ok_iff] at ok
  obtain ⟨_, -, ok⟩ := ok
  rw [withoutSuffix, nameOf_path, stemAndSuffix_yaml primary.stem, withName_path] at ok
  have joined := asPosix_concat parts.directories parts.stem
  rw [asPosix, if_neg (by simp)] at joined
  rw [← Except.ok.inj ok]
  change parts.jurisdiction ++ ':' :: parts.contentRoot
    ++ '/' :: ['/'].intercalate (parts.directories ++ [parts.stem]) = _
  rw [joined]
  simp [ReferenceKind.text, ReferenceKind.mark, ReferenceKind.ending, PathParts.body, leading]

/-! ## The rules of a plan -/

theorem addReplacement_ok (ok : addReplacement rules old new = .ok added) :
    (∀ rule ∈ added, rule ∈ rules ∨ rule = ⟨old, new⟩)
      ∧ ((rules.map TokenRule.old).Nodup → (added.map TokenRule.old).Nodup) := by
  rw [addReplacement] at ok
  cases found : rules.find? fun rule => rule.old = old with
  | none =>
    rw [found] at ok
    cases ok
    refine ⟨fun rule member => by simpa using member, fun nodup => ?_⟩
    rw [List.map_append, List.nodup_append]
    refine ⟨nodup, by simp, ?_⟩
    intro earlier member last isLast
    obtain ⟨rule, inside, rfl⟩ := List.mem_map.mp member
    rw [List.map_singleton, List.mem_singleton] at isLast
    have := List.find?_eq_none.mp found rule inside
    simpa [isLast] using this
  | some prior =>
    rw [found] at ok
    simp only at ok
    split_ifs at ok
    cases ok
    exact ⟨fun rule member => .inl member, id⟩

theorem addMove_ok (admitted : ∃ unicode, Admitted unicode move)
    (ok : addMove companions rules move = .ok added) :
    (∀ rule ∈ added, rule ∈ rules ∨ IsRuleOf move rule)
      ∧ ((rules.map TokenRule.old).Nodup → (added.map TokenRule.old).Nodup) := by
  obtain ⟨_, _, _, ⟨_, primarySource⟩, ⟨_, primaryDestination⟩, -, -⟩ := admitted
  obtain ⟨source, isSource, primarySource⟩ := exists_parts primarySource
  obtain ⟨destination, isDestination, primaryDestination⟩ := exists_parts primaryDestination
  have isRule (kind : ReferenceKind) : IsRuleOf move ⟨kind.text source, kind.text destination⟩ :=
    ⟨kind, source, destination, isSource, primarySource, isDestination, primaryDestination, rfl⟩
  simp only [addMove, bind_eq_ok_iff] at ok
  obtain ⟨first, addFirst, oldIdentity, isOld, newIdentity, isNew, second, addSecond, ok⟩ := ok
  rw [isSource] at isOld
  rw [isDestination] at isNew
  obtain rfl := rulespecIdentity_path primarySource isOld
  obtain rfl := rulespecIdentity_path primaryDestination isNew
  rw [isSource, isDestination, PathParts.asPosix_path, PathParts.asPosix_path] at addFirst
  obtain ⟨fromFirst, nodupFirst⟩ := addReplacement_ok addFirst
  obtain ⟨fromSecond, nodupSecond⟩ := addReplacement_ok addSecond
  have upToSecond : ∀ rule ∈ second, rule ∈ rules ∨ IsRuleOf move rule := by
    intro rule member
    rcases fromSecond rule member with earlier | rfl
    · rcases fromFirst rule earlier with earliest | rfl
      · exact .inl earliest
      · exact .inr (isRule .file)
    · exact .inr (isRule .identity)
  split_ifs at ok
  · rw [isSource, isDestination, asPosix_companionPath primarySource,
      asPosix_companionPath primaryDestination] at ok
    obtain ⟨fromThird, nodupThird⟩ := addReplacement_ok ok
    refine ⟨fun rule member => ?_, fun nodup => nodupThird (nodupSecond (nodupFirst nodup))⟩
    rcases fromThird rule member with earlier | rfl
    · exact upToSecond rule earlier
    · exact .inr (isRule .companion)
  · cases ok
    exact ⟨upToSecond, fun nodup => nodupSecond (nodupFirst nodup)⟩

variable {moves : List PlannedMove} {plan : PathMigrationPlan} {raw : List UInt8}

theorem foldlM_addMove_ok {start : List TokenRule}
    (admitted : ∀ move ∈ moves, ∃ unicode, Admitted unicode move)
    (ok : moves.foldlM (addMove companions) start = .ok rules) :
    (∀ rule ∈ rules, rule ∈ start ∨ ∃ move ∈ moves, IsRuleOf move rule)
      ∧ ((start.map TokenRule.old).Nodup → (rules.map TokenRule.old).Nodup) := by
  induction moves generalizing start with
  | nil =>
    cases ok
    exact ⟨fun rule member => .inl member, id⟩
  | cons move moves ih =>
    rw [List.foldlM_cons, bind_eq_ok_iff] at ok
    obtain ⟨next, addNext, rest⟩ := ok
    obtain ⟨fromNext, nodupNext⟩ := addMove_ok (admitted move List.mem_cons_self) addNext
    obtain ⟨fromRest, nodupRest⟩ :=
      ih (fun other member => admitted other (List.mem_cons_of_mem _ member)) rest
    refine ⟨fun rule member => ?_, fun nodup => nodupRest (nodupNext nodup)⟩
    rcases fromRest rule member with inNext | ⟨other, later, isRule⟩
    · rcases fromNext rule inNext with earlier | isRule
      · exact .inl earlier
      · exact .inr ⟨move, List.mem_cons_self, isRule⟩
    · exact .inr ⟨other, List.mem_cons_of_mem _ later, isRule⟩

/-- Every rule comes from a move, and no two rules share a token. -/
theorem exactReferenceReplacements_ok
    (admitted : ∀ move ∈ moves, ∃ unicode, Admitted unicode move)
    (ok : exactReferenceReplacements moves companions = .ok rules) :
    (∀ rule ∈ rules, ∃ move ∈ moves, IsRuleOf move rule) ∧ (rules.map TokenRule.old).Nodup := by
  obtain ⟨sources, nodup⟩ := foldlM_addMove_ok admitted ok
  exact ⟨fun rule member => (sources rule member).resolve_left (by simp), nodup (by simp)⟩

/-! ## The texts of references -/

variable {kind : ReferenceKind} {unicode : Unicode} {source destination : PathParts}

theorem append_mark_inj {front front' back back' : Text} {mark : Char} (free : mark ∉ front)
    (free' : mark ∉ front') (same : front ++ mark :: back = front' ++ mark :: back') :
    front = front' ∧ back = back' := by
  induction front generalizing front' with
  | nil =>
    cases front' with
    | nil => exact ⟨rfl, (List.cons.inj same).2⟩
    | cons c front' =>
      obtain ⟨rfl, -⟩ := List.cons.inj same
      exact absurd List.mem_cons_self free'
  | cons d front ih =>
    cases front' with
    | nil =>
      obtain ⟨rfl, -⟩ := List.cons.inj same
      exact absurd List.mem_cons_self free
    | cons c front' =>
      obtain ⟨rfl, later⟩ := List.cons.inj same
      obtain ⟨rfl, backs⟩ := ih (fun inside => free (List.mem_cons_of_mem _ inside))
        (fun inside => free' (List.mem_cons_of_mem _ inside)) later
      exact ⟨rfl, backs⟩

theorem IsPrimary.mark_notMem (primary : IsPrimary parts) (kind : ReferenceKind) :
    kind.mark ∉ parts.jurisdiction := by
  intro inside
  have plain := primary.plain _ inside
  cases kind <;> exact absurd plain (by decide)

/-- A reference determines the path, if its kind is known. -/
theorem parts_of_text (primary : IsPrimary parts) (primaryOther : IsPrimary other)
    (same : kind.text parts = kind.text other) :
    parts.jurisdiction = other.jurisdiction ∧ parts.body = other.body := by
  obtain ⟨jurisdictions, bodies⟩ :=
    append_mark_inj (primary.mark_notMem kind) (primaryOther.mark_notMem kind) same
  exact ⟨jurisdictions, List.append_cancel_right bodies⟩

theorem text_congr (jurisdictions : parts.jurisdiction = other.jurisdiction)
    (bodies : parts.body = other.body) (kind : ReferenceKind) : kind.text parts = kind.text other := by
  rw [ReferenceKind.text, ReferenceKind.text, jurisdictions, bodies]

theorem asPosix_eq_text (parts : PathParts) : asPosix parts.path = ReferenceKind.file.text parts :=
  parts.asPosix_path

theorem plain_body (plain : ∀ c ∈ asPosix parts.path, isPlain c = true ∨ c = '/') :
    ∀ c ∈ parts.body, isPlain c = true ∨ c = '/' := by
  intro c member
  refine plain c ?_
  rw [PathParts.asPosix_path]
  simp [member]

theorem mem_text (primary : IsPrimary parts)
    (plain : ∀ c ∈ asPosix parts.path, isPlain c = true ∨ c = '/') (kind : ReferenceKind) :
    ∀ c ∈ kind.text parts, c = kind.mark ∨ isPlain c = true ∨ c = '/' := by
  intro c member
  rw [ReferenceKind.text, List.mem_append, List.mem_cons, List.mem_append] at member
  rcases member with inside | rfl | inside | ending
  · exact .inr (.inl (primary.plain c inside))
  · exact .inl rfl
  · exact .inr (plain_body plain c inside)
  · have endings : ∀ c ∈ kind.ending, isPlain c = true := by
      cases kind <;> exact List.forall_iff_forall_mem.mp (by decide)
    exact .inr (.inl (endings c ending))

theorem isReferenceChar_of_plain {c : Char} (plain : isPlain c = true) : isReferenceChar c = true := by
  rw [isPlain, Bool.or_eq_true, Bool.or_eq_true, Bool.or_eq_true] at plain
  rcases plain with ((alnum | dot) | underscore) | dash
  · simp [isReferenceChar, alnum]
  · simp [isReferenceChar, dot]
  · simp [isReferenceChar, underscore]
  · simp [isReferenceChar, dash]

theorem text_start (primary : IsPrimary parts) (kind : ReferenceKind) :
    (kind.text parts).head?.any isReferenceChar = true := by
  have letter := primary.letter
  have plain := primary.plain
  rw [ReferenceKind.text]
  cases start : parts.jurisdiction with
  | nil =>
    rw [start] at letter
    cases letter
  | cons c rest =>
    rw [start] at plain
    exact isReferenceChar_of_plain (plain c List.mem_cons_self)

theorem solidCount_of_plain {text : Text} (plain : ∀ c ∈ text, isPlain c = true ∨ c = '/') :
    solidCount text = plainCount text := by
  refine List.countP_congr fun c member => ?_
  rcases plain c member with isPlain | rfl
  · simp [isSolid_of_plain isPlain, isPlain]
  · decide

theorem head_dropWhile (p : Char → Bool) (text : Text) : (text.dropWhile p).head?.any p = false := by
  induction text with
  | nil => rfl
  | cons c text ih =>
    cases holds : p c with
    | true => rwa [List.dropWhile_cons_of_pos holds]
    | false => simp [holds]

/-- What stands in the source behind the destination's text. -/
theorem exists_body_append (primarySource : IsPrimary source) (primaryDestination : IsPrimary destination)
    (canonical : IsCanonical source.path) (canonicalDestination : IsCanonical destination.path)
    (moved : source.path ≠ destination.path)
    (same : (kind.text source).takeWhile isReferenceChar = kind.text destination) :
    source.jurisdiction = destination.jurisdiction
      ∧ ∃ x, x ≠ [] ∧ source.body = destination.body ++ (kind.ending ++ x) := by
  have split : kind.text source
      = kind.text destination ++ (kind.text source).dropWhile isReferenceChar := by
    rw [← same, List.takeWhile_append_dropWhile]
  have ends := head_dropWhile isReferenceChar (kind.text source)
  generalize (kind.text source).dropWhile isReferenceChar = tail at split ends
  rw [ReferenceKind.text, ReferenceKind.text, List.append_assoc, List.cons_append,
    List.append_assoc] at split
  obtain ⟨jurisdictions, bodies⟩ :=
    append_mark_inj (primarySource.mark_notMem kind) (primaryDestination.mark_notMem kind) split
  refine ⟨jurisdictions, ?_⟩
  have present : tail ≠ [] := by
    rintro rfl
    rw [List.append_nil] at bodies
    refine moved (canonical.eq_of_asPosix canonicalDestination ?_)
    rw [asPosix_eq_text, asPosix_eq_text]
    exact text_congr jurisdictions (List.append_cancel_right bodies) _
  obtain ⟨c, rest, rfl⟩ := List.exists_cons_of_ne_nil present
  have free : isReferenceChar c = false := ends
  have endings : ∀ c ∈ kind.ending, isReferenceChar c = true := by
    cases kind <;> exact List.forall_iff_forall_mem.mp (by decide)
  -- the tail ends like the source, and begins with no reference character
  have behind : kind.ending <:+ c :: rest := by
    have whole : c :: rest <:+ source.body ++ kind.ending :=
      ⟨destination.body ++ kind.ending, by rw [bodies, List.append_assoc]⟩
    refine (List.suffix_or_suffix_of_suffix (List.suffix_append _ _) whole).resolve_right ?_
    rintro ⟨front, inside⟩
    have := endings c (by rw [← inside]; simp)
    rw [free] at this
    cases this
  obtain ⟨x, isTail⟩ := behind
  refine ⟨x, ?_, ?_⟩
  · rintro rfl
    rw [List.nil_append] at isTail
    have := endings c (by rw [isTail]; exact List.mem_cons_self)
    rw [free] at this
    cases this
  · rw [← isTail] at bodies
    refine List.append_cancel_right (?_ : _ ++ kind.ending = _ ++ kind.ending)
    simpa using bodies

/-- **No token begins with its own replacement.** -/
theorem fresh_text (primarySource : IsPrimary source) (primaryDestination : IsPrimary destination)
    (canonical : IsCanonical source.path) (canonicalDestination : IsCanonical destination.path)
    (normalized : unicode.canonicalDestination source.path = .ok destination.path)
    (moved : source.path ≠ destination.path) (kind : ReferenceKind) :
    (kind.text source).takeWhile isReferenceChar ≠ kind.text destination := by
  intro same
  obtain ⟨jurisdictions, x, more, bodies⟩ := exists_body_append primarySource primaryDestination
    canonical canonicalDestination moved same
  have plain := plain_canonicalDestination normalized
  have flat : '/' ∉ source.stem := by
    intro slash
    refine canonical.flat (source.stem ++ dotYaml) ?_ (List.mem_append_left _ slash)
    simp [PathParts.path]
  have front : leading source.front ++ source.stem = source.jurisdiction ++ '/' :: source.body := by
    simp [PathParts.front, PathParts.body, leading]
  have start : leading source.front ++ source.stem
      = (destination.jurisdiction ++ '/' :: (destination.body ++ kind.ending)) ++ x := by
    rw [front, jurisdictions, bodies]
    simp
  have startPlain : ∀ c ∈ destination.jurisdiction ++ '/' :: (destination.body ++ kind.ending),
      isPlain c = true ∨ c = '/' := by
    intro c member
    rw [List.mem_append, List.mem_cons, List.mem_append] at member
    rcases member with inside | slash | inside | ending
    · exact .inl (primaryDestination.plain c inside)
    · exact .inr slash
    · exact plain_body plain c inside
    · have endings : ∀ c ∈ kind.ending, isPlain c = true := by
        cases kind <;> exact List.forall_iff_forall_mem.mp (by decide)
      exact .inl (endings c ending)
  have long := solid_destination normalized primarySource.stem flat start more startPlain
  have five : plainCount dotYaml = 5 := by decide
  have cons (text : Text) : plainCount ('/' :: text) = plainCount text := by
    simp [plainCount, show isPlain '/' = false by decide]
  rw [solidCount_of_plain plain, PathParts.asPosix_path, plainCount_append, plainCount_append, cons,
    cons, plainCount_append, plainCount_append, five] at long
  omega

/-! ## The rules together -/

theorem plain_path_text (plain : ∀ c ∈ asPosix parts.path, isPlain c = true ∨ c = '/')
    (primary : IsPrimary parts) : ':' ∈ kind.text parts ↔ kind = .identity := by
  constructor
  · intro member
    rcases mem_text primary plain kind ':' member with same | isPlain | slash
    · cases kind with
      | identity => rfl
      | file => exact absurd same (by decide)
      | companion => exact absurd same (by decide)
    · exact absurd isPlain (by decide)
    · exact absurd slash (by decide)
  · rintro rfl
    exact List.mem_append_right _ List.mem_cons_self

/-- A primary path is no companion test. -/
theorem file_ne_companion (primary : IsPrimary parts) :
    ReferenceKind.file.text parts ≠ ReferenceKind.companion.text other := by
  intro same
  rw [← asPosix_eq_text, PathParts.path, asPosix_concat] at same
  have test : dotTestYaml <:+ leading parts.front ++ (parts.stem ++ dotYaml) :=
    ⟨other.jurisdiction ++ '/' :: other.body, by
      rw [same]
      simp [ReferenceKind.text, ReferenceKind.mark, ReferenceKind.ending]⟩
  obtain ⟨before, leads⟩ : ∃ before, leading parts.front = before ++ ['/'] := by
    obtain ⟨front, last, split⟩ : ∃ front last, parts.front = front ++ [last] :=
      ⟨_, _, (List.dropLast_concat_getLast (by simp [PathParts.front])).symm⟩
    exact ⟨leading front ++ last, by simp [split, leading]⟩
  have name : '/' :: (parts.stem ++ dotYaml) <:+ leading parts.front ++ (parts.stem ++ dotYaml) :=
    ⟨before, by simp [leads]⟩
  rcases List.suffix_or_suffix_of_suffix test name with shorter | longer
  · rcases List.suffix_cons_iff.mp shorter with whole | inside
    · cases whole
    · exact primary.noTest inside
  · have slash : '/' ∈ dotTestYaml := longer.subset List.mem_cons_self
    exact absurd slash (by decide)

/-- References of plain paths determine their kind. -/
theorem kind_of_text {other : PathParts} {otherKind : ReferenceKind}
    (plain : ∀ c ∈ asPosix parts.path, isPlain c = true ∨ c = '/')
    (plainOther : ∀ c ∈ asPosix other.path, isPlain c = true ∨ c = '/')
    (primary : IsPrimary parts) (primaryOther : IsPrimary other)
    (same : kind.text parts = otherKind.text other) : kind = otherKind := by
  have colon := @plain_path_text parts kind plain primary
  have colonOther := @plain_path_text other otherKind plainOther primaryOther
  rw [same, colonOther] at colon
  cases kind with
  | identity => exact (colon.mpr rfl).symm
  | file =>
    cases otherKind with
    | identity => cases colon.mp rfl
    | file => rfl
    | companion => exact absurd same (file_ne_companion primary)
  | companion =>
    cases otherKind with
    | identity => cases colon.mp rfl
    | file => exact absurd same.symm (file_ne_companion primaryOther)
    | companion => rfl

theorem destination_inj (distinct : OneDestination moves) {move other : PlannedMove}
    (member : move ∈ moves) (memberOther : other ∈ moves)
    (same : asPosix move.destination = asPosix other.destination) : move = other := by
  by_contra different
  have symmetric : Std.Symm fun move other : PlannedMove =>
      asPosix move.destination ≠ asPosix other.destination := ⟨fun _ _ apart => apart.symm⟩
  exact distinct.forall member memberOther different same

/-- **The rules of a plan are separable.** -/
theorem separable_of_plan (loaded : unicode.loadPlanBytes raw = .ok plan)
    (replaced : exactReferenceReplacements plan.moves companions = .ok rules) :
    Separable isReferenceChar rules := by
  obtain ⟨admitted, distinct⟩ := admitted_of_load loaded
  have isRule := (exactReferenceReplacements_ok (fun move member => ⟨unicode, admitted move member⟩)
    replaced).1
  refine ⟨?_, ?_, ?_, ?_, ?_⟩
  · intro rule member
    obtain ⟨_, -, kind, source, destination, -, primary, -, -, rfl⟩ := isRule rule member
    exact text_start primary kind
  · intro rule member empty
    obtain ⟨_, -, kind, source, destination, -, -, -, primary, rfl⟩ := isRule rule member
    have start := text_start primary kind
    have empty : kind.text destination = [] := empty
    rw [empty] at start
    cases start
  · intro rule member c inside
    obtain ⟨move, inPlan, kind, source, destination, -, -, isDestination, primary, rfl⟩ :=
      isRule rule member
    have plain := plain_canonicalDestination (admitted move inPlan).normalized
    rw [isDestination] at plain
    rcases mem_text primary plain kind c inside with rfl | isPlain | rfl
    · cases kind <;> decide
    · exact isReferenceChar_of_plain isPlain
    · decide
  · intro rule member other memberOther same
    obtain ⟨move, inPlan, kind, source, destination, isSource, primarySource, isDestination,
      primary, rfl⟩ := isRule rule member
    obtain ⟨move', inPlan', kind', source', destination', isSource', primarySource', isDestination',
      primary', rfl⟩ := isRule other memberOther
    have plain := plain_canonicalDestination (admitted move inPlan).normalized
    have plain' := plain_canonicalDestination (admitted move' inPlan').normalized
    rw [isDestination] at plain
    rw [isDestination'] at plain'
    have same : kind.text destination = kind'.text destination' := same
    obtain rfl := kind_of_text plain plain' primary primary' same
    obtain ⟨jurisdictions, bodies⟩ := parts_of_text primary primary' same
    have sameMove : move = move' := by
      refine destination_inj distinct inPlan inPlan' ?_
      rw [isDestination, isDestination', asPosix_eq_text, asPosix_eq_text]
      exact text_congr jurisdictions bodies _
    have sources : ReferenceKind.file.text source = ReferenceKind.file.text source' := by
      rw [← asPosix_eq_text, ← asPosix_eq_text, ← isSource, ← isSource', sameMove]
    obtain ⟨jurisdictions', bodies'⟩ := parts_of_text primarySource primarySource' sources
    rw [text_congr jurisdictions' bodies' kind, same]
  · intro rule member
    obtain ⟨move, inPlan, kind, source, destination, isSource, primarySource, isDestination,
      primary, rfl⟩ := isRule rule member
    obtain ⟨canonical, canonicalDestination, -, -, normalized, moved⟩ := admitted move inPlan
    rw [isSource] at canonical normalized moved
    rw [isDestination] at canonicalDestination normalized moved
    exact fresh_text primarySource primary canonical canonicalDestination normalized moved kind

/-- What a rule inserts has fewer flaws than its token. -/
theorem flawCount_new_lt_old (loaded : unicode.loadPlanBytes raw = .ok plan)
    (replaced : exactReferenceReplacements plan.moves companions = .ok rules) :
    ∀ rule ∈ rules, flawCount rule.new < flawCount rule.old := by
  intro rule member
  have admitted := (admitted_of_load loaded).1
  obtain ⟨move, inPlan, kind, source, destination, isSource, primarySource, isDestination,
    primary, rfl⟩ := (exactReferenceReplacements_ok
      (fun move member => ⟨unicode, admitted move member⟩) replaced).1 rule member
  have flaw := (admitted move inPlan).flaw
  have plain := plain_canonicalDestination (admitted move inPlan).normalized
  rw [isSource, PathParts.asPosix_path] at flaw
  rw [isDestination] at plain
  have count {parts : PathParts} (primary : IsPrimary parts) (mark : Char) (ending : Text)
      (plainEnding : ∀ c ∈ ending, isPlain c = true) :
      flawCount (parts.jurisdiction ++ mark :: (parts.body ++ ending))
        = flawCount [mark] + flawCount parts.body := by
    have none : flawCount parts.jurisdiction = 0 :=
      flawCount_eq_zero.mpr fun c inside => .inl (primary.plain c inside)
    have noneEnding : flawCount ending = 0 :=
      flawCount_eq_zero.mpr fun c inside => .inl (plainEnding c inside)
    rw [flawCount_append, ← List.singleton_append, flawCount_append, flawCount_append, none,
      noneEnding]
    omega
  have endings : ∀ c ∈ kind.ending, isPlain c = true := by
    cases kind <;> exact List.forall_iff_forall_mem.mp (by decide)
  have noFlaw : flawCount destination.body = 0 := flawCount_eq_zero.mpr (plain_body plain)
  have slash : flawCount ['/'] = 0 := by decide
  rw [count primarySource '/' dotYaml (List.forall_iff_forall_mem.mp (by decide))] at flaw
  change flawCount (kind.text destination) < flawCount (kind.text source)
  rw [ReferenceKind.text, ReferenceKind.text, count primarySource kind.mark kind.ending endings,
    count primary kind.mark kind.ending endings]
  omega

end References

end AxiomEncode.Migration
