/-
# Suite.ArtifactsSpec -- when artifacts cannot collide

The verdicts and the owned roots of a suite are apart exactly when no two runner names are the
same up to hyphens at their ends and no runner is named `traces` (`artifactsApart_iff`).
-/
import AxiomEncode.Suite.Artifacts

namespace AxiomEncode.Suite

open Theory

set_option autoImplicit false

/-- The artifacts of different slots, and of different roles of one slot, lie apart, and results that
keep to their own roots pass the checks of ownership. -/
structure ArtifactsApart (outputRoot : PurePath) (suite : EvalSuite) : Prop where
  verdicts : ∀ p ∈ suite.slots, ∀ q ∈ suite.slots, p ≠ q →
    verdictPath outputRoot p ≠ verdictPath outputRoot q
  roots : ∀ p ∈ suite.slots, ∀ q ∈ suite.slots, ∀ role role', (p, role) ≠ (q, role') →
    Apart (ownedRoot outputRoot p role) (ownedRoot outputRoot q role')
  admitted : ∀ caseIndex caseName results,
    (∀ result ∈ results, (⟨caseIndex, caseName, result.runner⟩ : Slot) ∈ suite.slots) →
    (results.map EvalResult.runner).Nodup →
    (∀ result ∈ results, ∀ role path, result.artifact role = some path →
      ownedRoot outputRoot ⟨caseIndex, caseName, result.runner⟩ role <+: path.abspath) →
    (∀ result ∈ results, result.verdictFile = verdictPath outputRoot ⟨caseIndex, caseName, result.runner⟩) →
    ∃ seen, validateOwnership outputRoot caseIndex caseName results [] = .ok seen

/-! ## Names -/

section Names

variable {value runner other : Text} {index index' width : Nat}

theorem isNameChar_hyphen : isNameChar '-' = true := by decide

theorem all_hyphenateFrom : ∀ (value : Text) (inRun : Bool), ∀ c ∈ hyphenateFrom inRun value,
    isNameChar c = true
  | [], _ => by simp [hyphenateFrom]
  | c :: rest, inRun => by
    have inside := all_hyphenateFrom rest
    rw [hyphenateFrom]
    split_ifs with keeps running
    · exact List.forall_mem_cons.mpr ⟨keeps, inside false⟩
    · exact inside true
    · exact List.forall_mem_cons.mpr ⟨isNameChar_hyphen, inside true⟩

theorem hyphenateFrom_eq_self : ∀ {value : Text}, (∀ c ∈ value, isNameChar c = true) →
    hyphenateFrom false value = value
  | [], _ => rfl
  | c :: rest, all => by
    rw [List.forall_mem_cons] at all
    rw [hyphenateFrom, if_pos all.1, hyphenateFrom_eq_self all.2]

variable {c : Char}

theorem mem_stripChars {drop : Char → Bool} (member : c ∈ stripChars drop value) : c ∈ value :=
  (List.dropWhile_suffix drop).subset ((List.rdropWhile_prefix drop _).subset member)

theorem all_slugify (value : Text) : ∀ c ∈ slugify value, isNameChar c = true := by
  intro c member
  rw [slugify] at member
  split_ifs at member with empty
  · have plain : ∀ c ∈ "eval".toList, isNameChar c = true :=
      List.forall_iff_forall_mem.mp (by decide)
    exact plain c member
  · exact all_hyphenateFrom value false c (mem_stripChars member)

theorem not_slash_of_isNameChar (named : isNameChar c = true) : c ≠ '/' := by
  rintro rfl
  revert named
  decide

/-- A text of name characters with another one than `.` is a name. -/
theorem isName_of_all (all : ∀ c ∈ value, isNameChar c = true) (member : c ∈ value)
    (noDot : c ≠ '.') : IsName value where
  nonempty := List.ne_nil_of_mem member
  oneName := fun inside => not_slash_of_isNameChar (all _ inside) rfl
  notHere := by
    rintro rfl
    exact noDot (by simpa using member)
  notAbove := by
    rintro rfl
    exact noDot (by simpa using member)

theorem isRunnerName_iff :
    isRunnerName runner = true ↔
      ∃ c rest, runner = c :: rest ∧ c.isAlphanum = true ∧ ∀ c ∈ runner, isNameChar c = true := by
  cases runner with
  | nil => simp [isRunnerName]
  | cons c rest =>
    rw [isRunnerName, Bool.and_eq_true, List.all_eq_true]
    constructor
    · rintro ⟨isFirst, isRest⟩
      refine ⟨c, rest, rfl, isFirst, List.forall_mem_cons.mpr ⟨?_, isRest⟩⟩
      simp [isNameChar, isFirst]
    · rintro ⟨_, _, same, isFirst, all⟩
      cases same
      exact ⟨isFirst, fun c member => all c (List.mem_cons_of_mem _ member)⟩

theorem isName_of_isRunnerName (named : isRunnerName runner = true) : IsName runner := by
  obtain ⟨c, rest, rfl, isFirst, all⟩ := isRunnerName_iff.mp named
  refine isName_of_all all List.mem_cons_self ?_
  rintro rfl
  revert isFirst
  decide

/-- The slug of a runner name only loses the hyphens at its end. -/
theorem slugify_of_isRunnerName (named : isRunnerName runner = true) :
    slugify runner = runner.rdropWhile (· == '-') := by
  obtain ⟨c, rest, rfl, isFirst, all⟩ := isRunnerName_iff.mp named
  have noHyphen : ¬ (c == '-') = true := by
    intro isHyphen
    rw [eq_of_beq isHyphen] at isFirst
    revert isFirst
    decide
  have kept : hyphenate (c :: rest) = c :: rest := hyphenateFrom_eq_self all
  have nonempty : (c :: rest).rdropWhile (· == '-') ≠ [] := by
    intro empty
    rw [List.rdropWhile_eq_nil_iff] at empty
    exact noHyphen (empty c List.mem_cons_self)
  rw [slugify, kept, stripChars, List.dropWhile_cons_of_neg (p := (· == '-')) noHyphen]
  exact if_neg nonempty

theorem isName_verdict (value : Text) : IsName (slugify value ++ ".json".toList) := by
  refine isName_of_all (c := 'j') ?_ (by simp) (by decide)
  intro c member
  rcases List.mem_append.mp member with inSlug | inSuffix
  · exact all_slugify value c inSlug
  · have suffix : ∀ c ∈ ".json".toList, isNameChar c = true :=
      List.forall_iff_forall_mem.mp (by decide)
    exact suffix c inSuffix

theorem isNameChar_of_isDigit (digit : c.isDigit = true) : isNameChar c = true := by
  simp [isNameChar, Char.isAlphanum, digit]

theorem isName_case (width index : Nat) (value : Text) :
    IsName (Date.padded width index ++ '-' :: slugify value) := by
  refine isName_of_all (c := '-') ?_ (by simp) (by decide)
  intro c member
  rcases List.mem_append.mp member with inIndex | inSlug
  · exact isNameChar_of_isDigit (isDigit_padded c inIndex)
  · rcases List.mem_cons.mp inSlug with rfl | inSlug
    · exact isNameChar_hyphen
    · exact all_slugify value c inSlug

theorem takeWhile_padded (width index : Nat) (value : Text) :
    (Date.padded width index ++ '-' :: value).takeWhile (· ≠ '-') = Date.padded width index := by
  have digits : ∀ c ∈ Date.padded width index, decide (c ≠ '-') = true := by
    intro c member
    have digit := isDigit_padded c member
    refine decide_eq_true ?_
    rintro rfl
    cases digit
  rw [List.takeWhile_append_of_pos digits, List.takeWhile_cons_of_neg (by decide), List.append_nil]

/-- The index of a case can be read off its directory. -/
theorem index_of_case
    (same : Date.padded width index ++ '-' :: value = Date.padded width index' ++ '-' :: other) :
    index = index' := by
  have samePadded := congrArg (List.takeWhile (· ≠ '-')) same
  rw [takeWhile_padded, takeWhile_padded] at samePadded
  rw [← digitsValue_padded width index, samePadded, digitsValue_padded]

end Names

/-! ## Slots -/

section Slots

variable {suite : EvalSuite} {slot p q : Slot} {runners cases : List Text} {index : Nat}

theorem mem_slotsFrom : ∀ {cases : List Text} {index : Nat},
    slot ∈ slotsFrom runners index cases
      ↔ slot.runner ∈ runners ∧ ∃ n, cases[n]? = some slot.caseName ∧ slot.caseIndex = index + n
  | [], _ => by simp [slotsFrom]
  | caseName :: cases, index => by
    rw [slotsFrom, List.mem_append, mem_slotsFrom, List.mem_map]
    constructor
    · rintro (⟨runner, isRunner, rfl⟩ | ⟨isRunner, n, isCase, same⟩)
      · exact ⟨isRunner, 0, rfl, rfl⟩
      · exact ⟨isRunner, n + 1, isCase, by omega⟩
    · rintro ⟨isRunner, n, isCase, same⟩
      rcases n with _ | n
      · left
        rw [List.getElem?_cons_zero, Option.some.injEq] at isCase
        refine ⟨slot.runner, isRunner, ?_⟩
        rw [isCase]
        cases slot
        exact congrArg (Slot.mk · _ _) same.symm
      · right
        exact ⟨isRunner, n, isCase, by omega⟩

theorem mem_slots :
    slot ∈ suite.slots ↔ slot.runner ∈ suite.runners.map EvalRunnerSpec.name
      ∧ ∃ n, suite.cases[n]? = some slot.caseName ∧ slot.caseIndex = 1 + n := mem_slotsFrom

/-- Two slots of a case differ in their runners. -/
theorem runner_ne (isSlot : p ∈ suite.slots) (isSlot' : q ∈ suite.slots) (different : p ≠ q)
    (sameCase : p.caseIndex = q.caseIndex) : p.runner ≠ q.runner ∧ p.caseName = q.caseName := by
  obtain ⟨-, n, isCase, isIndex⟩ := mem_slots.mp isSlot
  obtain ⟨-, m, isCase', isIndex'⟩ := mem_slots.mp isSlot'
  have sameNumber : n = m := by omega
  subst sameNumber
  have sameName : p.caseName = q.caseName := Option.some.inj (isCase.symm.trans isCase')
  refine ⟨fun sameRunner => different ?_, sameName⟩
  cases p
  cases q
  simp_all

theorem isRunnerName_of_mem (accepted : suite.Accepted) (isSlot : slot ∈ suite.slots) :
    isRunnerName slot.runner = true := by
  obtain ⟨runner, isRunner, same⟩ := List.mem_map.mp (mem_slots.mp isSlot).1
  rw [← same]
  exact accepted.named runner isRunner

end Slots

/-! ## The paths of a slot -/

section Paths

variable {outputRoot : PurePath} {slot p q : Slot} {role role' : Role}

/-- The directory of a case. -/
def caseDirectory (slot : Slot) : Text := Date.padded 2 slot.caseIndex ++ '-' :: slugify slot.caseName

/-- The names of an owned root below its case. -/
def Role.names (runner : Text) : Role → PurePath
  | .output => [runner]
  | .trace => ["traces".toList, runner]
  | .context => ["_eval_workspaces".toList, runner]

/-- The names of a verdict below the output root. -/
def verdictNames (slot : Slot) : PurePath :=
  ["verdicts".toList, Date.padded 4 slot.caseIndex ++ '-' :: slugify slot.caseName,
    slugify slot.runner ++ ".json".toList]

theorem isName_fixed :
    IsName "traces".toList ∧ IsName "_eval_workspaces".toList ∧ IsName "verdicts".toList := by
  refine ⟨⟨?_, ?_, ?_, ?_⟩, ⟨?_, ?_, ?_, ?_⟩, ⟨?_, ?_, ?_, ?_⟩⟩ <;> decide

theorem ownedRoot_eq (named : isRunnerName slot.runner = true) :
    ownedRoot outputRoot slot role
      = outputRoot.abspath ++ caseDirectory slot :: role.names slot.runner := by
  have isCase : caseRoot outputRoot slot.caseIndex slot.caseName
      = outputRoot.abspath ++ [caseDirectory slot] := join_of_isName (isName_case _ _ _)
  have isRunner := isName_of_isRunnerName named
  cases role with
  | output =>
    rw [ownedRoot, isCase, join_of_isName isRunner, List.append_assoc]
    rfl
  | trace =>
    rw [ownedRoot, isCase, join_of_isName isName_fixed.1, join_of_isName isRunner, List.append_assoc,
      List.append_assoc]
    rfl
  | context =>
    rw [ownedRoot, isCase, join_of_isName isName_fixed.2.1, join_of_isName isRunner, List.append_assoc,
      List.append_assoc]
    rfl

theorem verdictPath_eq : verdictPath outputRoot slot = outputRoot ++ verdictNames slot := by
  rw [verdictPath, join_of_isName isName_fixed.2.2, join_of_isName (isName_case _ _ _),
    join_of_isName (isName_verdict _), List.append_assoc, List.append_assoc]
  rfl

theorem abspath_verdictPath : (verdictPath outputRoot slot).abspath = verdictPath outputRoot.abspath slot := by
  rw [verdictPath_eq, verdictPath_eq, abspath_append]
  simp only [verdictNames, List.forall_mem_cons, List.not_mem_nil, false_imp_iff, implies_true, and_true]
  exact ⟨isName_fixed.2.2, isName_case _ _ _, isName_verdict _⟩

/-! ## What is apart -/

theorem ne_workspaces {runner : Text} (named : isRunnerName runner = true) :
    runner ≠ "_eval_workspaces".toList := by
  rintro rfl
  revert named
  decide

theorem apart_names {runner runner' : Text} (named : isRunnerName runner = true)
    (named' : isRunnerName runner' = true) (noTraces : runner ≠ "traces".toList)
    (noTraces' : runner' ≠ "traces".toList) : ∀ {role role' : Role}, (runner, role) ≠ (runner', role') →
      Apart (role.names runner) (role'.names runner')
  | .output, .output, different => apart_heads fun same => different (by rw [same])
  | .output, .trace, _ => apart_heads noTraces
  | .output, .context, _ => apart_heads (ne_workspaces named)
  | .trace, .output, _ => apart_heads noTraces'.symm
  | .trace, .trace, different => (apart_heads fun same => different (by rw [same])).cons _
  | .trace, .context, _ => apart_heads (by decide)
  | .context, .output, _ => apart_heads (ne_workspaces named').symm
  | .context, .trace, _ => apart_heads (by decide)
  | .context, .context, different => (apart_heads fun same => different (by rw [same])).cons _

theorem caseDirectory_ne (different : p.caseIndex ≠ q.caseIndex) : caseDirectory p ≠ caseDirectory q :=
  fun same => different (index_of_case same)

end Paths

/-! ## When all artifacts are apart -/

/-- The names that runners may have together. -/
structure Compatible (suite : EvalSuite) : Prop where
  noTraces : "traces".toList ∉ suite.runners.map EvalRunnerSpec.name
  trimmed : (suite.runners.map fun runner => runner.name.rdropWhile (· == '-')).Nodup

section Compatible

variable {suite : EvalSuite} {outputRoot : PurePath} {p q : Slot} {role role' : Role}

theorem apart_roots (accepted : suite.Accepted) (compatible : Compatible suite) (isSlot : p ∈ suite.slots)
    (isSlot' : q ∈ suite.slots) (different : (p, role) ≠ (q, role')) :
    Apart (ownedRoot outputRoot p role) (ownedRoot outputRoot q role') := by
  have named := isRunnerName_of_mem accepted isSlot
  have named' := isRunnerName_of_mem accepted isSlot'
  have noTraces : ∀ slot ∈ suite.slots, slot.runner ≠ "traces".toList := by
    intro slot isSlot same
    exact compatible.noTraces (same ▸ (mem_slots.mp isSlot).1)
  rw [ownedRoot_eq named, ownedRoot_eq named']
  refine Apart.below ?_ _
  by_cases sameCase : p.caseIndex = q.caseIndex
  · have apart : (p.runner, role) ≠ (q.runner, role') := by
      intro same
      rw [Prod.mk.injEq] at same
      refine different (Prod.ext ?_ same.2)
      by_contra distinct
      exact (runner_ne isSlot isSlot' distinct sameCase).1 same.1
    have sameName : p.caseName = q.caseName := by
      by_cases equal : p = q
      · rw [equal]
      · exact (runner_ne isSlot isSlot' equal sameCase).2
    rw [caseDirectory, caseDirectory, sameCase, sameName]
    exact (apart_names named named' (noTraces p isSlot) (noTraces q isSlot') apart).cons _
  · exact apart_heads (caseDirectory_ne sameCase)

theorem apart_verdicts (accepted : suite.Accepted) (compatible : Compatible suite)
    (isSlot : p ∈ suite.slots) (isSlot' : q ∈ suite.slots) (different : p ≠ q) :
    Apart (verdictPath outputRoot p) (verdictPath outputRoot q) := by
  rw [verdictPath_eq, verdictPath_eq]
  refine (Apart.cons ?_ _).below _
  by_cases sameCase : p.caseIndex = q.caseIndex
  · obtain ⟨runners, sameName⟩ := runner_ne isSlot isSlot' different sameCase
    rw [sameCase, sameName]
    refine (apart_heads ?_).cons _
    intro same
    rw [List.append_left_inj, slugify_of_isRunnerName (isRunnerName_of_mem accepted isSlot),
      slugify_of_isRunnerName (isRunnerName_of_mem accepted isSlot')] at same
    obtain ⟨runner, isRunner, isName⟩ := List.mem_map.mp (mem_slots.mp isSlot).1
    obtain ⟨runner', isRunner', isName'⟩ := List.mem_map.mp (mem_slots.mp isSlot').1
    rw [← isName, ← isName'] at same
    have sameRunner := List.inj_on_of_nodup_map compatible.trimmed isRunner isRunner' same
    exact runners (by rw [← isName, ← isName', sameRunner])
  · exact apart_heads fun same => sameCase (index_of_case same)

/-- No verdict lies in an owned root, nor on the way to one. -/
theorem apart_root_verdict (accepted : suite.Accepted) (isSlot : p ∈ suite.slots) :
    Apart (ownedRoot outputRoot p role) (verdictPath outputRoot.abspath q) := by
  rw [ownedRoot_eq (isRunnerName_of_mem accepted isSlot), verdictPath_eq]
  refine (apart_heads ?_).below _
  intro same
  have hyphen : '-' ∈ "verdicts".toList := by
    rw [← same, caseDirectory]
    simp
  revert hyphen
  decide

/-! ## The checks of ownership -/

/-- The places of a result: its owned roots and its verdict. -/
def regions (outputRoot : PurePath) (slot : Slot) : List PurePath :=
  roles.map (ownedRoot outputRoot slot) ++ [verdictPath outputRoot.abspath slot]

/-- Every path lies in one of the regions. -/
def Within (paths regions : List PurePath) : Prop := ∀ path ∈ paths, ∃ region ∈ regions, region <+: path

variable {paths known : List PurePath}

theorem not_mem_of_apart {region path : PurePath} (within : Within paths known)
    (apart : ∀ other ∈ known, Apart other region) (below : region <+: path) : path ∉ paths := by
  intro isSeen
  obtain ⟨other, isOther, below'⟩ := within path isSeen
  exact (apart other isOther).ne below' below rfl

theorem Within.cons {paths known : List PurePath} {region path : PurePath} (within : Within paths known)
    (below : region <+: path) : Within (path :: paths) (known ++ [region]) := by
  intro other isOther
  rcases List.mem_cons.mp isOther with rfl | isOther
  · exact ⟨region, by simp, below⟩
  · obtain ⟨known, isKnown, below'⟩ := within other isOther
    exact ⟨known, List.mem_append_left _ isKnown, below'⟩

theorem Within.mono {more : List PurePath} (within : Within paths known) :
    Within paths (known ++ more) := by
  intro path isPath
  obtain ⟨region, isRegion, below⟩ := within path isPath
  exact ⟨region, List.mem_append_left _ isRegion, below⟩

variable {caseIndex : Nat} {caseName : Text} {result : EvalResult} {results : List EvalResult}

/-- Artifacts in roots that are apart pass, and lie in these roots. -/
theorem validateRoles_ok (inside : ∀ role path, result.artifact role = some path →
      ownedRoot outputRoot ⟨caseIndex, caseName, result.runner⟩ role <+: path.abspath) :
    ∀ {rest : List Role} {seen known : List PurePath}, Within seen known →
      (known ++ rest.map (ownedRoot outputRoot ⟨caseIndex, caseName, result.runner⟩)).Pairwise Apart →
      ∃ seen', validateRoles outputRoot caseIndex caseName result rest seen = .ok seen'
        ∧ Within seen' (known ++ rest.map (ownedRoot outputRoot ⟨caseIndex, caseName, result.runner⟩))
  | [], seen, known, within, _ => ⟨seen, rfl, by rwa [List.map_nil, List.append_nil]⟩
  | role :: rest, seen, known, within, apart => by
    rw [List.map_cons, List.append_cons] at apart ⊢
    rw [validateRoles]
    cases recorded : result.artifact role with
    | none => exact validateRoles_ok inside within.mono apart
    | some rawPath =>
      have below := inside role rawPath recorded
      have fresh : ∀ other ∈ known, Apart other
          (ownedRoot outputRoot ⟨caseIndex, caseName, result.runner⟩ role) := by
        intro other isKnown
        have before := (List.pairwise_append.mp apart).1
        exact (List.pairwise_append.mp before).2.2 other isKnown _ (List.mem_singleton_self _)
      have unseen := not_mem_of_apart within fresh below
      simp only [List.isPrefixOf_iff_prefix.mpr below, Bool.not_true, Bool.false_eq_true, if_false,
        if_neg unseen]
      exact validateRoles_ok inside (within.cons below) apart

/-- Results whose places are apart pass the checks. -/
theorem validateOwnership_ok : ∀ {results : List EvalResult} {seen known : List PurePath},
    (∀ result ∈ results, ∀ role path, result.artifact role = some path →
      ownedRoot outputRoot ⟨caseIndex, caseName, result.runner⟩ role <+: path.abspath) →
    (∀ result ∈ results, result.verdictFile = verdictPath outputRoot ⟨caseIndex, caseName, result.runner⟩) →
    Within seen known →
    (known ++ results.flatMap fun result => regions outputRoot ⟨caseIndex, caseName, result.runner⟩).Pairwise
      Apart →
    ∃ seen', validateOwnership outputRoot caseIndex caseName results seen = .ok seen'
  | [], seen, _, _, _, _, _ => ⟨seen, rfl⟩
  | result :: results, seen, known, inside, verdicts, within, apart => by
    rw [List.forall_mem_cons] at inside verdicts
    rw [List.flatMap_cons, ← List.append_assoc, regions, ← List.append_assoc] at apart
    have here := (List.pairwise_append.mp apart).1
    obtain ⟨owned, -, fresh⟩ := List.pairwise_append.mp here
    obtain ⟨seen₁, isOwned, within₁⟩ := validateRoles_ok inside.1 within owned
    have below : verdictPath outputRoot.abspath ⟨caseIndex, caseName, result.runner⟩
        <+: result.verdictFile.abspath := by
      rw [verdicts.1, abspath_verdictPath]
    have unseen := not_mem_of_apart within₁
      (fun other isKnown => fresh other isKnown _ (List.mem_singleton_self _)) below
    obtain ⟨seen₂, isRest⟩ := validateOwnership_ok inside.2 verdicts.2 (within₁.cons below) apart
    refine ⟨seen₂, ?_⟩
    rw [validateOwnership]
    refine bind_eq_ok_iff.mpr ⟨seen₁, isOwned, bind_eq_ok_iff.mpr
      ⟨result.verdictFile.abspath :: seen₁, ?_, isRest⟩⟩
    rw [validateVerdictOwnership]
    have canonical : result.verdictFile.abspath
        = verdictPath outputRoot.abspath ⟨caseIndex, caseName, result.runner⟩ := by
      rw [verdicts.1, abspath_verdictPath]
    simp only [ne_eq, if_neg (not_not.mpr canonical), if_neg unseen]

theorem pairwise_regions (accepted : suite.Accepted) (compatible : Compatible suite)
    (isSlot : ∀ result ∈ results, (⟨caseIndex, caseName, result.runner⟩ : Slot) ∈ suite.slots)
    (distinct : (results.map EvalResult.runner).Nodup) :
    (results.flatMap fun result => regions outputRoot ⟨caseIndex, caseName, result.runner⟩).Pairwise
      Apart := by
  have roots : ∀ {p q : Slot} {role role' : Role}, p ∈ suite.slots → q ∈ suite.slots →
      (p, role) ≠ (q, role') → Apart (ownedRoot outputRoot p role) (ownedRoot outputRoot q role') :=
    apart_roots accepted compatible
  rw [List.pairwise_flatMap]
  constructor
  · intro result isResult
    have slot := isSlot result isResult
    rw [regions, List.pairwise_append]
    refine ⟨?_, List.pairwise_singleton _ _, ?_⟩
    · rw [List.pairwise_map]
      have different : roles.Nodup := by decide
      exact different.imp fun other => roots slot slot fun same => other (Prod.mk.inj same).2
    · intro root isRoot verdict isVerdict
      obtain ⟨role, -, rfl⟩ := List.mem_map.mp isRoot
      rw [List.mem_singleton.mp isVerdict]
      exact apart_root_verdict accepted slot
  · rw [List.Nodup, List.pairwise_map] at distinct
    refine distinct.imp_of_mem ?_
    intro first second isFirst isSecond different place isPlace other isOther
    have slots : (⟨caseIndex, caseName, first.runner⟩ : Slot) ≠ ⟨caseIndex, caseName, second.runner⟩ :=
      fun same => different (Slot.mk.inj same).2.2
    have first' := isSlot first isFirst
    have second' := isSlot second isSecond
    rw [regions, List.mem_append, List.mem_singleton, List.mem_map] at isPlace isOther
    rcases isPlace with ⟨role, -, rfl⟩ | rfl <;> rcases isOther with ⟨role', -, rfl⟩ | rfl
    · exact roots first' second' fun same => slots (Prod.mk.inj same).1
    · exact apart_root_verdict accepted first'
    · exact (apart_root_verdict accepted second').symm
    · exact apart_verdicts accepted compatible first' second' slots

end Compatible

section Main

variable {path : Text} {document : Typed.Value} {suite : EvalSuite}

/-- Two slots of the first case, for names of runners. -/
theorem mem_slots_first {caseName runner : Text} {cases : List Text} (isCases : suite.cases = caseName :: cases)
    (isRunner : runner ∈ suite.runners.map EvalRunnerSpec.name) :
    (⟨1, caseName, runner⟩ : Slot) ∈ suite.slots :=
  mem_slots.mpr ⟨isRunner, 0, by rw [isCases]; rfl, rfl⟩

/-- **Artifacts are apart exactly when the names of the runners are compatible.** -/
theorem artifactsApart_iff (loaded : loadEvalSuiteManifest path document = .ok suite) (outputRoot : PurePath) :
    ArtifactsApart outputRoot suite
      ↔ "traces".toList ∉ suite.runners.map EvalRunnerSpec.name
        ∧ (suite.runners.map fun runner => runner.name.rdropWhile (· == '-')).Nodup := by
  have accepted := accepted_of_load loaded
  constructor
  · intro apart
    obtain ⟨caseName, cases, isCases⟩ := List.exists_cons_of_ne_nil accepted.cases
    constructor
    · intro isTraces
      have slot := mem_slots_first isCases isTraces
      have covers := (apart.roots _ slot _ slot .output .trace (by simp)).1
      rw [ownedRoot_eq (isRunnerName_of_mem accepted slot), ownedRoot_eq (isRunnerName_of_mem accepted slot)]
        at covers
      refine covers ((List.prefix_append_right_inj _).mpr (List.cons_prefix_cons.mpr ⟨rfl, ?_⟩))
      exact List.cons_prefix_cons.mpr ⟨rfl, List.nil_prefix⟩
    · refine List.Nodup.map_on ?_ (List.Nodup.of_map _ accepted.distinct)
      intro runner isRunner other isOther sameEnd
      have slot := mem_slots_first isCases (List.mem_map_of_mem (f := EvalRunnerSpec.name) isRunner)
      have slot' := mem_slots_first isCases (List.mem_map_of_mem (f := EvalRunnerSpec.name) isOther)
      refine List.inj_on_of_nodup_map accepted.distinct isRunner isOther ?_
      by_contra different
      refine apart.verdicts _ slot _ slot' (fun same => different (Slot.mk.inj same).2.2) ?_
      rw [verdictPath_eq, verdictPath_eq, verdictNames, verdictNames,
        slugify_of_isRunnerName (accepted.named runner isRunner),
        slugify_of_isRunnerName (accepted.named other isOther), sameEnd]
  · rintro ⟨noTraces, trimmed⟩
    have compatible : Compatible suite := ⟨noTraces, trimmed⟩
    refine ⟨?_, ?_, ?_⟩
    · intro p isSlot q isSlot' different same
      have apart : Apart (verdictPath outputRoot p) (verdictPath outputRoot q) :=
        apart_verdicts accepted compatible isSlot isSlot' different
      exact apart.1 (same ▸ List.prefix_rfl)
    · exact fun p isSlot q isSlot' role role' => apart_roots accepted compatible isSlot isSlot'
    · intro caseIndex caseName results isSlot distinct inside verdicts
      have within : Within [] [] := fun _ isSeen => nomatch isSeen
      exact validateOwnership_ok inside verdicts within
        (pairwise_regions accepted compatible isSlot distinct)

/-- A manifest of one case and two runners under these names. -/
def sampleManifest (first second : String) : Typed.Value :=
  .map [(.text "runners".toList, .seq [.scalar (.text (first.toList ++ "=codex:m".toList)),
      .scalar (.text (second.toList ++ "=codex:m".toList))]),
    (.text "cases".toList, .seq [.map [(.text "kind".toList, .scalar (.text "citation".toList)),
      (.text "citation".toList, .scalar (.text "7 CFR 273.9".toList))]]),
    (.text "gates".toList, .map [(.text "min_cases".toList, .scalar (.int 1)),
      (.text "min_success_rate".toList, .scalar (.int 0)),
      (.text "min_compile_pass_rate".toList, .scalar (.int 0)),
      (.text "min_ci_pass_rate".toList, .scalar (.int 0)),
      (.text "min_zero_ungrounded_rate".toList, .scalar (.int 0)),
      (.text "min_generalist_review_pass_rate".toList, .scalar (.int 0))])]

def sampleSuite (first second : String) : EvalSuite :=
  ⟨[⟨first.toList, "codex".toList, "m".toList⟩, ⟨second.toList, "codex".toList, "m".toList⟩],
    ["7 CFR 273.9".toList]⟩

/-- Two names that differ in a last hyphen share a verdict. -/
theorem verdicts_collide :
    ¬ ∀ (path : Text) (document : Typed.Value) (suite : EvalSuite) (outputRoot : PurePath),
      loadEvalSuiteManifest path document = .ok suite → ArtifactsApart outputRoot suite := by
  intro claim
  have loaded : loadEvalSuiteManifest [] (sampleManifest "a" "a-") = .ok (sampleSuite "a" "a-") := by
    decide
  have apart := (claim [] _ _ [] loaded).verdicts ⟨1, "7 CFR 273.9".toList, "a".toList⟩ (by decide)
    ⟨1, "7 CFR 273.9".toList, "a-".toList⟩ (by decide) (by decide)
  exact apart (by decide)

theorem artifactsApart_sample : ArtifactsApart ["out".toList] (sampleSuite "a" "b") :=
  have loaded : loadEvalSuiteManifest [] (sampleManifest "a" "b") = .ok (sampleSuite "a" "b") := by
    decide
  (artifactsApart_iff loaded _).mpr ⟨by decide, by decide⟩

end Main

end AxiomEncode.Suite
