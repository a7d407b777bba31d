/-
# Migration.ReferencesSequence -- the passes over a file, and one simultaneous pass

`rewrite_exact_references` makes one pass a rule.  It is one simultaneous pass, it leaves
what it has inserted, and rewriting again changes nothing, exactly if the simultaneous pass
is undisturbed (`rewritesSimultaneously_iff`): when a token's turn comes, it starts only in
stretches that the simultaneous pass gives to it, and behind that pass no token is left.

Both may fail, since a path may hold spaces: a long token may start inside a shorter one
that starts before it.
-/
import AxiomEncode.Migration.ReferencesSpec
import AxiomEncode.Theory.TokenCounts
import AxiomEncode.Theory.JsonRoundTrip

namespace AxiomEncode.Migration

open Theory

set_option autoImplicit false

/-- One pass over the text that replaces at each position the longest token that stands
there. -/
def simultaneousPass (rules : List TokenRule) (text : Text) : List (TextPiece Char) :=
  simultaneous isReferenceChar rules none text

/-- The text behind the simultaneous pass. -/
def simultaneousText (rules : List TokenRule) (text : Text) : Text :=
  outputs id (simultaneousPass rules text)

/-- The number of occurrences that were rewritten, by the record. -/
def recordedTotal (counts : List RewriteCount) : Nat := (counts.map RewriteCount.count).sum

/-- The file is rewritten as by one simultaneous pass. -/
structure RewritesSimultaneously (rules : List TokenRule) (text : Text) : Prop where
  once : ∃ counts, rewriteExactReferences (utf8 text) rules
      = .ok (utf8 (simultaneousText rules text), counts)
    ∧ recordedTotal counts = (simultaneousPass rules text).countP TextPiece.isSwap
  untouched : InsertedUntouched isReferenceChar (turns rules) (text.map fun c => (c, false))
  again : ∃ counts, rewriteExactReferences (utf8 (simultaneousText rules text)) rules
    = .ok (utf8 (simultaneousText rules text), counts)

/-- The condition on the text. -/
structure Undisturbed (rules : List TokenRule) (text : Text) : Prop where
  clean : CleanTurns isReferenceChar (turns rules) (simultaneousPass rules text)
  nowhere : ∀ rule ∈ rules, Nowhere isReferenceChar rule (simultaneousText rules text)

section Sequence

variable {rules : List TokenRule} {rule : TokenRule} {text : Text} {counts : List RewriteCount}
  {pieces : List (TextPiece Char)} {unicode : Unicode}

/-! ## The loop -/

/-- The record only grows at its end. -/
theorem rewriteText_counts (rules : List TokenRule) (text : Text) (counts : List RewriteCount) :
    rewriteText text counts rules
      = ((rewriteText text [] rules).1, counts ++ (rewriteText text [] rules).2) := by
  induction rules generalizing text counts with
  | nil => simp [rewriteText]
  | cons rule rules ih =>
    rw [rewriteText, rewriteText]
    split_ifs
    · exact ih text counts
    · rw [ih _ (counts ++ _), ih _ ([] ++ _)]
      simp

/-- One turn of the loop, whether or not the token stands somewhere. -/
theorem rewriteText_cons (rule : TokenRule) (rules : List TokenRule) (text : Text) :
    (rewriteText text [] (rule :: rules)).1
        = (rewriteText (outputs id (passOf rule text)) [] rules).1
      ∧ recordedTotal (rewriteText text [] (rule :: rules)).2
        = (passOf rule text).countP TextPiece.isSwap
          + recordedTotal (rewriteText (outputs id (passOf rule text)) [] rules).2 := by
  rw [rewriteText]
  split_ifs with none
  · have kept : passOf rule text = text.map .keep := passText_nowhere (noSwap_iff.mp none)
    rw [kept, outputs_keep]
    refine ⟨rfl, ?_⟩
    rw [← kept, none, Nat.zero_add]
  · rw [rewriteText_counts]
    exact ⟨rfl, by simp [recordedTotal]⟩

theorem rewriteText_eq_sequential (rules : List TokenRule) (cells : List Cell) :
    (rewriteText (cells.map Prod.fst) [] rules).1
      = (sequentialCells isReferenceChar rules cells).map Prod.fst := by
  induction rules generalizing cells with
  | nil => rfl
  | cons rule rules ih =>
    rw [(rewriteText_cons rule rules _).1, sequentialCells, ← ih]
    exact congrArg (fun text => (rewriteText text [] rules).1) (passText_fst isReferenceChar rule cells).1

/-- The loop makes the passes one after the other. -/
theorem rewriteText_sequential (rules : List TokenRule) (text : Text) :
    (rewriteText text [] rules).1 = sequential isReferenceChar rules text := by
  have passes := rewriteText_eq_sequential rules (text.map fun c => (c, false))
  rw [List.map_map] at passes
  rw [sequential, ← passes]
  congr 2
  exact (List.map_id text).symm

/-- The record of clean pieces. -/
theorem recordedTotal_clean {order : List TokenRule} (separable : Separable isReferenceChar rules)
    (separated : Separated isReferenceChar rules none pieces) (nodup : order.Nodup)
    (clean : CleanTurns isReferenceChar order pieces) :
    recordedTotal (rewriteText ((pieceCells (undo order pieces)).map Prod.fst) [] order).2
      = (order.map fun rule => pieces.countP (TextPiece.swaps rule)).sum := by
  induction order with
  | nil => rfl
  | cons rule later ih =>
    obtain ⟨here, clean⟩ := clean
    rw [List.nodup_cons] at nodup
    have pass := (passPieces_eq_iff (separated.undo later).1 separable).mpr here
    obtain ⟨next, count⟩ := passText_fst isReferenceChar rule (pieceCells (undo (rule :: later) pieces))
    rw [undo_cons_rules, pass, outputs_passed] at next
    rw [undo_cons_rules, pass, countP_passed, countP_swaps_undo nodup.1] at count
    rw [(rewriteText_cons rule later _).2, List.map_cons, List.sum_cons, ← ih nodup.2 clean,
      undo_cons_rules]
    exact congrArg₂ (fun count text => count + recordedTotal (rewriteText text [] later).2) count next

/-! ## Rewriting again -/

theorem flawCount_rewriteText (start : ∀ rule ∈ rules, rule.old ≠ [])
    (fewer : ∀ rule ∈ rules, flawCount rule.new < flawCount rule.old) (text : Text) :
    flawCount (rewriteText text [] rules).1 + recordedTotal (rewriteText text [] rules).2
      ≤ flawCount text := by
  induction rules generalizing text with
  | nil => exact le_rfl
  | cons rule rules ih =>
    obtain ⟨next, total⟩ := rewriteText_cons rule rules text
    rw [next, total]
    have here : flawCount (outputs id (passOf rule text)) + (passOf rule text).countP TextPiece.isSwap
        ≤ flawCount text :=
      countP_passText (start rule List.mem_cons_self) (fewer rule List.mem_cons_self) text
    have rest := ih (fun other member => start other (List.mem_cons_of_mem _ member))
      (fun other member => fewer other (List.mem_cons_of_mem _ member))
      (outputs id (passOf rule text))
    omega

theorem rewriteText_nowhere (nowhere : ∀ rule ∈ rules, Nowhere isReferenceChar rule text) :
    rewriteText text [] rules = (text, []) := by
  induction rules with
  | nil => rfl
  | cons rule rules ih =>
    have none : (passOf rule text).countP TextPiece.isSwap = 0 :=
      noSwap_iff.mpr (nowhere rule List.mem_cons_self)
    rw [rewriteText, if_pos none]
    exact ih fun other member => nowhere other (List.mem_cons_of_mem _ member)

theorem nowhere_of_total (none : recordedTotal (rewriteText text [] rules).2 = 0) :
    ∀ rule ∈ rules, Nowhere isReferenceChar rule text := by
  induction rules with
  | nil => simp
  | cons rule rules ih =>
    rw [(rewriteText_cons rule rules text).2, Nat.add_eq_zero_iff] at none
    have nowhere : Nowhere isReferenceChar rule text := noSwap_iff.mp none.1
    have kept : passOf rule text = text.map .keep := passText_nowhere nowhere
    rw [kept, outputs_keep] at none
    intro other member
    rcases List.mem_cons.mp member with rfl | later
    · exact nowhere
    · exact ih none.2 other later

/-- Rewriting changes nothing exactly if no token stands anywhere. -/
theorem rewriteText_eq_self_iff (start : ∀ rule ∈ rules, rule.old ≠ [])
    (fewer : ∀ rule ∈ rules, flawCount rule.new < flawCount rule.old) :
    (rewriteText text [] rules).1 = text ↔ ∀ rule ∈ rules, Nowhere isReferenceChar rule text := by
  constructor
  · intro same
    have flaws := flawCount_rewriteText start fewer text
    rw [same] at flaws
    exact nowhere_of_total (by omega)
  · intro nowhere
    rw [rewriteText_nowhere nowhere]

/-! ## The file -/

theorem turns_perm (rules : List TokenRule) : (turns rules).Perm rules := List.mergeSort_perm _ _

theorem rewriteExactReferences_utf8 (text : Text) (rules : List TokenRule) :
    rewriteExactReferences (utf8 text) rules
      = .ok (utf8 (rewriteText text [] (turns rules)).1, (rewriteText text [] (turns rules)).2) := by
  rw [rewriteExactReferences, decodeUtf8_utf8]

/-- **Rewriting is simultaneous exactly if the simultaneous pass is undisturbed.** -/
theorem rewritesSimultaneously_iff {raw : List UInt8} {plan : PathMigrationPlan}
    {companions : List Path} (loaded : unicode.loadPlanBytes raw = .ok plan)
    (replaced : exactReferenceReplacements plan.moves companions = .ok rules) (text : Text) :
    RewritesSimultaneously rules text ↔ Undisturbed rules text := by
  have separable := separable_of_plan loaded replaced
  have nodup : (turns rules).Nodup := by
    have olds := (exactReferenceReplacements_ok
      (fun move member => ⟨unicode, (admitted_of_load loaded).1 move member⟩) replaced).2
    exact (turns_perm rules).nodup_iff.mpr (List.Nodup.of_map _ olds)
  have start : ∀ rule ∈ turns rules, rule.old ≠ [] := by
    intro rule member empty
    have := separable.oldStart rule ((turns_perm rules).mem_iff.mp member)
    rw [empty] at this
    cases this
  have fewer : ∀ rule ∈ turns rules, flawCount rule.new < flawCount rule.old := fun rule member =>
    flawCount_new_lt_old loaded replaced rule ((turns_perm rules).mem_iff.mp member)
  have sequence := sequential_iff separable (turns_perm rules) nodup text
  have self := @rewriteText_eq_self_iff (turns rules) (simultaneousText rules text) start fewer
  constructor
  · rintro ⟨⟨counts, once, -⟩, untouched, ⟨countsAgain, again⟩⟩
    rw [rewriteExactReferences_utf8] at once again
    have result := utf8_injective (congrArg Prod.fst (Except.ok.inj once))
    have unchanged := utf8_injective (congrArg Prod.fst (Except.ok.inj again))
    rw [rewriteText_sequential] at result
    refine ⟨sequence.mp ⟨result, untouched⟩, fun rule member => ?_⟩
    exact self.mp unchanged rule ((turns_perm rules).mem_iff.mpr member)
  · rintro ⟨clean, nowhere⟩
    obtain ⟨result, untouched⟩ := sequence.mpr clean
    have unchanged := self.mpr fun rule member => nowhere rule ((turns_perm rules).mem_iff.mp member)
    have separated := separated_simultaneous separable none text
    have source := undo_simultaneous separable (turns rules)
      (fun _ member => (turns_perm rules).mem_iff.mpr member) none text
    have total := recordedTotal_clean separable separated nodup clean
    have original : (pieceCells (text.map .keep)).map Prod.fst = text := by
      rw [pieceCells_keep, List.map_map]
      exact List.map_id text
    rw [source, original] at total
    have sum := @sum_countP_swaps (turns rules) (simultaneousPass rules text) nodup
      fun stretch rule member => (turns_perm rules).mem_iff.mpr (separated.mem_rules member)
    have once : (rewriteText text [] (turns rules)).1 = simultaneousText rules text := by
      rw [rewriteText_sequential, result]
      rfl
    exact ⟨⟨_, by rw [rewriteExactReferences_utf8, once], total.trans sum⟩, untouched,
      ⟨_, by rw [rewriteExactReferences_utf8, unchanged]⟩⟩

end Sequence

/-! ## Two plans -/

/-! A Unicode database that knows the Kelvin sign and ASCII, and leaves everything else. -/

def smallNfkc (text : Text) : Text := text.map fun c => if c = kelvinSign then 'K' else c

def smallExpansion (c : Char) : Text := [if c = kelvinSign then 'K' else c]

theorem smallExpansion_ne_nil : ∀ c, smallExpansion c ≠ [] := fun _ => List.cons_ne_nil _ _

theorem smallExpansion_ascii : ∀ c, isAscii c = true → smallExpansion c = [c] := by
  intro c ascii
  have other : c ≠ kelvinSign := by
    rintro rfl
    exact absurd ascii (by decide)
  rw [smallExpansion, if_neg other]

theorem smallNfkc_ascii : ∀ text, (∀ c ∈ text, isAscii c = true) → smallNfkc text = text := by
  intro text ascii
  refine (List.map_congr_left fun c member => ?_).trans (List.map_id _)
  have other : c ≠ kelvinSign := by
    rintro rfl
    exact absurd (ascii _ member) (by decide)
  rw [if_neg other]
  rfl

theorem smallNfkc_expands : ∀ text,
    (∀ c ∈ smallNfkc text, isAscii c = true ∨ c ∈ nonAsciiDashes ∨ isSpace c = true) →
      smallNfkc text = text.flatMap smallExpansion := fun _ _ => List.map_eq_flatMap

theorem smallNfkc_noKelvin : ∀ text, kelvinSign ∉ smallNfkc text := by
  intro text member
  obtain ⟨c, -, same⟩ := List.mem_map.mp member
  split_ifs at same with isKelvin
  · exact absurd same (by decide)
  · exact isKelvin same

theorem map_toLower_ascii : ∀ text : Text,
    (∀ c ∈ text, isAscii c = true) → text.map Char.toLower = text.map Char.toLower := fun _ _ => rfl

theorem map_toLower_onlyAscii : ∀ text : Text, kelvinSign ∉ text →
    (∀ c ∈ text.map Char.toLower, isAscii c = true) → ∀ c ∈ text, isAscii c = true := by
  intro text _ ascii c member
  have lowered := ascii _ (List.mem_map_of_mem member)
  rw [Char.toLower] at lowered
  split_ifs at lowered with upper
  · have high : c.toNat ≤ 90 := upper.2
    rw [isAscii, decide_eq_true_eq]
    omega
  · exact lowered

def smallUnicode : Unicode where
  nfkc := smallNfkc
  lower := List.map Char.toLower
  expansion := smallExpansion
  expansion_ne_nil := smallExpansion_ne_nil
  expansion_ascii := smallExpansion_ascii
  nfkc_ascii := smallNfkc_ascii
  nfkc_expands := smallNfkc_expands
  nfkc_noKelvin := smallNfkc_noKelvin
  lower_ascii := map_toLower_ascii
  lower_onlyAscii := map_toLower_onlyAscii

/-- The serialized plan of some moves. -/
def planBytes (moves : List (String × String)) : List UInt8 :=
  utf8 (Json.dumps (.obj
    [("schema_version".toList, .str "axiom-encode/rulespec-path-migration-plan/v1".toList),
      ("base_commit".toList, .str (List.replicate 40 '0')),
      ("moves".toList, .arr (moves.map fun move =>
        .obj [("from".toList, .str move.1.toList), ("to".toList, .str move.2.toList)]))]) ++ ['\n'])

def plannedMove (move : String × String) : PlannedMove := ⟨pathOf move.1.toList, pathOf move.2.toList⟩

/-- The first source starts inside the second one, and behind the third one's destination. -/
def overlappingMoves : List (String × String) :=
  [("us/statutes/y.yaml overlapping_tokens/w.yaml", "us/statutes/y.yaml-overlapping_tokens/w.yaml"),
    ("us/statutes/x us/statutes/y.yaml", "us/statutes/x-us/statutes/y.yaml"),
    ("us/statutes/Y.yaml", "us/statutes/y.yaml")]

def overlappingRules : List TokenRule :=
  [⟨"us/statutes/y.yaml overlapping_tokens/w.yaml".toList,
      "us/statutes/y.yaml-overlapping_tokens/w.yaml".toList⟩,
    ⟨"us:statutes/y.yaml overlapping_tokens/w".toList,
      "us:statutes/y.yaml-overlapping_tokens/w".toList⟩,
    ⟨"us/statutes/x us/statutes/y.yaml".toList, "us/statutes/x-us/statutes/y.yaml".toList⟩,
    ⟨"us:statutes/x us/statutes/y".toList, "us:statutes/x-us/statutes/y".toList⟩,
    ⟨"us/statutes/Y.yaml".toList, "us/statutes/y.yaml".toList⟩,
    ⟨"us:statutes/Y".toList, "us:statutes/y".toList⟩]

theorem turns_of_sorted {rules : List TokenRule}
    (sorted : rules.Pairwise fun rule other => comesFirst rule other = true) : turns rules = rules :=
  List.mergeSort_of_pairwise sorted

theorem rewriteExactReferences_sorted {rules : List TokenRule} {text rewritten : Text}
    (sorted : turns rules = rules) (once : (rewriteText text [] rules).1 = rewritten) :
    rewriteExactReferences (utf8 text) rules
      = .ok (utf8 rewritten, (rewriteText text [] rules).2) := by
  rw [rewriteExactReferences_utf8, sorted, once]

/-- The longer token is rewritten first, although the shorter one starts before it; and what
is inserted may complete a longer token, whose turn is over. -/
theorem overlapping_not_simultaneous :
    smallUnicode.loadPlanBytes (planBytes overlappingMoves)
        = .ok ⟨List.replicate 40 '0', overlappingMoves.map plannedMove⟩
      ∧ exactReferenceReplacements (overlappingMoves.map plannedMove) [] = .ok overlappingRules
      ∧ ¬ RewritesSimultaneously overlappingRules
          "us/statutes/x us/statutes/y.yaml overlapping_tokens/w.yaml".toList
      ∧ ¬ RewritesSimultaneously overlappingRules
          "us/statutes/Y.yaml overlapping_tokens/w.yaml".toList := by
  have sorted : turns overlappingRules = overlappingRules := turns_of_sorted (by decide +kernel)
  refine ⟨?_, by decide +kernel, ?_, ?_⟩
  · rw [Unicode.loadPlanBytes, planBytes, decodeUtf8_utf8, Option.bind_some,
      Json.loads_dumps _ (by decide +kernel)]
    decide +kernel
  · rintro ⟨⟨counts, once, -⟩, -, -⟩
    rw [rewriteExactReferences_utf8, sorted] at once
    have result := utf8_injective (congrArg Prod.fst (Except.ok.inj once))
    exact absurd result (by decide +kernel)
  · rintro ⟨-, -, counts, again⟩
    rw [rewriteExactReferences_utf8, sorted] at again
    have unchanged := utf8_injective (congrArg Prod.fst (Except.ok.inj again))
    exact absurd unchanged (by decide +kernel)

def upperCaseMoves : List (String × String) := [("us/statutes/A.yaml", "us/statutes/a.yaml")]

def upperCaseRules : List TokenRule :=
  [⟨"us/statutes/A.yaml".toList, "us/statutes/a.yaml".toList⟩,
    ⟨"us:statutes/A".toList, "us:statutes/a".toList⟩]

theorem upperCase_undisturbed :
    Undisturbed upperCaseRules "see us:statutes/A, in us/statutes/A.yaml".toList := by
  have loaded : smallUnicode.loadPlanBytes (planBytes upperCaseMoves)
      = .ok ⟨List.replicate 40 '0', upperCaseMoves.map plannedMove⟩ := by
    rw [Unicode.loadPlanBytes, planBytes, decodeUtf8_utf8, Option.bind_some,
      Json.loads_dumps _ (by decide +kernel)]
    decide +kernel
  have replaced : exactReferenceReplacements (upperCaseMoves.map plannedMove) [] = .ok upperCaseRules := by
    decide +kernel
  have sorted : turns upperCaseRules = upperCaseRules := turns_of_sorted (by decide +kernel)
  have once : (rewriteText "see us:statutes/A, in us/statutes/A.yaml".toList [] upperCaseRules).1
      = simultaneousText upperCaseRules "see us:statutes/A, in us/statutes/A.yaml".toList := by
    decide +kernel
  have again : (rewriteText (simultaneousText upperCaseRules
        "see us:statutes/A, in us/statutes/A.yaml".toList) [] upperCaseRules).1
      = simultaneousText upperCaseRules "see us:statutes/A, in us/statutes/A.yaml".toList := by
    decide +kernel
  refine (rewritesSimultaneously_iff loaded replaced _).mp
    ⟨⟨_, rewriteExactReferences_sorted sorted once, by decide +kernel⟩, ?_,
      ⟨_, rewriteExactReferences_sorted sorted again⟩⟩
  rw [sorted]
  decide +kernel

end AxiomEncode.Migration
