/-
# Theory.TokenSequence -- all passes, and the simultaneous pass

`sequential_iff`: the passes of some rules, one after the other, end in the text of the
simultaneous pass and swap no inserted character, exactly if the simultaneous pass is clean
for every rule at its turn.
-/
import AxiomEncode.Theory.TokenRewriteSpec

namespace AxiomEncode.Theory

set_option autoImplicit false

/-- The simultaneous pass: the longest token that stands at each position. -/
def simultaneous (ref : Char → Bool) (rules : List TokenRule) (before : Option Char)
    (text : List Char) : List (TextPiece Char) :=
  scan id (chooseLongest ref rules) 0 before text

/-- The passes of the rules, one after the other, over marked characters. -/
def sequentialCells (ref : Char → Bool) : List TokenRule → List Cell → List Cell
  | [], text => text
  | rule :: rules, text =>
    sequentialCells ref rules (outputs (fun c => (c, true)) (passPieces ref rule none text))

/-- No pass swaps a character that an earlier one has inserted. -/
def InsertedUntouched (ref : Char → Bool) : List TokenRule → List Cell → Prop
  | [], _ => True
  | rule :: rules, text =>
    Untouching (passPieces ref rule none text)
      ∧ InsertedUntouched ref rules (outputs (fun c => (c, true)) (passPieces ref rule none text))

/-- The piece swaps no inserted character. -/
def TextPiece.untouching : TextPiece Cell → Bool
  | keep _ => true
  | swap stretch _ => stretch.all fun cell => !cell.2

theorem untouching_iff {pieces : List (TextPiece Cell)} :
    Untouching pieces ↔ pieces.all TextPiece.untouching = true := by
  rw [List.all_eq_true]
  constructor
  · intro untouching piece member
    cases piece with
    | keep _ => rfl
    | swap stretch rule => simpa [TextPiece.untouching] using untouching stretch rule member
  · intro all stretch rule member
    simpa [TextPiece.untouching] using all _ member

instance (pieces : List (TextPiece Cell)) : Decidable (Untouching pieces) :=
  decidable_of_iff _ untouching_iff.symm

instance decidableInsertedUntouched (ref : Char → Bool) :
    ∀ rules text, Decidable (InsertedUntouched ref rules text)
  | [], _ => isTrue trivial
  | rule :: rules, text =>
    have := decidableInsertedUntouched ref rules
      (outputs (fun c => (c, true)) (passPieces ref rule none text))
    inferInstanceAs (Decidable (_ ∧ _))

/-- At the turn of each rule, with the swaps of the rules before it made, its token starts
only in the stretches that the pieces swap by it. -/
def CleanTurns (ref : Char → Bool) : List TokenRule → List (TextPiece Char) → Prop
  | [], _ => True
  | rule :: later, pieces =>
    Clean ref rule none (undo later pieces) ∧ CleanTurns ref later pieces

section Sequence

variable {ref : Char → Bool} {rules turns later : List TokenRule} {rule other : TokenRule}
  {before b : Option Char} {pieces : List (TextPiece Char)} {piece : TextPiece Char} {text : List Char}
  {c : Char}

theorem undo_append (rules : List TokenRule) (front back : List (TextPiece Char)) :
    undo rules (front ++ back) = undo rules front ++ undo rules back := by
  simp [undo]

@[simp] theorem undo_keep (rules : List TokenRule) (text : List Char) :
    undo rules (text.map .keep) = text.map .keep := by
  induction text with
  | nil => rfl
  | cons c text ih =>
    rw [List.map_cons, undo_cons, ih]
    rfl

@[simp] theorem undo_nil_rules (pieces : List (TextPiece Char)) : undo [] pieces = pieces := by
  induction pieces with
  | nil => rfl
  | cons piece pieces ih =>
    rw [undo_cons, ih]
    cases piece <;> simp [TextPiece.undo]

theorem undo_cons_rules (rule : TokenRule) (later : List TokenRule) (pieces : List (TextPiece Char)) :
    undo (rule :: later) pieces = undo [rule] (undo later pieces) := by
  induction pieces with
  | nil => rfl
  | cons piece pieces ih =>
    rw [undo_cons, undo_cons, undo_append, ih]
    congr 1
    cases piece with
    | keep c => rfl
    | swap stretch other =>
      by_cases isLater : other ∈ later
      · simp [TextPiece.undo, isLater]
      · by_cases same : other = rule
        · subst same
          simp [TextPiece.undo, isLater, undo]
        · simp [TextPiece.undo, isLater, same, undo]

theorem Separated.undo (separated : Separated ref rules before pieces) (later : List TokenRule) :
    Separated ref rules before (undo later pieces)
      ∧ (StartsPlain ref pieces → StartsPlain ref (Theory.undo later pieces)) := by
  induction pieces generalizing before with
  | nil => exact ⟨trivial, id⟩
  | cons piece pieces ih =>
    rw [undo_cons]
    cases piece with
    | keep c => exact ⟨(ih separated).1, id⟩
    | swap stretch other =>
      obtain ⟨member, rfl, free, plain, tail⟩ := separated
      obtain ⟨tail, tailPlain⟩ := ih tail
      refine ⟨?_, fun impossible => impossible.elim⟩
      by_cases isLater : other ∈ later
      · rw [TextPiece.undo, if_pos isLater, separated_keep_append]
        exact tail.of_startsPlain (tailPlain plain) _
      · rw [TextPiece.undo, if_neg isLater]
        exact ⟨member, rfl, free, tailPlain plain, tail⟩

@[simp] theorem outputs_keep {β : Type} (insert : Char → β) (xs : List β) :
    outputs insert (xs.map .keep) = xs := by
  induction xs with
  | nil => rfl
  | cons x xs ih => exact congrArg (x :: ·) ih

theorem outputs_passed (rule : TokenRule) (pieces : List (TextPiece Char)) :
    outputs (fun c => (c, true)) (passed rule pieces) = pieceCells pieces := by
  induction pieces with
  | nil => rfl
  | cons piece pieces ih =>
    rw [passed, List.flatMap_cons, ← passed, outputs, List.flatMap_append, ← outputs, ← outputs,
      ih, ← List.singleton_append, pieceCells_append]
    congr 1
    cases piece with
    | keep c => rfl
    | swap stretch other =>
      by_cases same : other = rule
      · subst same
        simp [TextPiece.passed, outputs, TextPiece.output, TextPiece.cells, pieceCells]
      · have kept := outputs_keep (fun c => ((c, true) : Cell))
          (other.new.map fun c => ((c, true) : Cell))
        rw [List.map_map, Function.comp_def] at kept
        simpa [TextPiece.passed, same, TextPiece.cells, pieceCells] using kept

theorem untouching_passed (rule : TokenRule) (pieces : List (TextPiece Char)) :
    Untouching (passed rule pieces) := by
  intro stretch other member cell inside
  obtain ⟨piece, -, here⟩ := List.mem_flatMap.mp member
  cases piece with
  | keep c => simp [TextPiece.passed] at here
  | swap old found =>
    by_cases same : found = rule
    · simp only [TextPiece.passed, same, if_true, List.mem_singleton, TextPiece.swap.injEq] at here
      rw [here.1] at inside
      obtain ⟨c, -, rfl⟩ := List.mem_map.mp inside
      rfl
    · simp [TextPiece.passed, same] at here

/-- Clean pieces are what the passes make. -/
theorem untouched_of_clean (separable : Separable ref rules)
    (separated : Separated ref rules none pieces) (clean : CleanTurns ref turns pieces) :
    InsertedUntouched ref turns (pieceCells (undo turns pieces))
      ∧ sequentialCells ref turns (pieceCells (undo turns pieces)) = pieceCells pieces := by
  induction turns with
  | nil => exact ⟨trivial, by rw [undo_nil_rules]; rfl⟩
  | cons rule later ih =>
    obtain ⟨here, clean⟩ := clean
    obtain ⟨untouched, same⟩ := ih clean
    have pass := (passPieces_eq_iff (separated.undo later).1 separable).mpr here
    rw [undo_cons_rules, InsertedUntouched, sequentialCells, pass, outputs_passed]
    exact ⟨⟨untouching_passed rule _, untouched⟩, same⟩

/-- Passes that touch no inserted character make the swaps of clean pieces. -/
theorem exists_clean_of_untouched (separable : Separable ref rules)
    (members : ∀ rule ∈ turns, rule ∈ rules) (nodup : turns.Nodup)
    (separated : Separated ref rules none pieces)
    (unswapped : ∀ rule ∈ turns, ∀ piece ∈ pieces, piece.swaps rule = false)
    (untouched : InsertedUntouched ref turns (pieceCells pieces)) :
    ∃ behind, undo turns behind = pieces ∧ Separated ref rules none behind
      ∧ CleanTurns ref turns behind
      ∧ sequentialCells ref turns (pieceCells pieces) = pieceCells behind := by
  induction turns generalizing pieces with
  | nil => exact ⟨pieces, undo_nil_rules pieces, separated, trivial, rfl⟩
  | cons rule later ih =>
    obtain ⟨untouching, untouched⟩ := untouched
    rw [List.nodup_cons] at nodup
    obtain ⟨next, undone, pass, nextSeparated, -⟩ :=
      exists_passedTo separable (members rule List.mem_cons_self) separated
        (unswapped rule List.mem_cons_self) untouching
    have clean : Clean ref rule none next := by
      rw [← undone] at pass
      exact (passPieces_eq_iff nextSeparated separable).mp pass
    have nextUnswapped : ∀ other ∈ later, ∀ piece ∈ next, piece.swaps other = false := by
      intro other isLater piece member
      have different : other ≠ rule := fun same => nodup.1 (same ▸ isLater)
      cases piece with
      | keep c => rfl
      | swap stretch found =>
        by_contra swapped
        have same : found = other := by simpa [TextPiece.swaps] using swapped
        have earlier : .swap stretch found ∈ pieces := by
          rw [← undone]
          refine List.mem_flatMap.mpr ⟨_, member, ?_⟩
          simp [TextPiece.undo, same, different]
        have := unswapped other (List.mem_cons_of_mem _ isLater) _ earlier
        simp [TextPiece.swaps, same] at this
    rw [pass, outputs_passed] at untouched
    obtain ⟨behind, undone', separated', clean', same⟩ :=
      ih (fun rule inside => members rule (List.mem_cons_of_mem _ inside)) nodup.2 nextSeparated
        nextUnswapped untouched
    refine ⟨behind, by rw [undo_cons_rules, undone', undone], separated',
      ⟨by rw [undone']; exact clean, clean'⟩, ?_⟩
    rw [sequentialCells, pass, outputs_passed, same]

/-! ## The simultaneous pass -/

variable {rest : List Char}

theorem simultaneous_keep (chosen : chooseLongest ref rules before (c :: rest) = none) :
    simultaneous ref rules before (c :: rest)
      = .keep c :: simultaneous ref rules (some c) rest :=
  scan_keep (by rwa [List.map_id])

theorem simultaneous_swap (separable : Separable ref rules)
    (chosen : chooseLongest ref rules before (rule.old ++ rest) = some rule) :
    simultaneous ref rules before (rule.old ++ rest)
      = .swap rule.old rule :: simultaneous ref rules (lastOf before rule.old) rest := by
  have start := separable.oldStart rule (chooseLongest_eq_some chosen).1
  have nonempty : rule.old ≠ [] := by
    intro empty
    rw [empty] at start
    cases start
  have step := @scan_swap _ id (chooseLongest ref rules) before rest _ _ nonempty (by rwa [List.map_id]) rfl
  rwa [List.map_id] at step

/-- Induction over the simultaneous pass. -/
theorem simultaneous_cases (separable : Separable ref rules) (before : Option Char)
    (text : List Char) :
    text = []
      ∨ (∃ c rest, text = c :: rest ∧ chooseLongest ref rules before (c :: rest) = none)
      ∨ ∃ rule rest, text = rule.old ++ rest ∧ rule ∈ rules ∧ rest.length < text.length
          ∧ before.any ref = false ∧ rest.head?.any ref = false
          ∧ chooseLongest ref rules before (rule.old ++ rest) = some rule := by
  cases text with
  | nil => exact .inl rfl
  | cons c rest =>
    cases chosen : chooseLongest ref rules before (c :: rest) with
    | none => exact .inr (.inl ⟨c, rest, rfl, chosen⟩)
    | some rule =>
      obtain ⟨member, stands⟩ := chooseLongest_eq_some chosen
      obtain ⟨free, after, split, ends⟩ := standsAt_iff.mp stands
      refine .inr (.inr ⟨rule, after, split, member, ?_, free, ends, split ▸ chosen⟩)
      have start := separable.oldStart rule member
      have positive : 0 < rule.old.length := by
        cases old : rule.old with
        | nil =>
          rw [old] at start
          cases start
        | cons o old => simp
      rw [split, List.length_append]
      omega

theorem simultaneous_startsPlain (separable : Separable ref rules) (ends : text.head?.any ref = false) :
    StartsPlain ref (simultaneous ref rules before text) := by
  cases text with
  | nil => trivial
  | cons c rest =>
    have free : ref c = false := ends
    cases chosen : chooseLongest ref rules before (c :: rest) with
    | none =>
      rw [simultaneous_keep chosen]
      exact free
    | some rule =>
      exfalso
      obtain ⟨member, stands⟩ := chooseLongest_eq_some chosen
      obtain ⟨-, after, split, -⟩ := standsAt_iff.mp stands
      have start := separable.oldStart rule member
      cases old : rule.old with
      | nil =>
        rw [old] at start
        cases start
      | cons o old' =>
        rw [old, List.cons_append] at split
        obtain ⟨rfl, -⟩ := List.cons.inj split
        rw [old] at start
        have isRef : ref c = true := start
        rw [isRef] at free
        cases free

theorem separated_simultaneous (separable : Separable ref rules) (before : Option Char)
    (text : List Char) : Separated ref rules before (simultaneous ref rules before text) := by
  obtain ⟨n, bound⟩ : ∃ n, text.length ≤ n := ⟨_, le_rfl⟩
  induction n generalizing before text with
  | zero =>
    obtain rfl := List.length_eq_zero_iff.mp (Nat.le_zero.mp bound)
    trivial
  | succ n ih =>
    rcases simultaneous_cases separable before text with
      rfl | ⟨c, rest, rfl, chosen⟩ | ⟨rule, rest, rfl, member, shorter, free, ends, chosen⟩
    · trivial
    · rw [simultaneous_keep chosen]
      exact ih (some c) rest (by simpa using bound)
    · rw [simultaneous_swap separable chosen]
      have plain := @simultaneous_startsPlain _ _ (lastOf before rule.old) _ separable ends
      exact ⟨member, rfl, free, plain, (ih _ rest (by omega)).of_startsPlain plain none⟩

theorem undo_simultaneous (separable : Separable ref rules) (turns : List TokenRule)
    (all : ∀ rule ∈ rules, rule ∈ turns) (before : Option Char) (text : List Char) :
    undo turns (simultaneous ref rules before text) = text.map .keep := by
  obtain ⟨n, bound⟩ : ∃ n, text.length ≤ n := ⟨_, le_rfl⟩
  induction n generalizing before text with
  | zero =>
    obtain rfl := List.length_eq_zero_iff.mp (Nat.le_zero.mp bound)
    rfl
  | succ n ih =>
    rcases simultaneous_cases separable before text with
      rfl | ⟨c, rest, rfl, chosen⟩ | ⟨rule, rest, rfl, member, shorter, -, -, chosen⟩
    · rfl
    · rw [simultaneous_keep chosen, undo_cons, ih (some c) rest (by simpa using bound)]
      rfl
    · rw [simultaneous_swap separable chosen, undo_cons, ih _ rest (by omega)]
      simp [TextPiece.undo, all rule member]

/-! ## Two ways to cut a text -/

@[simp] theorem outputs_cons {β : Type} (insert : Char → β) (piece : TextPiece β)
    (pieces : List (TextPiece β)) :
    outputs insert (piece :: pieces) = piece.output insert ++ outputs insert pieces := rfl

theorem head_outputs_of_startsPlain (plain : StartsPlain ref pieces) :
    (outputs id pieces).head?.any ref = false := by
  cases pieces with
  | nil => rfl
  | cons piece pieces =>
    cases piece with
    | keep c =>
      have free : ref c = false := plain
      simpa [TextPiece.output] using free
    | swap stretch rule => cases plain

/-- The reference characters in front of a text that goes on with another one. -/
theorem takeWhile_append_of_head {front back : List Char} (all : ∀ c ∈ front, ref c = true)
    (ends : back.head?.any ref = false) : (front ++ back).takeWhile ref = front := by
  rw [List.takeWhile_append_of_pos all]
  cases back with
  | nil => simp
  | cons c back =>
    have free : ref c = false := ends
    simp [free]

/-- Behind a reference character, a run of such characters is kept. -/
theorem takeWhile_outputs (separated : Separated ref rules before pieces)
    (isRef : before.any ref = true) (source : undo rules pieces = text.map .keep) :
    (outputs id pieces).takeWhile ref = text.takeWhile ref := by
  induction pieces generalizing before text with
  | nil =>
    cases text with
    | nil => rfl
    | cons c text => cases source
  | cons piece pieces ih =>
    cases piece with
    | swap stretch rule =>
      obtain ⟨-, -, free, -⟩ := separated
      rw [isRef] at free
      cases free
    | keep c =>
      rw [undo_cons] at source
      cases text with
      | nil => cases source
      | cons d text =>
        obtain ⟨same, later⟩ := List.cons.inj source
        obtain rfl := TextPiece.keep.inj same
        rw [outputs_cons]
        simp only [TextPiece.output, List.singleton_append, List.takeWhile_cons]
        cases isRef' : ref c with
        | false => rfl
        | true =>
          have tail : Separated ref rules (some c) pieces := separated
          simp only [if_true]
          rw [ih tail (by simpa using isRef') later]

theorem takeWhile_old (ends : rest.head?.any ref = false) (old : List Char) :
    (old ++ rest).takeWhile ref = old.takeWhile ref := by
  induction old with
  | nil =>
    cases rest with
    | nil => rfl
    | cons c rest =>
      have free : ref c = false := ends
      simp [free]
  | cons c old ih => simp [List.takeWhile_cons, ih]

/-- A swap in front of a text stands there. -/
theorem exists_of_swap_source {stretch : List Char}
    (separated : Separated ref rules before (.swap stretch rule :: pieces))
    (source : undo rules (.swap stretch rule :: pieces) = text.map .keep) :
    ∃ rest, text = rule.old ++ rest ∧ undo rules pieces = rest.map .keep
      ∧ standsAt ref rule.old before text = true := by
  obtain ⟨member, rfl, free, plain, -⟩ := separated
  rw [undo_cons, TextPiece.undo, if_pos member] at source
  obtain ⟨front, rest, rfl, isOld, isRest⟩ := List.map_eq_append_iff.mp source.symm
  obtain rfl := List.map_injective_iff.mpr (fun _ _ same => TextPiece.keep.inj same) isOld
  refine ⟨rest, rfl, isRest.symm, standsAt_iff.mpr ⟨free, rest, rfl, ?_⟩⟩
  cases pieces with
  | nil =>
    obtain rfl : rest = [] := List.map_eq_nil_iff.mp isRest
    rfl
  | cons piece pieces =>
    cases piece with
    | swap _ _ => cases plain
    | keep c =>
      cases rest with
      | nil => rfl
      | cons d rest =>
        obtain rfl := TextPiece.keep.inj (List.cons.inj isRest).1
        have notRef : ref d = false := plain
        simpa using notRef

/-- A swap begins the text with its rule's new token. -/
theorem takeWhile_outputs_swap {stretch : List Char} (separable : Separable ref rules)
    (member : rule ∈ rules) (plain : StartsPlain ref pieces) :
    (outputs id (.swap stretch rule :: pieces)).takeWhile ref = rule.new := by
  rw [outputs_cons, TextPiece.output, List.map_id]
  exact takeWhile_append_of_head (separable.newRef rule member) (head_outputs_of_startsPlain plain)

/-- **Pieces with the text of the simultaneous pass are its pieces.** -/
theorem eq_simultaneous (separable : Separable ref rules)
    (separated : Separated ref rules before pieces) (source : undo rules pieces = text.map .keep)
    (same : outputs id pieces = outputs id (simultaneous ref rules before text)) :
    pieces = simultaneous ref rules before text := by
  induction pieces generalizing before text with
  | nil =>
    obtain rfl : text = [] := List.map_eq_nil_iff.mp source.symm
    rfl
  | cons piece pieces ih =>
    rcases simultaneous_cases separable before text with
      rfl | ⟨c, rest, rfl, chosen⟩ | ⟨rule, rest, rfl, member, -, free, ends, chosen⟩
    · exfalso
      cases piece with
      | keep c => cases source
      | swap stretch rule =>
        have nonempty := separable.newStart rule (separated.mem_rules List.mem_cons_self)
        simp [outputs, simultaneous, scan, TextPiece.output, nonempty] at same
    · cases piece with
      | swap stretch other =>
        obtain ⟨-, -, -, stands⟩ := exists_of_swap_source separated source
        have nowhere := chooseLongest_eq_none chosen (separated.mem_rules List.mem_cons_self)
        rw [stands] at nowhere
        cases nowhere
      | keep d =>
        obtain ⟨head, later⟩ := List.cons.inj source
        obtain rfl := TextPiece.keep.inj head
        rw [simultaneous_keep chosen] at same ⊢
        have tail : Separated ref rules (some d) pieces := separated
        rw [ih tail later (List.cons.inj same).2]
    · have plain := @simultaneous_startsPlain _ _ (lastOf before rule.old) _ separable ends
      rw [simultaneous_swap separable chosen] at same ⊢
      -- both begin with the same run of reference characters
      have run : (outputs id (piece :: pieces)).takeWhile ref = rule.new := by
        rw [same]
        exact takeWhile_outputs_swap separable member plain
      cases piece with
      | keep d =>
        -- a kept token would begin with its own replacement
        exfalso
        have start := separable.oldStart rule member
        refine separable.fresh rule member ?_
        rw [← takeWhile_old ends, ← run]
        cases old : rule.old with
        | nil =>
          rw [old] at start
          cases start
        | cons o old' =>
          rw [old] at source start
          obtain ⟨head, later⟩ := List.cons.inj source
          obtain rfl := TextPiece.keep.inj head
          have isRef : ref d = true := start
          have tail : Separated ref rules (some d) pieces := separated
          have rest := takeWhile_outputs tail (by simpa using isRef) later
          rw [outputs_cons, TextPiece.output, List.singleton_append, List.cons_append,
            List.takeWhile_cons_of_pos isRef, List.takeWhile_cons_of_pos isRef, rest]
          rfl
      | swap stretch other =>
        have inside := separated.mem_rules List.mem_cons_self
        obtain ⟨-, rfl, -, plain', tail⟩ := separated
        have run' := @takeWhile_outputs_swap _ _ _ _ other.old separable inside plain'
        obtain rfl := separable.newInj other inside rule member (run'.symm.trans run)
        rw [undo_cons, TextPiece.undo, if_pos member, List.map_append] at source
        have later := List.append_cancel_left source
        rw [ih (tail.of_startsPlain plain' _) later (List.append_cancel_left same)]

/-! ## All passes -/

/-- The text behind the passes, without the marks. -/
def sequential (ref : Char → Bool) (turns : List TokenRule) (text : List Char) : List Char :=
  (sequentialCells ref turns (text.map fun c => (c, false))).map Prod.fst

theorem pieceCells_fst (pieces : List (TextPiece Char)) :
    (pieceCells pieces).map Prod.fst = outputs id pieces := by
  induction pieces with
  | nil => rfl
  | cons piece pieces ih =>
    rw [← List.singleton_append, pieceCells_append, List.map_append, ih]
    cases piece with
    | keep c => rfl
    | swap stretch rule => simp [pieceCells, TextPiece.cells, outputs, TextPiece.output, Function.comp_def]

/-- **The passes of the rules are the simultaneous pass, and touch no inserted character,
exactly if that pass is clean at every rule's turn.** -/
theorem sequential_iff (separable : Separable ref rules) (turnsPerm : turns.Perm rules)
    (nodup : turns.Nodup) (text : List Char) :
    (sequential ref turns text = outputs id (simultaneous ref rules none text)
        ∧ InsertedUntouched ref turns (text.map fun c => (c, false)))
      ↔ CleanTurns ref turns (simultaneous ref rules none text) := by
  have source := undo_simultaneous separable turns (fun _ member => turnsPerm.mem_iff.mpr member)
    none text
  have separated := separated_simultaneous separable none text
  constructor
  · rintro ⟨same, untouched⟩
    have kept : Separated ref rules none (text.map .keep) := by
      have := (@separated_keep_append ref rules none []
        text).mpr trivial
      rwa [List.append_nil] at this
    rw [← pieceCells_keep] at untouched
    obtain ⟨behind, undone, separated', clean, final⟩ :=
      exists_clean_of_untouched separable (fun _ member => turnsPerm.mem_iff.mp member) nodup kept
        (by
          intro rule _ piece member
          obtain ⟨c, -, rfl⟩ := List.mem_map.mp member
          rfl) untouched
    have undone' : undo rules behind = text.map .keep := by
      rw [← undone]
      refine List.flatMap_congr fun piece _ => ?_
      cases piece with
      | keep c => rfl
      | swap stretch rule => simp [TextPiece.undo, turnsPerm.mem_iff]
    rw [pieceCells_keep] at final
    rw [sequential, final, pieceCells_fst] at same
    rwa [← eq_simultaneous separable separated' undone' same]
  · intro clean
    obtain ⟨untouched, final⟩ := untouched_of_clean separable separated clean
    rw [source, pieceCells_keep] at untouched final
    exact ⟨by rw [sequential, final, pieceCells_fst], untouched⟩

end Sequence

end AxiomEncode.Theory
