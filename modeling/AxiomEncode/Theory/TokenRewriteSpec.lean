/-
# Theory.TokenRewriteSpec -- token passes one after another, and all at once

The simultaneous pass swaps at each position the longest token that stands there.  The
rules may also be applied one pass after the other.  `sequential_iff` says when both are
the same and no pass touches what an earlier one inserted: when the turn of a rule comes,
its token starts only in stretches that the simultaneous pass gives to it (`Clean`).

The rules are `Separable`: a token starts with a reference character, what replaces it
consists of such characters and names the rule, and it is not the token's own beginning.
-/
import AxiomEncode.Theory.TokenRewrite

namespace AxiomEncode.Theory

set_option autoImplicit false

structure Separable (ref : Char → Bool) (rules : List TokenRule) : Prop where
  oldStart : ∀ rule ∈ rules, rule.old.head?.any ref = true
  newStart : ∀ rule ∈ rules, rule.new ≠ []
  newRef : ∀ rule ∈ rules, ∀ c ∈ rule.new, ref c = true
  newInj : ∀ rule ∈ rules, ∀ other ∈ rules, rule.new = other.new → rule = other
  fresh : ∀ rule ∈ rules, rule.old.takeWhile ref ≠ rule.new

/-- The text behind a swap begins with a character that is kept and no reference one. -/
def StartsPlain (ref : Char → Bool) : List (TextPiece Char) → Prop
  | [] => True
  | .keep c :: _ => ref c = false
  | .swap _ _ :: _ => False

/-- Each swap stands alone, between characters that are kept and no reference ones. -/
def Separated (ref : Char → Bool) (rules : List TokenRule) :
    Option Char → List (TextPiece Char) → Prop
  | _, [] => True
  | _, .keep c :: pieces => Separated ref rules (some c) pieces
  | before, .swap stretch rule :: pieces =>
    rule ∈ rules ∧ stretch = rule.old ∧ before.any ref = false ∧ StartsPlain ref pieces
      ∧ Separated ref rules none pieces

namespace TextPiece

/-- The piece before the swaps of a rule are made. -/
def undo (rules : List TokenRule) : TextPiece Char → List (TextPiece Char)
  | keep c => [keep c]
  | swap stretch rule => if rule ∈ rules then stretch.map keep else [swap stretch rule]

/-- The characters of a piece before the swaps of a rule are made. -/
def chars (rule : TokenRule) : TextPiece Char → List Char
  | keep c => [c]
  | swap stretch other => if other = rule then stretch else other.new

/-- The piece behind its pass, with the inserted characters marked. -/
def cells : TextPiece Char → List Cell
  | keep c => [(c, false)]
  | swap _ rule => rule.new.map fun c => (c, true)

/-- What the pass of a rule makes of a piece. -/
def passed (rule : TokenRule) : TextPiece Char → List (TextPiece Cell)
  | keep c => [.keep (c, false)]
  | swap stretch other =>
    if other = rule then [.swap (stretch.map fun c => (c, false)) rule]
    else other.new.map fun c => .keep (c, true)

end TextPiece

/-- The pieces before the swaps of some rules are made. -/
def undo (rules : List TokenRule) (pieces : List (TextPiece Char)) : List (TextPiece Char) :=
  pieces.flatMap (TextPiece.undo rules)

def pieceChars (rule : TokenRule) (pieces : List (TextPiece Char)) : List Char :=
  pieces.flatMap (TextPiece.chars rule)

def pieceCells (pieces : List (TextPiece Char)) : List Cell := pieces.flatMap TextPiece.cells

def passed (rule : TokenRule) (pieces : List (TextPiece Char)) : List (TextPiece Cell) :=
  pieces.flatMap (TextPiece.passed rule)

/-- The pass of one rule over marked characters. -/
def passPieces (ref : Char → Bool) (rule : TokenRule) (before : Option Char) (text : List Cell) :
    List (TextPiece Cell) :=
  scan Prod.fst (chooseOne ref rule) 0 before text

/-- The pieces are those behind the pass of a rule.  Before that pass, the token starts
only in the stretches that the pieces swap by the rule. -/
def Clean (ref : Char → Bool) (rule : TokenRule) (before : Option Char)
    (pieces : List (TextPiece Char)) : Prop :=
  ∀ front piece back u v, pieces = front ++ piece :: back → piece.chars rule = u ++ v → v ≠ [] →
    standsAt ref rule.old (lastOf before (pieceChars rule front ++ u)) (v ++ pieceChars rule back)
        = true →
      piece.swaps rule = true

section Pieces

variable {ref : Char → Bool} {rules later : List TokenRule} {rule other : TokenRule}
  {before b : Option Char} {pieces front back : List (TextPiece Char)} {piece : TextPiece Char}
  {text stretch : List Char} {c : Char}

theorem undo_cons (rules : List TokenRule) (piece : TextPiece Char) (pieces : List (TextPiece Char)) :
    undo rules (piece :: pieces) = piece.undo rules ++ undo rules pieces := by
  simp [undo]

theorem pieceCells_append (front back : List (TextPiece Char)) :
    pieceCells (front ++ back) = pieceCells front ++ pieceCells back := by
  simp [pieceCells]

theorem pieceCells_keep (text : List Char) :
    pieceCells (text.map .keep) = text.map fun c => (c, false) := by
  induction text with
  | nil => rfl
  | cons c text ih =>
    simp only [pieceCells, List.map_cons, List.flatMap_cons, TextPiece.cells] at ih ⊢
    rw [ih]
    rfl

@[simp] theorem pieceChars_cons (rule : TokenRule) (piece : TextPiece Char)
    (pieces : List (TextPiece Char)) :
    pieceChars rule (piece :: pieces) = piece.chars rule ++ pieceChars rule pieces := rfl

/-- The characters before a pass are those of the pieces with the rule's swaps undone. -/
theorem pieceCells_undo_chars (rule : TokenRule) (pieces : List (TextPiece Char)) :
    (pieceCells (undo [rule] pieces)).map Prod.fst = pieceChars rule pieces := by
  induction pieces with
  | nil => rfl
  | cons piece pieces ih =>
    rw [undo_cons, pieceCells_append, List.map_append, ih, pieceChars_cons]
    congr 1
    cases piece with
    | keep c => rfl
    | swap stretch other =>
      by_cases same : other = rule
      · subst same
        simp only [TextPiece.undo, TextPiece.chars, List.mem_singleton, if_true]
        rw [pieceCells_keep, List.map_map]
        exact List.map_id _
      · simp only [TextPiece.undo, TextPiece.chars, List.mem_singleton, same, if_false]
        simp [pieceCells, TextPiece.cells, Function.comp_def]

theorem clean_cons :
    Clean ref rule before (piece :: pieces) ↔
      (∀ u v, piece.chars rule = u ++ v → v ≠ [] →
          standsAt ref rule.old (lastOf before u) (v ++ pieceChars rule pieces) = true →
            piece.swaps rule = true)
        ∧ Clean ref rule (lastOf before (piece.chars rule)) pieces := by
  constructor
  · intro clean
    constructor
    · intro u v split nonempty stands
      exact clean [] piece pieces u v rfl split nonempty (by simpa [pieceChars] using stands)
    · intro front other back u v split chars nonempty stands
      refine clean (piece :: front) other back u v (by rw [split, List.cons_append]) chars nonempty ?_
      rwa [pieceChars_cons, List.append_assoc, lastOf_append]
  · rintro ⟨here, later⟩ front other back u v split chars nonempty stands
    cases front with
    | nil =>
      obtain ⟨rfl, rfl⟩ := List.cons.inj split
      exact here u v chars nonempty (by simpa [pieceChars] using stands)
    | cons first front =>
      obtain ⟨rfl, rest⟩ := List.cons.inj split
      refine later front other back u v rest chars nonempty ?_
      rwa [← lastOf_append, ← List.append_assoc, ← pieceChars_cons]

theorem Separated.of_startsPlain (separated : Separated ref rules before pieces)
    (plain : StartsPlain ref pieces) (b : Option Char) : Separated ref rules b pieces := by
  cases pieces with
  | nil => trivial
  | cons piece pieces =>
    cases piece with
    | keep c => exact separated
    | swap stretch rule => cases plain

theorem StartsPlain.head_pieceChars (plain : StartsPlain ref pieces) (rule : TokenRule) :
    (pieceChars rule pieces).head?.any ref = false := by
  cases pieces with
  | nil => rfl
  | cons piece pieces =>
    cases piece with
    | keep c =>
      have free : ref c = false := plain
      simpa [TextPiece.chars] using free
    | swap stretch rule => cases plain

theorem chooseOne_eq_none_iff {rest : List Char} :
    chooseOne ref rule before rest = none ↔ standsAt ref rule.old before rest = false := by
  rw [chooseOne]
  cases standsAt ref rule.old before rest <;> simp

/-- Nothing is chosen in a stretch of marked characters: said of the characters. -/
theorem forall_chooseOne_iff (cells rest : List Cell) :
    (∀ us vs, cells = us ++ vs → vs ≠ [] →
        chooseOne ref rule (lastOf before (us.map Prod.fst)) ((vs ++ rest).map Prod.fst) = none)
      ↔ ∀ u v, cells.map Prod.fst = u ++ v → v ≠ [] →
          standsAt ref rule.old (lastOf before u) (v ++ rest.map Prod.fst) = false := by
  constructor
  · intro free u v split nonempty
    obtain ⟨us, vs, rfl, rfl, rfl⟩ := List.map_eq_append_iff.mp split
    have none := free us vs rfl fun empty => nonempty (by rw [empty]; rfl)
    rwa [chooseOne_eq_none_iff, List.map_append] at none
  · intro free us vs split nonempty
    rw [chooseOne_eq_none_iff, List.map_append]
    exact free _ _ (by rw [split, List.map_append]) fun empty => nonempty (List.map_eq_nil_iff.mp empty)

/-- **The pass of a rule makes the swaps of the pieces exactly if they are clean.** -/
theorem passPieces_eq_iff (separated : Separated ref rules before pieces)
    (separable : Separable ref rules) :
    passPieces ref rule before (pieceCells (undo [rule] pieces)) = passed rule pieces
      ↔ Clean ref rule before pieces := by
  induction pieces generalizing before with
  | nil => simp [passPieces, undo, pieceCells, passed, scan, Clean]
  | cons piece pieces ih =>
    have chars := pieceCells_undo_chars rule pieces
    rw [undo_cons, pieceCells_append, clean_cons, passed, List.flatMap_cons, ← passed]
    cases piece with
    | keep c =>
      have kept := @scan_eq_keep_iff _ Prod.fst (chooseOne ref rule) before [(c, false)]
        (pieceCells (undo [rule] pieces)) (passed rule pieces)
      rw [forall_chooseOne_iff, chars] at kept
      have step := ih separated
      simp only [passPieces, TextPiece.undo, TextPiece.cells, TextPiece.passed, TextPiece.chars, TextPiece.swaps,
        pieceCells, List.flatMap_cons, List.flatMap_nil, List.append_nil, List.map_cons,
        List.map_nil, lastOf_cons, lastOf_nil, Bool.false_eq_true, imp_false,
        Bool.not_eq_true] at kept step ⊢
      rw [kept, step]
    | swap stretch other =>
      obtain ⟨member, rfl, free, plain, tail⟩ := separated
      have step := ih (tail.of_startsPlain plain (lastOf before (TextPiece.chars rule (.swap other.old other))))
      by_cases same : other = rule
      · subst same
        have nonempty : other.old.map (fun c => ((c, false) : Cell)) ≠ [] := by
          intro empty
          have start := separable.oldStart other member
          rw [List.map_eq_nil_iff.mp empty] at start
          cases start
        have stands : chooseOne ref other before
            ((other.old.map (fun c => ((c, false) : Cell))
              ++ pieceCells (undo [other] pieces)).map Prod.fst) = some other := by
          rw [chooseOne, if_pos]
          rw [standsAt_iff, List.map_append, List.map_map, chars]
          exact ⟨free, _, congrArg (· ++ _) (List.map_id _), plain.head_pieceChars other⟩
        have swapped := scan_swap nonempty stands (by simp)
        simp only [passPieces, TextPiece.undo, TextPiece.passed, TextPiece.chars, TextPiece.swaps,
          List.mem_singleton, if_true, pieceCells_keep, List.map_map] at swapped step ⊢
        rw [swapped]
        simp only [List.singleton_append, List.cons.injEq, true_and, decide_true,
          implies_true, Function.comp_def, List.map_id'] at step ⊢
        exact step
      · have kept := @scan_eq_keep_iff _ Prod.fst (chooseOne ref rule) before
          (other.new.map fun c => ((c, true) : Cell)) (pieceCells (undo [rule] pieces))
          (passed rule pieces)
        rw [forall_chooseOne_iff, chars] at kept
        simp only [passPieces, TextPiece.undo, TextPiece.cells, TextPiece.passed, TextPiece.chars, TextPiece.swaps,
          List.mem_singleton, same, if_false, pieceCells, List.flatMap_cons, List.flatMap_nil,
          List.append_nil, List.map_map, Function.comp_def, List.map_id', decide_false,
          Bool.false_eq_true, imp_false, Bool.not_eq_true] at kept step ⊢
        rw [kept, step]

/-! ## A pass that touches no inserted text -/

theorem Separated.mem_rules (separated : Separated ref rules before pieces)
    (member : .swap stretch rule ∈ pieces) : rule ∈ rules := by
  induction pieces generalizing before with
  | nil => cases member
  | cons piece pieces ih =>
    cases piece with
    | keep c =>
      rcases List.mem_cons.mp member with same | later
      · cases same
      · exact ih separated later
    | swap _ _ =>
      obtain ⟨inside, _, _, _, tail⟩ := separated
      rcases List.mem_cons.mp member with same | later
      · cases same
        exact inside
      · exact ih tail later

theorem separated_keep_append (text : List Char) :
    Separated ref rules before (text.map .keep ++ pieces)
      ↔ Separated ref rules (lastOf before text) pieces := by
  induction text generalizing before with
  | nil => rfl
  | cons c text ih =>
    rw [List.map_cons, List.cons_append, lastOf_cons]
    exact ih

/-- Unmarked characters in front are pieces that are kept. -/
theorem exists_keep_of_unmarked (news : ∀ stretch rule, .swap stretch rule ∈ pieces → rule.new ≠ [])
    {cells tail : List Cell} (split : pieceCells pieces = cells ++ tail)
    (unmarked : ∀ cell ∈ cells, cell.2 = false) :
    ∃ rest, pieces = (cells.map Prod.fst).map .keep ++ rest ∧ tail = pieceCells rest := by
  induction cells generalizing pieces with
  | nil => exact ⟨pieces, rfl, split.symm⟩
  | cons cell cells ih =>
    cases pieces with
    | nil => cases split
    | cons piece pieces =>
      cases piece with
      | keep c =>
        obtain ⟨rfl, later⟩ := List.cons.inj split
        obtain ⟨rest, rfl, same⟩ := ih (fun stretch rule member =>
          news stretch rule (List.mem_cons_of_mem _ member)) later
          fun cell member => unmarked cell (List.mem_cons_of_mem _ member)
        exact ⟨rest, rfl, same⟩
      | swap stretch rule =>
        obtain ⟨c, new, start⟩ :=
          List.exists_cons_of_ne_nil (news stretch rule List.mem_cons_self)
        have head : ((c, true) : Cell) = cell := by
          simp only [pieceCells, List.flatMap_cons, TextPiece.cells, start, List.map_cons,
            List.cons_append] at split
          exact (List.cons.inj split).1
        have marked := unmarked cell List.mem_cons_self
        rw [← head] at marked
        cases marked

theorem pieceCells_chars (news : ∀ stretch rule, .swap stretch rule ∈ pieces →
      rule.new ≠ [] ∧ ∀ c ∈ rule.new, ref c = true)
    (head : ((pieceCells pieces).map Prod.fst).head?.any ref = false) : StartsPlain ref pieces := by
  cases pieces with
  | nil => trivial
  | cons piece pieces =>
    cases piece with
    | keep c =>
      have free : ref c = false := by simpa [pieceCells, TextPiece.cells] using head
      exact free
    | swap stretch rule =>
      obtain ⟨nonempty, isRef⟩ := news stretch rule List.mem_cons_self
      obtain ⟨c, new, start⟩ := List.exists_cons_of_ne_nil nonempty
      have isRef := isRef c (by rw [start]; exact List.mem_cons_self)
      simp [pieceCells, TextPiece.cells, start, isRef] at head

/-- What the pass of a rule makes of some pieces. -/
structure PassedTo (ref : Char → Bool) (rules : List TokenRule) (rule : TokenRule)
    (before : Option Char) (pieces behind : List (TextPiece Char)) : Prop where
  undone : undo [rule] behind = pieces
  pass : passPieces ref rule before (pieceCells pieces) = passed rule behind
  separated : Separated ref rules before behind
  plain : StartsPlain ref pieces → StartsPlain ref behind

/-- No swap of a pass takes an inserted character. -/
def Untouching (pass : List (TextPiece Cell)) : Prop :=
  ∀ stretch rule, .swap stretch rule ∈ pass → ∀ cell ∈ stretch, cell.2 = false

theorem Untouching.of_subset {pass tail : List (TextPiece Cell)} (untouching : Untouching pass)
    (subset : tail ⊆ pass) : Untouching tail := fun stretch rule member =>
  untouching stretch rule (subset member)

/-- A character that is kept. -/
theorem PassedTo.keep {behind : List (TextPiece Char)}
    (step : passPieces ref rule before (pieceCells (.keep c :: pieces))
      = .keep (c, false) :: passPieces ref rule (some c) (pieceCells pieces))
    (tail : PassedTo ref rules rule (some c) pieces behind) :
    PassedTo ref rules rule before (.keep c :: pieces) (.keep c :: behind) where
  undone := by
    rw [undo_cons, tail.undone]
    rfl
  pass := by
    rw [step, tail.pass]
    rfl
  separated := tail.separated
  plain := id

variable {behind : List (TextPiece Char)}

/-- Characters that are swapped. -/
theorem PassedTo.swap {stretch : List Cell} (isOld : stretch.map Prod.fst = rule.old)
    (unmarked : ∀ cell ∈ stretch, cell.2 = false)
    (step : passPieces ref rule before (pieceCells (rule.old.map .keep ++ pieces))
      = .swap stretch rule :: passPieces ref rule (lastOf before rule.old) (pieceCells pieces))
    (member : rule ∈ rules) (free : before.any ref = false) (plain : StartsPlain ref pieces)
    (start : rule.old.head?.any ref = true)
    (tail : PassedTo ref rules rule (lastOf before rule.old) pieces behind) :
    PassedTo ref rules rule before (rule.old.map .keep ++ pieces) (.swap rule.old rule :: behind)
    where
  undone := by
    rw [undo_cons, tail.undone]
    simp [TextPiece.undo]
  pass := by
    have marks : rule.old.map (fun c => ((c, false) : Cell)) = stretch := by
      rw [← isOld, List.map_map]
      calc stretch.map ((fun c => ((c, false) : Cell)) ∘ Prod.fst)
          = stretch.map id := List.map_congr_left fun cell inside => by
            rw [Function.comp_apply, ← unmarked cell inside]
            rfl
        _ = stretch := List.map_id _
    rw [step, tail.pass]
    simp [passed, TextPiece.passed, marks]
  separated := ⟨member, rfl, free, tail.plain plain,
    tail.separated.of_startsPlain (tail.plain plain) none⟩
  plain := by
    intro plainStart
    exfalso
    cases old : rule.old with
    | nil =>
      rw [old] at start
      cases start
    | cons o rest =>
      rw [old, List.map_cons, List.cons_append] at plainStart
      rw [old] at start
      have isRef : ref o = true := start
      have notRef : ref o = false := plainStart
      rw [isRef] at notRef
      cases notRef

/-- A swap of an earlier pass. -/
theorem PassedTo.earlier (different : other ≠ rule) (member : other ∈ rules)
    (free : before.any ref = false) (plain : StartsPlain ref pieces)
    (step : passPieces ref rule before (pieceCells (.swap other.old other :: pieces))
      = (other.new.map fun c => .keep (c, true))
        ++ passPieces ref rule (lastOf before other.new) (pieceCells pieces))
    (tail : PassedTo ref rules rule (lastOf before other.new) pieces behind) :
    PassedTo ref rules rule before (.swap other.old other :: pieces)
      (.swap other.old other :: behind) where
  undone := by
    rw [undo_cons, tail.undone]
    simp [TextPiece.undo, different]
  pass := by
    rw [step, tail.pass]
    simp [passed, TextPiece.passed, different]
  separated := ⟨member, rfl, free, tail.plain plain,
    tail.separated.of_startsPlain (tail.plain plain) none⟩
  plain := id

/-- The pass goes over inserted characters without a swap. -/
theorem pass_earlier (separable : Separable ref rules) (member : rule ∈ rules)
    (untouching : Untouching
      (passPieces ref rule before (pieceCells (.swap stretch other :: pieces)))) :
    passPieces ref rule before (pieceCells (.swap stretch other :: pieces))
      = (other.new.map fun c => .keep (c, true))
        ++ passPieces ref rule (lastOf before other.new) (pieceCells pieces) := by
  have cells : pieceCells (.swap stretch other :: pieces)
      = other.new.map (fun c => ((c, true) : Cell)) ++ pieceCells pieces := rfl
  rw [cells] at untouching ⊢
  rcases @scan_keep_or_swap _ Prod.fst (chooseOne ref rule)
    (other.new.map fun c => ((c, true) : Cell)) (pieceCells pieces) before with
    kept | ⟨x, isNew, rest, found, b, text, chosen, inside⟩
  · have whole := (scan_eq_keep_iff _).mpr ⟨kept, rfl⟩
    simpa [passPieces, Function.comp_def] using whole
  · exfalso
    obtain ⟨rfl, -⟩ := chooseOne_eq_some chosen
    have start := separable.oldStart found member
    obtain ⟨c, -, rfl⟩ := List.mem_map.mp isNew
    have first : ((c, true) : Cell) ∈ ((c, true) :: rest).take found.old.length := by
      cases old : found.old with
      | nil =>
        rw [old] at start
        cases start
      | cons o old => exact List.mem_cons_self
    cases untouching _ _ inside (c, true) first

/-- **A pass that swaps no inserted character makes the swaps of some pieces.** -/
theorem exists_passedTo (separable : Separable ref rules) (member : rule ∈ rules)
    (separated : Separated ref rules before pieces)
    (unswapped : ∀ piece ∈ pieces, piece.swaps rule = false)
    (untouching : Untouching (passPieces ref rule before (pieceCells pieces))) :
    ∃ behind, PassedTo ref rules rule before pieces behind := by
  obtain ⟨n, bound⟩ : ∃ n, pieces.length ≤ n := ⟨_, le_rfl⟩
  induction n generalizing pieces before with
  | zero =>
    obtain rfl := List.length_eq_zero_iff.mp (Nat.le_zero.mp bound)
    exact ⟨[], rfl, rfl, trivial, id⟩
  | succ n ih =>
    have news : ∀ stretch other, .swap stretch other ∈ pieces →
        other.new ≠ [] ∧ ∀ c ∈ other.new, ref c = true := fun stretch other inside =>
      ⟨separable.newStart other (separated.mem_rules inside),
        separable.newRef other (separated.mem_rules inside)⟩
    cases pieces with
    | nil => exact ⟨[], rfl, rfl, trivial, id⟩
    | cons piece pieces =>
      have tailUnswapped : ∀ piece ∈ pieces, piece.swaps rule = false := fun piece inside =>
        unswapped piece (List.mem_cons_of_mem _ inside)
      have tailBound : pieces.length ≤ n := by
        rw [List.length_cons] at bound
        omega
      cases piece with
      | keep c =>
        have cells : pieceCells (.keep c :: pieces) = (c, false) :: pieceCells pieces := rfl
        cases chosen : chooseOne ref rule before
            (((c, false) :: pieceCells pieces).map Prod.fst) with
        | none =>
          have step : passPieces ref rule before (pieceCells (.keep c :: pieces))
              = .keep (c, false) :: passPieces ref rule (some c) (pieceCells pieces) :=
            scan_keep chosen
          have tailSeparated : Separated ref rules (some c) pieces := separated
          obtain ⟨behind, passedTo⟩ := ih tailSeparated tailUnswapped
            (untouching.of_subset (step ▸ List.subset_cons_self _ _)) tailBound
          exact ⟨_, passedTo.keep step⟩
        | some other =>
          obtain ⟨rfl, stands⟩ := chooseOne_eq_some chosen
          rw [← cells] at chosen stands
          obtain ⟨free, after, split, ends⟩ := standsAt_iff.mp stands
          obtain ⟨stretch, tail, whole, isOld, isAfter⟩ := List.map_eq_append_iff.mp split
          have start := separable.oldStart other member
          have nonempty : stretch ≠ [] := by
            rintro rfl
            rw [← isOld] at start
            cases start
          have step := @scan_swap _ _ _ _ tail _ _ nonempty (whole ▸ chosen)
            (by rw [← isOld, List.length_map])
          rw [← whole] at step
          have unmarked := untouching stretch other (by
            rw [passPieces, step]
            exact List.mem_cons_self)
          obtain ⟨rest, same, rfl⟩ := exists_keep_of_unmarked
            (fun s r inside => (news s r inside).1) whole unmarked
          rw [isOld] at same step
          rw [← isAfter] at ends
          have shorter : rest.length ≤ n := by
            have total := congrArg List.length same
            have positive : 0 < other.old.length := by
              rw [← isOld, List.length_map]
              exact List.length_pos_of_ne_nil nonempty
            simp only [List.length_cons, List.length_append, List.length_map] at total
            omega
          rw [same] at separated unswapped news step untouching ⊢
          have tailUntouching := untouching.of_subset (step ▸ List.subset_cons_self _ _)
          obtain ⟨behind, passedTo⟩ := ih ((separated_keep_append other.old).mp separated)
            (fun piece inside => unswapped piece (List.mem_append_right _ inside))
            tailUntouching shorter
          exact ⟨_, passedTo.swap isOld unmarked step member free
            (pieceCells_chars (fun s r inside => news s r (List.mem_append_right _ inside)) ends)
            start⟩
      | swap stretch other =>
        obtain ⟨inside, rfl, free, plain, tail⟩ := separated
        have different : other ≠ rule := by
          simpa [TextPiece.swaps] using unswapped _ List.mem_cons_self
        have step := pass_earlier separable member untouching
        have tailUntouching := untouching.of_subset (step ▸ List.subset_append_right _ _)
        obtain ⟨behind, passedTo⟩ :=
          ih (tail.of_startsPlain plain _) tailUnswapped tailUntouching tailBound
        exact ⟨_, passedTo.earlier different inside free plain step⟩

end Pieces

end AxiomEncode.Theory
