/-
# Theory.ExactEdit -- when the loop writes the edit and nothing else

`Edited` is the edit of lines that changes nothing else: some lines are left out, some are
put in, and the one other change is a line break behind an unterminated last line that
stops being the last one.

The loop `rebuild` also finishes a terminated line that does not look finished to it.
`edited_settle` and `not_edited_settle` say that it writes an exact edit **if and only if
no line it keeps in front of an inserted one has such a terminator**.
-/
import AxiomEncode.Theory.LineEdit
import Mathlib.Data.List.Chain

namespace AxiomEncode.Theory

set_option autoImplicit false

/-- A line of an edited text, with the entry it holds. -/
structure EditLine (κ : Type*) where
  text : List Char
  entry : Option κ
  isNew : Bool
  deriving DecidableEq, Repr

namespace EditLine

variable {κ : Type*}

/-- The line ends in LF, CR LF or CR. -/
def plain (line : EditLine κ) : Bool := line.text.getLast?.any fun c => c = '\n' || c = '\r'

def finish (newline : List Char) (line : EditLine κ) : EditLine κ :=
  { line with text := line.text ++ newline }

/-- The line may be followed by an inserted one: it looks finished, or it has to be
finished. -/
def Admits (line : EditLine κ) : Prop := line.plain = true ∨ Terminated line.text = false

end EditLine

/-- The text of lines. -/
def linesText {κ : Type*} (lines : List (EditLine κ)) : List Char := lines.flatMap EditLine.text

/-- `written` is `old` from `index` on without the lines that are `gone` and with the lines
`inserted`, in their order. -/
inductive Edited {κ : Type*} (newline : List Char) (gone : Nat → Bool) :
    Nat → List (EditLine κ) → List (EditLine κ) → List (EditLine κ) → Prop
  | done (index : Nat) : Edited newline gone index [] [] []
  | delete {index : Nat} {line : EditLine κ} {old inserted written : List (EditLine κ)}
      (dropped : gone index = true) (rest : Edited newline gone (index + 1) old inserted written) :
      Edited newline gone index (line :: old) inserted written
  | keep {index : Nat} {line : EditLine κ} {old inserted written : List (EditLine κ)}
      (kept : gone index = false) (ends : Terminated line.text = true ∨ written = [])
      (rest : Edited newline gone (index + 1) old inserted written) :
      Edited newline gone index (line :: old) inserted (line :: written)
  | finish {index : Nat} {line : EditLine κ} {inserted written : List (EditLine κ)}
      (kept : gone index = false) (open_ : Terminated line.text = false) (more : written ≠ [])
      (rest : Edited newline gone (index + 1) [] inserted written) :
      Edited newline gone index [line] inserted (line.finish newline :: written)
  | insert {index : Nat} {line : EditLine κ} {old inserted written : List (EditLine κ)}
      (rest : Edited newline gone index old inserted written) :
      Edited newline gone index old (line :: inserted) (line :: written)

section Exact

variable {κ : Type*} {newline : List Char} {pending : Nat → List (EditLine κ)} {gone : Nat → Bool}

/-- An inserted line follows only a line that admits one. -/
def Follows (line next : EditLine κ) : Prop := next.isNew = true → line.Admits

/-- Everything pending from `index` to the end of `length` more lines. -/
def allPending (pending : Nat → List (EditLine κ)) (index : Nat) : Nat → List (EditLine κ)
  | 0 => pending index
  | length + 1 => pending index ++ allPending pending (index + 1) length

theorem edited_insert_append {index : Nat} {old inserted written first : List (EditLine κ)}
    (rest : Edited newline gone index old inserted written) :
    Edited newline gone index old (first ++ inserted) (first ++ written) := by
  induction first with
  | nil => exact rest
  | cons line first ih => exact .insert ih

variable {index : Nat} {rest old inserted written : List (EditLine κ)} {line : EditLine κ}

theorem edited_nil (inserted : List (EditLine κ)) :
    Edited newline gone index [] inserted inserted := by
  have whole := @edited_insert_append _ newline gone _ _ _ _ inserted
    (Edited.done index)
  rwa [List.append_nil] at whole

variable (newline) in
/-- The list as the loop leaves it. -/
abbrev settled (lines : List (EditLine κ)) : List (EditLine κ) :=
  settle EditLine.plain (EditLine.finish newline) EditLine.isNew lines

/-- Finishing a line leaves its entry. -/
theorem filterMap_entry_settled (lines : List (EditLine κ)) :
    (settled newline lines).filterMap EditLine.entry = lines.filterMap EditLine.entry := by
  induction lines with
  | nil => rfl
  | cons line lines ih =>
    cases lines with
    | nil => rfl
    | cons next rest =>
      show ((if next.isNew && !line.plain then line.finish newline else line) ::
        settled newline (next :: rest)).filterMap EditLine.entry = _
      have same : (if next.isNew && !line.plain then line.finish newline else line).entry =
          line.entry := by
        split <;> rfl
      rw [List.filterMap_cons, List.filterMap_cons, same, ih]

/-- Lines that wait at ascending places are all of them, in their order. -/
theorem allPending_filter {ι : Type*} {entries : List ι} {place : ι → Nat} {make : ι → EditLine κ}
    (ascending : entries.Pairwise fun a b => place a ≤ place b) {index length : Nat}
    (bounded : ∀ a ∈ entries, place a ≤ index + length) :
    allPending (fun at_ => (entries.filter fun a => place a = at_).map make) index length =
      (entries.filter fun a => index ≤ place a).map make := by
  induction length generalizing index with
  | zero =>
    rw [allPending]
    congr 1
    apply List.filter_congr
    intro a member
    have most := bounded a member
    exact decide_eq_decide.mpr ⟨fun equal => by omega, fun least => by omega⟩
  | succ length ih =>
    rw [allPending, ih fun a member => by have most := bounded a member; omega,
      filter_le_eq ascending index, List.map_append]

theorem settled_append_pending {first : List (EditLine κ)}
    (new : ∀ line ∈ first, line.isNew = true ∧ line.plain = true) :
    settled newline (first ++ rest) = first ++ settled newline rest := by
  induction first with
  | nil => rfl
  | cons line first ih =>
    have tail := ih fun other member => new other (List.mem_cons_of_mem _ member)
    rw [List.cons_append, List.cons_append, ← tail]
    cases whole : first ++ rest with
    | nil => rfl
    | cons next others =>
      show (if next.isNew && !line.plain then _ else line) :: _ = _
      rw [(new line List.mem_cons_self).2]
      simp

theorem settled_cons (stays : ∀ next ∈ rest.head?, next.isNew = true → line.plain = true) :
    settled newline (line :: rest) = line :: settled newline rest := by
  cases rest with
  | nil => rfl
  | cons next rest =>
    show (if next.isNew && !line.plain then _ else line) :: _ = _
    rw [if_neg]
    intro both
    rw [Bool.and_eq_true, Bool.not_eq_true'] at both
    have looks := stays next rfl both.1
    rw [looks] at both
    exact absurd both.2 (by decide)

theorem settled_cons_finish {next : EditLine κ} (new : next.isNew = true)
    (looks : line.plain = false) :
    settled newline (line :: next :: rest) =
      line.finish newline :: settled newline (next :: rest) := by
  show (if next.isNew && !line.plain then _ else line) :: _ = _
  rw [new, looks]
  rfl

theorem terminated_of_plain (looks : line.plain = true) :
    Terminated line.text = true := by
  unfold EditLine.plain at looks
  unfold Terminated
  cases last : line.text.getLast? with
  | none =>
    rw [last] at looks
    cases looks
  | some c =>
    rw [last] at looks
    have either : c = '\n' ∨ c = '\r' := by simpa using looks
    rcases either with rfl | rfl <;> decide

/-- **Without an offending line the loop writes an exact edit.** -/
theorem edited_settle (new : ∀ index, ∀ line ∈ pending index, line.isNew = true ∧ line.plain = true)
    {rest : List (EditLine κ)} {index : Nat} (old : ∀ line ∈ rest, line.isNew = false)
    (areLines : AreLines (rest.map EditLine.text))
    (follows : (weave pending gone index rest).IsChain Follows) :
    Edited newline gone index rest (allPending pending index rest.length)
      (settled newline (weave pending gone index rest)) := by
  induction rest generalizing index with
  | nil =>
    rw [weave, List.length_nil, allPending, settled, settle_of_plain fun line member => (new index line member).2]
    exact edited_nil (pending index)
  | cons line rest ih =>
    have others : ∀ line ∈ rest, line.isNew = false := fun other member =>
      old other (List.mem_cons_of_mem _ member)
    obtain ⟨-, ends, restLines⟩ := areLines
    rw [weave] at follows ⊢
    rw [List.append_assoc] at follows ⊢
    rw [settled_append_pending (new index), List.length_cons, allPending]
    apply edited_insert_append
    have behind := (List.isChain_append.mp follows).2.1
    by_cases dropped : gone index = true
    · rw [if_pos dropped, List.nil_append] at behind ⊢
      exact .delete dropped (ih others restLines behind)
    · rw [if_neg dropped, List.singleton_append] at behind ⊢
      have kept : gone index = false := by simpa using dropped
      have tail := ih others restLines (List.isChain_cons.mp behind).2
      cases open_ : Terminated line.text with
      | true =>
        -- An old line with its line break stays as it is, whatever follows.
        have same : settled newline (line :: weave pending gone (index + 1) rest) =
            line :: settled newline (weave pending gone (index + 1) rest) := by
          apply settled_cons
          intro next first new
          rcases (List.isChain_cons.mp behind).1 next first new with looks | lacks
          · exact looks
          · rw [lacks] at open_
            cases open_
        rw [same]
        exact .keep kept (Or.inl open_) tail
      | false =>
        -- Without one it is the last line, and is finished if anything is pending.
        have last : rest = [] := by
          rcases ends with ends | last
          · rw [open_] at ends
            cases ends
          · simpa using last
        subst last
        rw [weave] at tail ⊢
        cases more : pending (index + 1) with
        | nil =>
          rw [more] at tail
          exact .keep kept (Or.inr rfl) tail
        | cons next others =>
          have new := (new (index + 1) next (by rw [more]; exact List.mem_cons_self)).1
          have looks : line.plain = false := by
            by_contra looks
            rw [terminated_of_plain (by simpa using looks)] at open_
            cases open_
          rw [settled_cons_finish new looks]
          rw [more] at tail
          exact .finish kept open_ (settle_ne_nil (List.cons_ne_nil next others)) tail

/-! ## Counting the line breaks put in -/

/-- How many neighbours are related. -/
def countPairs {α : Type*} (related : α → α → Bool) : List α → Nat
  | first :: second :: rest =>
    (if related first second then 1 else 0) + countPairs related (second :: rest)
  | _ => 0

theorem countPairs_le_append {α : Type*} {related : α → α → Bool} (first second : List α) :
    countPairs related second ≤ countPairs related (first ++ second) := by
  induction first with
  | nil => exact Nat.le_refl _
  | cons x first ih =>
    refine Nat.le_trans ih ?_
    rw [List.cons_append]
    cases first ++ second with
    | nil => exact Nat.le_refl _
    | cons y rest => exact Nat.le_add_left _ _

theorem countPairs_pos {α : Type*} {related : α → α → Bool} {good : α → α → Prop}
    (bad : ∀ x y, ¬ good x y → related x y = true) {xs : List α} (broken : ¬ xs.IsChain good) :
    0 < countPairs related xs := by
  induction xs with
  | nil => exact absurd List.IsChain.nil broken
  | cons x xs ih =>
    cases xs with
    | nil => exact absurd (List.IsChain.singleton x) broken
    | cons y rest =>
      rw [List.isChain_cons_cons, not_and_or] at broken
      rw [countPairs]
      rcases broken with here | later
      · rw [if_pos (bad x y here)]
        omega
      · have counted := ih later
        omega

/-- An inserted line behind one that does not look finished. -/
def loose (line next : EditLine κ) : Bool := next.isNew && !line.plain

/-- The same where the line has a terminator. -/
def offends (line next : EditLine κ) : Bool := next.isNew && !line.plain && Terminated line.text

/-- The same where it has none. -/
def lacks (line next : EditLine κ) : Bool := next.isNew && !Terminated line.text

theorem countPairs_loose (lines : List (EditLine κ)) :
    countPairs loose lines = countPairs offends lines + countPairs lacks lines := by
  induction lines with
  | nil => rfl
  | cons line lines ih =>
    cases lines with
    | nil => rfl
    | cons next rest =>
      rw [countPairs, countPairs, countPairs, ih]
      have split : (if loose line next then 1 else 0) =
          (if offends line next then 1 else 0) + (if lacks line next then 1 else 0) := by
        unfold loose offends lacks
        cases looks : line.plain with
        | true => rw [terminated_of_plain looks]; simp
        | false => cases next.isNew <;> cases Terminated line.text <;> rfl
      omega

theorem linesText_cons (line : EditLine κ) (lines : List (EditLine κ)) :
    linesText (line :: lines) = line.text ++ linesText lines := rfl

theorem linesText_append (first second : List (EditLine κ)) :
    linesText (first ++ second) = linesText first ++ linesText second := List.flatMap_append

theorem length_linesText_settled (lines : List (EditLine κ)) :
    (linesText (settled newline lines)).length =
      (linesText lines).length + newline.length * countPairs loose lines := by
  induction lines with
  | nil => rfl
  | cons line lines ih =>
    cases lines with
    | nil => rfl
    | cons next rest =>
      show (linesText ((if next.isNew && !line.plain then line.finish newline else line) ::
        settled newline (next :: rest))).length = _
      rw [linesText_cons, List.length_append, ih, countPairs, linesText_cons line, List.length_append]
      show _ = _ + newline.length * ((if next.isNew && !line.plain then 1 else 0) + _)
      split
      · rw [EditLine.finish, List.length_append, Nat.mul_add]
        omega
      · rw [Nat.zero_add]
        omega

/-- The lines of `rest` that stay. -/
abbrev keptOf (gone : Nat → Bool) (index : Nat) (rest : List (EditLine κ)) : List (EditLine κ) :=
  weave (fun _ => []) gone index rest

theorem length_linesText_weave (index : Nat) (rest : List (EditLine κ)) :
    (linesText (weave pending gone index rest)).length =
      (linesText (keptOf gone index rest)).length + (linesText (allPending pending index rest.length)).length := by
  induction rest generalizing index with
  | nil => simp [weave, allPending, linesText]
  | cons line rest ih =>
    rw [weave, keptOf, weave, List.length_cons, allPending]
    simp only [linesText_append, List.length_append, List.nil_append]
    have tail := ih (index + 1)
    unfold keptOf at tail
    omega

theorem keptOf_gone (dropped : gone index = true) :
    keptOf gone index (line :: rest) = keptOf gone (index + 1) rest := by
  rw [keptOf, weave, if_pos dropped]
  rfl

theorem keptOf_kept (kept : gone index = false) :
    keptOf gone index (line :: rest) = line :: keptOf gone (index + 1) rest := by
  rw [keptOf, weave, if_neg (by rw [kept]; decide)]
  rfl

theorem eq_of_edited_nil (edited : Edited newline gone index old inserted written)
    (none_old : old = []) :
    written = inserted := by
  induction edited with
  | done => rfl
  | insert _ ih => rw [ih none_old]
  | delete | keep | finish => cases none_old

/-- An exact edit is as long as what it keeps and inserts; or it ends in an inserted line
behind an old one that it had to finish. -/
theorem Edited.length (edited : Edited newline gone index old inserted written) :
    (linesText written).length =
        (linesText (keptOf gone index old)).length + (linesText inserted).length ∨
      (linesText written).length =
          (linesText (keptOf gone index old)).length + (linesText inserted).length + newline.length ∧
        ∃ before last new, old = before ++ [last] ∧ Terminated last.text = false ∧
          gone (index + before.length) = false ∧ written.getLast? = some new ∧ new ∈ inserted := by
  induction edited with
  | done => exact Or.inl rfl
  | @delete index line old inserted written dropped _ ih =>
    rw [keptOf_gone dropped]
    rcases ih with same | ⟨longer, before, last, new, rfl, open_, kept, final, member⟩
    · exact Or.inl same
    · refine Or.inr ⟨longer, line :: before, last, new, rfl, open_, ?_, final, member⟩
      rw [← kept, List.length_cons, Nat.add_right_comm, Nat.add_assoc]
  | @keep index line old inserted written kept _ _ ih =>
    rw [keptOf_kept kept, linesText_cons, linesText_cons, List.length_append, List.length_append]
    rcases ih with same | ⟨longer, before, last, new, rfl, open_, stays, final, member⟩
    · exact Or.inl (by omega)
    · refine Or.inr ⟨by omega, line :: before, last, new, rfl, open_, ?_, ?_, member⟩
      · rw [← stays, List.length_cons, Nat.add_right_comm, Nat.add_assoc]
      · rw [List.getLast?_cons, final]
        rfl
  | @finish index line inserted written kept open_ more rest ih =>
    obtain rfl := eq_of_edited_nil rest rfl
    refine Or.inr ⟨?_, [], line, written.getLast more, rfl, open_, kept, ?_, List.getLast_mem more⟩
    · rw [keptOf_kept kept, linesText_cons, linesText_cons, List.length_append, List.length_append,
        EditLine.finish, List.length_append]
      have none_left : linesText (keptOf gone (index + 1) ([] : List (EditLine κ))) = [] := rfl
      rw [none_left, List.length_nil]
      omega
    · rw [List.getLast?_cons, List.getLast?_eq_some_getLast more]
      rfl
  | @insert index line old inserted written _ ih =>
    rw [linesText_cons, linesText_cons, List.length_append, List.length_append]
    rcases ih with same | ⟨longer, before, last, new, rfl, open_, stays, final, member⟩
    · exact Or.inl (by omega)
    · refine Or.inr ⟨by omega, before, last, new, rfl, open_, stays, ?_,
        List.mem_cons_of_mem _ member⟩
      rw [List.getLast?_cons, final]
      rfl

theorem exists_weave_concat (before : List (EditLine κ)) (last : EditLine κ) (index : Nat)
    (kept : gone (index + before.length) = false) :
    ∃ first, weave pending gone index (before ++ [last]) =
      first ++ last :: pending (index + before.length + 1) := by
  induction before generalizing index with
  | nil =>
    refine ⟨pending index, ?_⟩
    rw [List.length_nil, Nat.add_zero] at kept
    rw [List.nil_append, weave, weave, if_neg (by rw [kept]; decide), List.append_assoc]
    rfl
  | cons line before ih =>
    rw [List.length_cons] at kept
    obtain ⟨first, woven⟩ := ih (index + 1) (by rw [← kept]; congr 1; omega)
    refine ⟨pending index ++ (if gone index then [] else [line]) ++ first, ?_⟩
    rw [List.cons_append, weave, woven, List.length_cons,
      show index + 1 + before.length + 1 = index + (before.length + 1) + 1 by omega]
    simp only [List.append_assoc]

theorem getLast?_linesText {lines : List (EditLine κ)} {last : EditLine κ}
    (final : lines.getLast? = some last) (nonempty : last.text ≠ []) :
    (linesText lines).getLast? = last.text.getLast? := by
  obtain ⟨before, rfl⟩ := List.getLast?_eq_some_iff.mp final
  rw [linesText_append, linesText_cons, List.getLast?_append_of_ne_nil]
  · rw [show linesText ([] : List (EditLine κ)) = [] from rfl, List.append_nil]
  · simpa [linesText] using nonempty

theorem ne_nil_of_areLines {lines : List (List Char)} (areLines : AreLines lines) :
    ∀ line ∈ lines, line ≠ [] := by
  induction lines with
  | nil => simp
  | cons first lines ih =>
    obtain ⟨nonempty, -, others⟩ := areLines
    intro line member
    rcases List.mem_cons.mp member with rfl | later
    · exact nonempty
    · exact ih others line later

theorem exists_of_mem_allPending {length : Nat} (member : line ∈ allPending pending index length) :
    ∃ place, line ∈ pending place := by
  induction length generalizing index with
  | zero => exact ⟨index, member⟩
  | succ length ih =>
    rcases List.mem_append.mp member with here | later
    · exact ⟨index, here⟩
    · exact ih later

/-- **With an offending line the loop writes no exact edit.** -/
theorem not_edited_settle (some_break : newline ≠ [])
    (new : ∀ index, ∀ line ∈ pending index, line.isNew = true ∧ line.plain = true)
    (areLines : AreLines (old.map EditLine.text))
    (offending : ¬ (weave pending gone index old).IsChain Follows)
    (edited : Edited newline gone index old (allPending pending index old.length) written) :
    linesText written ≠ linesText (settled newline (weave pending gone index old)) := by
  intro same
  have lengths : (linesText written).length =
      (linesText (keptOf gone index old)).length + (linesText (allPending pending index old.length)).length +
        newline.length * countPairs loose (weave pending gone index old) := by
    rw [same, length_linesText_settled, length_linesText_weave]
  have offences : 0 < countPairs offends (weave pending gone index old) := by
    refine countPairs_pos (fun line next bad => ?_) offending
    simp only [Follows, EditLine.Admits, Classical.not_imp, not_or] at bad
    simp only [offends, bad.1, Bool.not_eq_true _ ▸ bad.2.1, Bool.not_eq_false _ ▸ bad.2.2,
      Bool.not_false, Bool.and_self]
  have breaks : 0 < newline.length := List.length_pos_iff.mpr some_break
  rw [countPairs_loose] at lengths
  rcases edited.length with plain | ⟨longer, before, last, final, rfl, open_, kept, ends, member⟩
  · have none_more : newline.length * (countPairs offends (weave pending gone index old) +
        countPairs lacks (weave pending gone index old)) = 0 := by omega
    rcases Nat.mul_eq_zero.mp none_more with no_break | no_pair <;> omega
  · -- One line break was put in, behind the last line; so the offence was the only one.
    have one : newline.length * (countPairs offends (weave pending gone index (before ++ [last])) +
        countPairs lacks (weave pending gone index (before ++ [last]))) = newline.length * 1 := by
      omega
    have once := Nat.eq_of_mul_eq_mul_left breaks one
    obtain ⟨first, woven⟩ := @exists_weave_concat _ pending _ before last index kept
    cases tail : pending (index + before.length + 1) with
    | cons next others =>
      have counted := @countPairs_le_append _ lacks first (last :: next :: others)
      have here : lacks last next = true := by
        have inserted := (new _ next (by rw [tail]; exact List.mem_cons_self)).1
        rw [lacks, inserted, open_]
        rfl
      rw [woven, tail] at once
      rw [countPairs, if_pos here] at counted
      rw [woven, tail] at offences
      omega
    | nil =>
      -- Nothing is pending behind the last line: the texts end differently.
      rw [tail] at woven
      have lastLine : last.text ≠ [] := by
        apply ne_nil_of_areLines areLines
        simp
      have ending : (linesText written).getLast? = last.text.getLast? := by
        rw [same]
        apply getLast?_linesText _ lastLine
        rw [settled, getLast?_settle, woven]
        simp
      have finalPlain : final.plain = true := by
        obtain ⟨place, inside⟩ := exists_of_mem_allPending member
        exact (new place final inside).2
      have finalText : final.text ≠ [] := by
        intro empty
        simp [EditLine.plain, empty] at finalPlain
      rw [getLast?_linesText ends finalText] at ending
      have broken := terminated_of_plain finalPlain
      rw [Terminated, ending] at broken
      rw [Terminated, broken] at open_
      cases open_

/-! ## The offending lines by their place -/

theorem isChain_append_pending {first rest : List (EditLine κ)}
    (new : ∀ line ∈ first, line.isNew = true ∧ line.plain = true) :
    (first ++ rest).IsChain Follows ↔ rest.IsChain Follows := by
  induction first with
  | nil => rfl
  | cons line first ih =>
    rw [List.cons_append, List.isChain_cons,
      ih fun other member => new other (List.mem_cons_of_mem _ member), and_iff_right_iff_imp]
    intro _ next _ _
    exact Or.inl (new line List.mem_cons_self).2

/-- The woven lines start with an inserted one if something is pending before the first
kept line. -/
theorem head_weave_isNew (new : ∀ index, ∀ line ∈ pending index, line.isNew = true)
    (old : ∀ line ∈ rest, line.isNew = false) :
    (∃ next ∈ (weave pending gone index rest).head?, next.isNew = true) ↔
      ∃ place, index ≤ place ∧ place ≤ index + rest.length ∧ pending place ≠ [] ∧
        ∀ between, index ≤ between → between < place → gone between = true := by
  induction rest generalizing index with
  | nil =>
    rw [weave, List.length_nil, Nat.add_zero]
    constructor
    · rintro ⟨next, first, -⟩
      refine ⟨index, Nat.le_refl _, Nat.le_refl _, ?_, fun between least most => by omega⟩
      exact List.ne_nil_of_mem (List.mem_of_head? first)
    · rintro ⟨place, least, most, some_line, -⟩
      obtain rfl : index = place := Nat.le_antisymm least most
      obtain ⟨next, others, more⟩ := List.exists_cons_of_ne_nil some_line
      refine ⟨next, by rw [more]; rfl, new index next ?_⟩
      rw [more]
      exact List.mem_cons_self
  | cons line rest ih =>
    have others : ∀ line ∈ rest, line.isNew = false := fun other member =>
      old other (List.mem_cons_of_mem _ member)
    cases here : pending index with
    | cons next more =>
      rw [weave, here]
      constructor
      · intro _
        exact ⟨index, Nat.le_refl _, Nat.le_add_right _ _, by rw [here]; simp,
          fun between least most => by omega⟩
      · intro _
        exact ⟨next, rfl, new index next (by rw [here]; exact List.mem_cons_self)⟩
    | nil =>
      rw [weave, here, List.nil_append]
      by_cases dropped : gone index = true
      · rw [if_pos dropped, List.nil_append, ih others, List.length_cons]
        constructor
        · rintro ⟨place, least, most, some_line, between⟩
          refine ⟨place, by omega, by omega, some_line, fun middle low high => ?_⟩
          rcases Nat.eq_or_lt_of_le low with rfl | above
          · exact dropped
          · exact between middle above high
        · rintro ⟨place, least, most, some_line, between⟩
          have apart : index ≠ place := by
            rintro rfl
            exact some_line here
          exact ⟨place, by omega, by omega, some_line, fun middle low high =>
            between middle (by omega) high⟩
      · rw [if_neg dropped, List.singleton_append]
        constructor
        · rintro ⟨next, first, inserted⟩
          obtain rfl : line = next := by simpa using first
          rw [old line List.mem_cons_self] at inserted
          cases inserted
        · rintro ⟨place, least, most, some_line, between⟩
          have apart : index ≠ place := by
            rintro rfl
            exact some_line here
          exact absurd (between index (Nat.le_refl _) (by omega)) dropped

/-- No line offends if every kept line admits what is inserted directly behind it, that is,
with only dropped lines in between. -/
theorem isChain_weave_iff
    (new : ∀ index, ∀ line ∈ pending index, line.isNew = true ∧ line.plain = true)
    (old : ∀ line ∈ rest, line.isNew = false) :
    (weave pending gone index rest).IsChain Follows ↔
      ∀ place, place ≤ index + rest.length → pending place ≠ [] →
        ∀ offset line, rest[offset]? = some line → index + offset < place →
          gone (index + offset) = false →
          (∀ between, index + offset < between → between < place → gone between = true) →
          line.Admits := by
  induction rest generalizing index with
  | nil =>
    rw [weave]
    constructor
    · intro _ place _ _ offset line found
      cases found
    · intro _
      have whole := (@isChain_append_pending _ _ [] (new index)).mpr List.IsChain.nil
      rwa [List.append_nil] at whole
  | cons line rest ih =>
    have others : ∀ line ∈ rest, line.isNew = false := fun other member =>
      old other (List.mem_cons_of_mem _ member)
    rw [weave, List.append_assoc, isChain_append_pending (new index)]
    by_cases dropped : gone index = true
    · rw [if_pos dropped, List.nil_append, ih others, List.length_cons]
      constructor
      · intro admits place most some_line offset other found before kept between
        cases offset with
        | zero =>
          rw [Nat.add_zero, dropped] at kept
          cases kept
        | succ offset =>
          rw [← Nat.add_assoc, Nat.add_right_comm] at before kept
          refine admits place (by omega) some_line offset other found before kept ?_
          intro middle low high
          exact between middle (by omega) high
      · intro admits place most some_line offset other found before kept between
        rw [Nat.add_right_comm, Nat.add_assoc] at before kept
        refine admits place (by omega) some_line (offset + 1) other found before kept ?_
        intro middle low high
        exact between middle (by omega) high
    · have stays : gone index = false := by simpa using dropped
      rw [if_neg dropped, List.singleton_append, List.isChain_cons, ih others, List.length_cons]
      have first : (∀ next ∈ (weave pending gone (index + 1) rest).head?, Follows line next) ↔
          ((∃ next ∈ (weave pending gone (index + 1) rest).head?, next.isNew = true) →
            line.Admits) := by
        constructor
        · rintro follows ⟨next, head, inserted⟩
          exact follows next head inserted
        · intro admits next head inserted
          exact admits ⟨next, head, inserted⟩
      rw [first, head_weave_isNew (fun place line member => (new place line member).1) others]
      constructor
      · rintro ⟨here, admits⟩ place most some_line offset other found before kept between
        cases offset with
        | zero =>
          obtain rfl : line = other := by simpa using found
          exact here ⟨place, by omega, by omega, some_line, fun middle low high =>
            between middle (by omega) high⟩
        | succ offset =>
          rw [← Nat.add_assoc, Nat.add_right_comm] at before kept
          refine admits place (by omega) some_line offset other found before kept ?_
          intro middle low high
          exact between middle (by omega) high
      · intro admits
        constructor
        · rintro ⟨place, least, most, some_line, between⟩
          refine admits place (by omega) some_line 0 line rfl (by omega) stays ?_
          intro middle low high
          exact between middle (by omega) high
        · intro place most some_line offset other found before kept between
          rw [Nat.add_right_comm, Nat.add_assoc] at before kept
          refine admits place (by omega) some_line (offset + 1) other found before kept ?_
          intro middle low high
          exact between middle (by omega) high

end Exact

end AxiomEncode.Theory
