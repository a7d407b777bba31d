/-
# Theory.LineEdit -- deleting and inserting whole lines

`keptLines` splits a text into its lines, terminators included.  An edit of lines is
given by what is inserted before each index (`pending`) and by the indices that are
dropped (`gone`).

* `weave` is the edited list of lines.
* `rebuild` is the loop that writes it: before it appends pending lines it finishes the
  line written last, unless that line looks finished (`plain`).

`rebuild_eq_settle` separates the two: the loop weaves, and then finishes every line that
an inserted one follows.  `weave_order` says when the entries of the woven lines stand in
a given order.
-/
import AxiomEncode.Theory.PyText

namespace AxiomEncode.Theory

set_option autoImplicit false

/-! ## Lines with their terminators -/

/-- `text.splitlines(keepends=True)`; `line` holds what was read of the current line. -/
def keptLinesFrom (line : List Char) : List Char → List (List Char)
  | [] => if line.isEmpty then [] else [line]
  | '\r' :: '\n' :: rest => (line ++ ['\r', '\n']) :: keptLinesFrom [] rest
  | c :: rest =>
    if isLineBreak c then (line ++ [c]) :: keptLinesFrom [] rest
    else keptLinesFrom (line ++ [c]) rest

def keptLines (text : List Char) : List (List Char) := keptLinesFrom [] text

/-- The line ends in a line break of `str.splitlines`. -/
def Terminated (line : List Char) : Bool := line.getLast?.any isLineBreak

/-- Lines of a text: none is empty, and only the last may lack its line break. -/
def AreLines : List (List Char) → Prop
  | [] => True
  | line :: rest => line ≠ [] ∧ (Terminated line = true ∨ rest = []) ∧ AreLines rest

theorem terminated_append {line : List Char} {c : Char} (ends : isLineBreak c = true) :
    Terminated (line ++ [c]) = true := by
  simp [Terminated, ends]

theorem keptLinesFrom_areLines (line text : List Char) : AreLines (keptLinesFrom line text) := by
  induction line, text using keptLinesFrom.induct with
  | case1 line empty =>
    rw [keptLinesFrom, if_pos empty]
    trivial
  | case2 line visible =>
    rw [keptLinesFrom, if_neg visible]
    exact ⟨by simpa using visible, Or.inr rfl, trivial⟩
  | case3 line rest ih =>
    rw [keptLinesFrom]
    refine ⟨by simp, Or.inl ?_, ih⟩
    rw [show line ++ ['\r', '\n'] = (line ++ ['\r']) ++ ['\n'] by simp]
    exact terminated_append (by decide)
  | case4 line c rest single ends ih =>
    rw [keptLinesFrom, if_pos ends]
    · exact ⟨by simp, Or.inl (terminated_append ends), ih⟩
    · exact single
  | case5 line c rest single goes ih =>
    rw [keptLinesFrom, if_neg goes]
    · exact ih
    · exact single

theorem keptLines_areLines (text : List Char) : AreLines (keptLines text) :=
  keptLinesFrom_areLines [] text

/-! ## The edited list -/

section Weave

variable {Line : Type*} (pending : Nat → List Line) (gone : Nat → Bool)

/-- The lines from `index` on, with the pending ones in front of theirs. -/
def weave : Nat → List Line → List Line
  | index, [] => pending index
  | index, line :: rest =>
    pending index ++ (if gone index then [] else [line]) ++ weave (index + 1) rest

variable (plain : Line → Bool) (finish : Line → Line)

/-- Append pending lines, behind a last line that is finished first. -/
def withPending (updated pending : List Line) : List Line :=
  match pending, updated.getLast? with
  | _ :: _, some last =>
    if plain last then updated ++ pending else updated.dropLast ++ finish last :: pending
  | _, _ => updated ++ pending

/-- The loop over the lines, and its tail. -/
def rebuild : List Line → Nat → List Line → List Line
  | updated, index, [] => withPending plain finish updated (pending index)
  | updated, index, line :: rest =>
    let updated := withPending plain finish updated (pending index)
    rebuild (if gone index then updated else updated ++ [line]) (index + 1) rest

variable (isNew : Line → Bool)

/-- Finish every line that an inserted one follows. -/
def settle : List Line → List Line
  | line :: next :: rest =>
    (if isNew next && !plain line then finish line else line) :: settle (next :: rest)
  | short => short

variable {pending gone plain finish isNew}
variable {updated inserted : List Line}

theorem settle_append_old {line : Line} (old : isNew line = false) :
    settle plain finish isNew (updated ++ [line]) = settle plain finish isNew updated ++ [line] := by
  induction updated with
  | nil => rfl
  | cons first updated ih =>
    cases updated with
    | nil => simp [settle, old]
    | cons second updated =>
      rw [List.cons_append, List.cons_append, settle, ← List.cons_append, ih, settle,
        List.cons_append]

/-- The last line of a settled list is still as it was. -/
theorem getLast?_settle (updated : List Line) :
    (settle plain finish isNew updated).getLast? = updated.getLast? := by
  induction updated with
  | nil => rfl
  | cons first updated ih =>
    cases updated with
    | nil => rfl
    | cons second updated =>
      rw [settle]
      have longer : settle plain finish isNew (second :: updated) ≠ [] := by
        cases updated <;> simp [settle]
      rw [List.getLast?_cons_of_ne_nil longer, ih, List.getLast?_cons_cons]

theorem settle_ne_nil (some_line : updated ≠ []) :
    settle plain finish isNew updated ≠ [] := by
  rw [← List.getLast?_isSome, getLast?_settle, List.getLast?_isSome]
  exact some_line

theorem settle_of_plain (all : ∀ line ∈ updated, plain line = true) :
    settle plain finish isNew updated = updated := by
  induction updated with
  | nil => rfl
  | cons first updated ih =>
    cases updated with
    | nil => rfl
    | cons second updated =>
      rw [settle, all first List.mem_cons_self,
        ih fun line member => all line (List.mem_cons_of_mem _ member)]
      simp

theorem withPending_cons {first : Line} (more : updated ≠ []) :
    withPending plain finish (first :: updated) inserted =
      first :: withPending plain finish updated inserted := by
  obtain ⟨second, updated, rfl⟩ := List.exists_cons_of_ne_nil more
  unfold withPending
  rw [List.getLast?_cons_cons]
  split
  · split <;> simp
  · rfl

theorem settle_append_new (new : ∀ line ∈ inserted, isNew line = true ∧ plain line = true) :
    settle plain finish isNew (updated ++ inserted) =
      withPending plain finish (settle plain finish isNew updated) inserted := by
  have same : settle plain finish isNew inserted = inserted :=
    settle_of_plain fun line member => (new line member).2
  induction updated with
  | nil =>
    rw [List.nil_append, same]
    cases inserted <;> rfl
  | cons first updated ih =>
    cases updated with
    | cons second updated =>
      rw [List.cons_append, List.cons_append, settle, ← List.cons_append, ih, settle,
        withPending_cons (settle_ne_nil (List.cons_ne_nil second updated))]
    | nil =>
      cases inserted with
      | nil => rfl
      | cons next inserted =>
        rw [List.singleton_append, settle, same, (new next List.mem_cons_self).1]
        cases looks : plain first <;> simp [withPending, settle, looks]

/-- The loop weaves, and finishes each line that an inserted one follows. -/
theorem rebuild_eq_settle (new : ∀ index, ∀ line ∈ pending index, isNew line = true ∧ plain line = true)
    {updated rest : List Line} {index : Nat} (old : ∀ line ∈ rest, isNew line = false) :
    rebuild pending gone plain finish (settle plain finish isNew updated) index rest =
      settle plain finish isNew (updated ++ weave pending gone index rest) := by
  induction rest generalizing updated index with
  | nil => rw [rebuild, weave, settle_append_new (new index)]
  | cons line rest ih =>
    rw [rebuild, weave]
    rw [← settle_append_new (new index)]
    have kept := old line List.mem_cons_self
    have others : ∀ line ∈ rest, isNew line = false := fun line member =>
      old line (List.mem_cons_of_mem _ member)
    split
    · rw [ih others, List.append_nil, List.append_assoc]
    · rw [← settle_append_old kept, ih others]
      rw [List.append_assoc, List.append_assoc, List.append_assoc]

theorem withPending_map {Other : Type*} {f : Line → Other} {plainOther : Other → Bool}
    {finishOther : Other → Other} (looks : ∀ line, plainOther (f line) = plain line)
    (finished : ∀ line, f (finish line) = finishOther (f line)) (updated inserted : List Line) :
    (withPending plain finish updated inserted).map f =
      withPending plainOther finishOther (updated.map f) (inserted.map f) := by
  cases inserted with
  | nil => cases updated.getLast? <;> simp [withPending]
  | cons next inserted =>
    unfold withPending
    rw [List.getLast?_map]
    cases updated.getLast? with
    | none => simp
    | some last =>
      simp only [List.map_cons, Option.map_some, looks]
      split
      · rw [List.map_append, List.map_cons]
      · rw [List.map_append, List.map_cons, List.map_dropLast, finished, List.map_cons]

/-- The loop looks at nothing but what `plain` and `finish` look at. -/
theorem rebuild_map {Other : Type*} {f : Line → Other} {plainOther : Other → Bool}
    {finishOther : Other → Other} (looks : ∀ line, plainOther (f line) = plain line)
    (finished : ∀ line, f (finish line) = finishOther (f line)) (updated : List Line) (index : Nat)
    (rest : List Line) :
    (rebuild pending gone plain finish updated index rest).map f =
      rebuild (fun index => (pending index).map f) gone plainOther finishOther (updated.map f) index
        (rest.map f) := by
  induction rest generalizing updated index with
  | nil => exact withPending_map looks finished updated (pending index)
  | cons line rest ih =>
    rw [List.map_cons, rebuild, rebuild, ih, ← withPending_map looks finished]
    split
    · rfl
    · rw [List.map_append]
      rfl

/-! ## What the woven lines say -/

/-- An ascending list splits at a key. -/
theorem filter_le_eq {κ : Type*} {entries : List κ} {key : κ → Nat}
    (ascending : entries.Pairwise fun a b => key a ≤ key b) (least : Nat) :
    entries.filter (fun a => least ≤ key a) =
      entries.filter (fun a => key a = least) ++ entries.filter (fun a => least + 1 ≤ key a) := by
  induction entries with
  | nil => rfl
  | cons first entries ih =>
    rw [List.pairwise_cons] at ascending
    have tail := ih ascending.2
    rcases Nat.lt_trichotomy (key first) least with below | here | above
    · rw [List.filter_cons_of_neg (by rw [decide_eq_true_eq]; omega),
        List.filter_cons_of_neg (by rw [decide_eq_true_eq]; omega),
        List.filter_cons_of_neg (by rw [decide_eq_true_eq]; omega)]
      exact tail
    · rw [List.filter_cons_of_pos (by rw [decide_eq_true_eq]; omega),
        List.filter_cons_of_pos (by rw [decide_eq_true_eq]; omega),
        List.filter_cons_of_neg (by rw [decide_eq_true_eq]; omega), tail, List.cons_append]
    · have none_here : entries.filter (fun a => key a = least) = [] := by
        rw [List.filter_eq_nil_iff]
        intro other member same
        have later := ascending.1 other member
        have equal : key other = least := by simpa using same
        omega
      rw [none_here, List.nil_append] at tail
      rw [List.filter_cons_of_pos (by rw [decide_eq_true_eq]; omega),
        List.filter_cons_of_neg (by rw [decide_eq_true_eq]; omega),
        List.filter_cons_of_pos (by rw [decide_eq_true_eq]; omega), none_here, tail,
        List.nil_append]

/-- The woven lines say `entries`, if those ascend by a key that puts the entries pending
at an index at twice the index and the entry of the kept line there right behind. -/
theorem filterMap_weave {κ : Type*} {entry : Line → Option κ} {entries : List κ} {key : κ → Nat}
    (ascending : entries.Pairwise fun a b => key a ≤ key b) {rest : List Line} {index : Nat}
    (bounded : ∀ a ∈ entries, key a ≤ 2 * (index + rest.length))
    (inserted : ∀ at_, index ≤ at_ → at_ ≤ index + rest.length →
      (pending at_).filterMap entry = entries.filter fun a => key a = 2 * at_)
    (kept : ∀ offset line, rest[offset]? = some line →
      (if gone (index + offset) then [] else (entry line).toList) =
        entries.filter fun a => key a = 2 * (index + offset) + 1) :
    (weave pending gone index rest).filterMap entry = entries.filter fun a => 2 * index ≤ key a := by
  induction rest generalizing index with
  | nil =>
    rw [weave, inserted index (Nat.le_refl _) (Nat.le_add_right _ _)]
    apply List.filter_congr
    intro a member
    have most := bounded a member
    rw [List.length_nil, Nat.add_zero] at most
    exact decide_eq_decide.mpr ⟨fun equal => by omega, fun least => by omega⟩
  | cons line rest ih =>
    have here := kept 0 line rfl
    rw [Nat.add_zero] at here
    rw [weave, List.filterMap_append, List.filterMap_append,
      inserted index (Nat.le_refl _) (Nat.le_add_right _ _),
      @ih (index + 1) ?_ ?_ ?_, filter_le_eq ascending (2 * index),
      filter_le_eq ascending (2 * index + 1), ← here, List.append_assoc]
    · congr 2
      split <;> simp [List.filterMap_cons]
      cases entry line <;> rfl
    · intro a member
      have most := bounded a member
      rw [List.length_cons] at most
      omega
    · intro at_ least most
      exact inserted at_ (by omega) (by rw [List.length_cons]; omega)
    · intro offset other found
      rw [show index + 1 + offset = index + (offset + 1) by omega]
      exact kept (offset + 1) other found

end Weave

end AxiomEncode.Theory
