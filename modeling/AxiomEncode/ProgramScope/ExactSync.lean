/-
# ProgramScope.ExactSync -- when the update is the edit that was asked for

`IsExactEdit` says that a text is the old one without the lines of the removed entries and
with one line for each new entry, and that its entry lines hold the desired list in order.

The code finishes the line in front of an inserted one unless that ends in LF or CR; but
`splitlines` and YAML also end lines elsewhere.  So an entry behind such a line costs it its
bytes, and **the update is exact just if no new entry belongs directly behind one**
(`sync_exact_iff`).
-/
import AxiomEncode.ProgramScope.SyncSpec
import Mathlib.Data.List.Nodup

namespace AxiomEncode.ProgramScope

open Theory

set_option autoImplicit false

section Exact

variable (text : Text) (target : SequenceNode) (existing add remove : List Text)

/-- The line break of the scope's first line. -/
def newlineOf : Text :=
  if (keptLines text)[target.startMark.line]?.any endsWithCrLf then "\r\n".toList else "\n".toList

/-- The line at an index holds a removed entry. -/
def removedAt (index : Nat) : Bool :=
  (itemLines target existing).any fun entry => entry.2 = index && entry.1 ∈ remove

/-- The lines of the old text with the entries that PyYAML reports on them. -/
def oldLines : List (EditLine Text) :=
  (keptLines text).zipIdx.map fun (line, index) =>
    { text := line
      entry := ((itemLines target existing).find? (·.2 = index)).map Prod.fst
      isNew := false }

/-- The line of a new entry. -/
def newLine (value : Text) : EditLine Text :=
  { text := entryLine (spaces target.startMark.column) (newlineOf text target) value
    entry := some value
    isNew := true }

/-- `updated` is the old text without the lines of the removed entries, with one line for
each new entry; its entry lines hold `desired`. -/
def IsExactEdit (desired : List Text) (updated : Text) : Prop :=
  ∃ written : List (EditLine Text),
    Edited (newlineOf text target) (removedAt target existing remove) 0
      (oldLines text target existing)
      ((desired.filter (· ∉ existing)).map (newLine text target)) written ∧
    (∀ value ∈ desired, value ∉ existing →
      splitlines (newLine text target value).text =
        [entryLine (spaces target.startMark.column) [] value]) ∧
    updated = linesText written ∧
    written.filterMap EditLine.entry = desired

/-- The line that a new entry would follow, past dropped lines, ends in LF or CR; or it is
the last one and ends in no line break at all. -/
def Suits (value : Text) : Prop :=
  ∀ place, Place text target existing remove value place →
    ∀ index line, (keptLines text)[index]? = some line → index < place →
      removedAt target existing remove index = false →
      (∀ between, index < between → between < place →
        removedAt target existing remove between = true) →
      looksFinished line = true ∨ Terminated line = false

end Exact

section Order

variable {text : Text} {target : SequenceNode} {existing add remove desired : List Text}
  {value : Text} {first : Nat}

/-- The line of an entry. -/
def lineOf (target : SequenceNode) (existing : List Text) (value : Text) : Nat :=
  ((itemLines target existing).find? (·.1 = value)).elim 0 Prod.snd

theorem lineOf_eq (scope : IsBlockScope text target existing) {line : Nat}
    (member : (value, line) ∈ itemLines target existing) : lineOf target existing value = line := by
  rw [lineOf]
  cases found : (itemLines target existing).find? (·.1 = value) with
  | none =>
    rw [List.find?_eq_none] at found
    exact absurd (found _ member) (by simp)
  | some entry =>
    have same : entry.1 = value := by simpa using List.find?_some found
    have inside : (value, entry.2) ∈ itemLines target existing := by
      rw [← same]
      exact List.mem_of_find?_eq_some found
    exact scope.line_unique inside member

variable (text target existing desired first) in
/-- The anchor that the code gives a new entry. -/
abbrev anchor (value : Text) : Nat :=
  anchorOf (keptLines text) existing (keptItems target existing desired) first value

variable (text target existing desired first) in
/-- Where an entry stands among the written lines: new ones before the line of their
anchor, the others on their own. -/
def key (value : Text) : Nat :=
  if value ∈ existing then 2 * lineOf target existing value + 1
  else 2 * anchor text target existing desired first value

theorem key_new (fresh : value ∉ existing) : key text target existing desired first value =
    2 * anchor text target existing desired first value := if_neg fresh

theorem key_old (scope : IsBlockScope text target existing) {line : Nat}
    (member : (value, line) ∈ itemLines target existing) :
    key text target existing desired first value = 2 * line + 1 := by
  rw [key, if_pos (scope.mem_existing member), lineOf_eq scope member]

theorem kept_iff (asked : IsDesired existing add remove desired)
    (disjoint : ∀ item ∈ add, item ∉ remove) :
    ∀ item ∈ existing, item ∈ desired ↔ item ∉ remove := by
  intro item member
  rw [asked.mem]
  constructor
  · rintro (⟨-, stays⟩ | added)
    · exact stays
    · exact disjoint item added
  · intro stays
    exact Or.inl ⟨member, stays⟩

/-- A desired entry is a survivor with its line, or new. -/
theorem survives_or_new (scope : IsBlockScope text target existing)
    (asked : IsDesired existing add remove desired) (disjoint : ∀ item ∈ add, item ∉ remove)
    (member : value ∈ desired) :
    (∃ line, Survives target existing remove value line ∧
        key text target existing desired first value = 2 * line + 1) ∨
      (value ∉ existing ∧ key text target existing desired first value =
        2 * anchor text target existing desired first value) := by
  by_cases old : value ∈ existing
  · obtain ⟨line, entry⟩ := scope.exists_line old
    exact Or.inl ⟨line, ⟨entry, (kept_iff asked disjoint value old).mp member⟩, key_old scope entry⟩
  · exact Or.inr ⟨old, key_new old⟩

theorem survivorsOf_eq (scope : IsBlockScope text target existing) :
    survivorsOf existing remove =
      ((itemLines target existing).filter fun entry => entry.1 ∉ remove).map Prod.fst := by
  have whole : ((itemLines target existing).map Prod.fst).filter (fun item => item ∉ remove) =
      ((itemLines target existing).filter fun entry => entry.1 ∉ remove).map Prod.fst :=
    List.filter_map
  rw [← whole, scope.map_fst]

/-- The desired list ascends by the place of its entries. -/
theorem ascending_key (scope : IsBlockScope text target existing)
    (asked : IsDesired existing add remove desired) (disjoint : ∀ item ∈ add, item ∉ remove)
    (start : ((itemLines target existing).map Prod.snd).min? = some first) :
    desired.Pairwise fun a b => key text target existing desired first a ≤
      key text target existing desired first b := by
  have belongs : ∀ value, Place text target existing remove value
      (anchor text target existing desired first value) := fun value =>
    (place_iff scope (kept_iff asked disjoint) start).mpr rfl
  by_cases sorted : existing.Pairwise (· ≤ ·)
  · have strict : desired.Pairwise (· < ·) :=
      ((asked.sorted sorted).and asked.nodup).imp fun both => lt_of_le_of_ne both.1 both.2
    refine strict.imp_of_mem fun {a b} memberA memberB less => ?_
    rcases @survives_or_new _ _ _ _ _ _ _ first scope asked disjoint memberA with
      ⟨line, survives, keyA⟩ | ⟨-, keyA⟩
    · rcases @survives_or_new _ _ _ _ _ _ _ first scope asked disjoint memberB with
        ⟨last, otherSurvives, keyB⟩ | ⟨-, keyB⟩
      · have below := scope.lt_line sorted survives.1 otherSurvives.1 less
        rw [keyA, keyB]
        omega
      · have below := (belongs b).lt_of_lt scope sorted survives less
        rw [keyA, keyB]
        omega
    · rcases @survives_or_new _ _ _ _ _ _ _ first scope asked disjoint memberB with
        ⟨last, otherSurvives, keyB⟩ | ⟨-, keyB⟩
      · have below := (belongs a).le_of_lt scope sorted otherSurvives less
        rw [keyA, keyB]
        omega
      · have below := (belongs a).mono scope sorted (belongs b) less
        rw [keyA, keyB]
        omega
  · obtain ⟨rest, whole, fresh⟩ := asked.appended sorted
    have newKey : ∀ value ∈ rest, key text target existing desired first value =
        2 * anchor text target existing desired first value :=
      fun value member => key_new (fresh value member)
    have ordered : (survivorsOf existing remove ++ rest).Pairwise fun a b =>
        key text target existing desired first a ≤ key text target existing desired first b := by
      rw [List.pairwise_append]
      refine ⟨?_, List.pairwise_of_forall_mem_list fun a memberA b memberB => ?_,
        fun a memberA b memberB => ?_⟩
      · rw [survivorsOf_eq scope, List.pairwise_map]
        refine (scope.pairwise_items.filter _).imp_of_mem fun {a b} memberA memberB below => ?_
        rw [key_old scope (List.mem_of_mem_filter memberA),
          key_old scope (List.mem_of_mem_filter memberB)]
        omega
      · rw [newKey a memberA, newKey b memberB,
          (belongs a).eq_of_unsorted scope sorted (belongs b)]
      · obtain ⟨member, stays⟩ := mem_survivorsOf.mp memberA
        obtain ⟨line, entry⟩ := scope.exists_line member
        have below := (belongs b).lt_of_unsorted scope sorted ⟨entry, stays⟩
        rw [key_old scope entry, newKey b memberB]
        omega
    rw [← whole] at ordered
    exact ordered

end Order

section Woven

variable {text : Text} {target : SequenceNode} {existing add remove desired : List Text}
  {value : Text} {first : Nat}

variable (text target existing desired first) in
/-- The lines of the new entries with a given anchor. -/
abbrev pendingLines (index : Nat) : List (EditLine Text) :=
  ((desired.filter (· ∉ existing)).filter fun value =>
    anchor text target existing desired first value = index).map (newLine text target)

theorem newlineOf_eq : newlineOf text target = "\n".toList ∨ newlineOf text target = "\r\n".toList := by
  rw [newlineOf]
  split
  · exact Or.inr rfl
  · exact Or.inl rfl

theorem plain_newLine : (newLine text target value).plain = true := by
  rcases @newlineOf_eq text target with short | long
  · rw [EditLine.plain, newLine, entryLine, short, List.getLast?_append_of_ne_nil _ (by decide)]
    rfl
  · rw [EditLine.plain, newLine, entryLine, long, List.getLast?_append_of_ne_nil _ (by decide)]
    rfl

theorem pendingLines_new : ∀ index, ∀ line ∈ pendingLines text target existing desired first index,
    line.isNew = true ∧ line.plain = true := by
  intro index line member
  obtain ⟨value, -, rfl⟩ := List.mem_map.mp member
  exact ⟨rfl, plain_newLine⟩

theorem oldLines_old : ∀ line ∈ oldLines text target existing, line.isNew = false := by
  intro line member
  obtain ⟨entry, -, rfl⟩ := List.mem_map.mp member
  rfl

theorem map_text_oldLines : (oldLines text target existing).map EditLine.text = keptLines text := by
  rw [oldLines, List.map_map]
  exact List.zipIdx_map_fst 0 (keptLines text)

theorem length_oldLines : (oldLines text target existing).length = (keptLines text).length := by
  rw [← @map_text_oldLines _ target existing, List.length_map]

variable {line : EditLine Text} {index : Nat}

theorem getElem?_oldLines (found : (oldLines text target existing)[index]? = some line) :
    (keptLines text)[index]? = some line.text ∧
      line.entry = ((itemLines target existing).find? (·.2 = index)).map Prod.fst := by
  rw [oldLines, List.getElem?_map] at found
  obtain ⟨⟨content, position⟩, inside, rfl⟩ := Option.map_eq_some_iff.mp found
  rw [List.getElem?_zipIdx] at inside
  obtain ⟨whole, here, same⟩ := Option.map_eq_some_iff.mp inside
  obtain ⟨rfl, rfl⟩ := Prod.mk.inj same
  refine ⟨here, ?_⟩
  simp

theorem filter_eq_singleton {α : Type} [DecidableEq α] {xs : List α} {x : α} {keep : α → Bool}
    (distinct : xs.Nodup) (member : x ∈ xs) (only : ∀ y ∈ xs, keep y = true ↔ y = x) :
    xs.filter keep = [x] := by
  have same : xs.filter keep = xs.filter (· = x) :=
    List.filter_congr fun y inside => by
      rw [Bool.eq_iff_iff, only y inside, decide_eq_true_eq]
  rw [same, List.filter_eq, List.count_eq_one_of_mem distinct member]
  rfl

theorem exists_sampleLine (scope : IsBlockScope text target existing) :
    ∃ sampleLine, (keptLines text)[target.startMark.line]? = some sampleLine := by
  obtain ⟨node, head, same⟩ := Option.map_eq_some_iff.mp scope.starts
  obtain ⟨line, found, -⟩ := scope.lines node (List.mem_of_head? head)
  rw [same] at found
  exact ⟨line, found⟩

/-- The lines the code drops are those of the removed entries. -/
theorem contains_removedLines (scope : IsBlockScope text target existing)
    (kept : ∀ item ∈ existing, item ∈ desired ↔ item ∉ remove) (index : Nat) :
    (((itemLines target existing).filter fun entry => entry.1 ∉ desired).map Prod.snd).contains index =
      removedAt target existing remove index := by
  rw [Bool.eq_iff_iff, List.contains_iff_mem, removedAt, List.any_eq_true, List.mem_map]
  constructor
  · rintro ⟨entry, member, rfl⟩
    obtain ⟨inside, gone⟩ := List.mem_filter.mp member
    have removed : entry.1 ∈ remove := by
      by_contra stays
      exact of_decide_eq_true gone ((kept entry.1 (scope.mem_existing inside)).mpr stays)
    exact ⟨entry, inside, by simp [removed]⟩
  · rintro ⟨entry, inside, both⟩
    rw [Bool.and_eq_true, decide_eq_true_eq, decide_eq_true_eq] at both
    refine ⟨entry, List.mem_filter.mpr ⟨inside, decide_eq_true fun stays => ?_⟩, both.1⟩
    exact (kept entry.1 (scope.mem_existing inside)).mp stays both.2

variable (scope : IsBlockScope text target existing) (asked : IsDesired existing add remove desired)
  (disjoint : ∀ item ∈ add, item ∉ remove)

include scope asked disjoint

/-- What a line of the old text holds, once the removed lines are gone. -/
theorem kept_entry (found : (oldLines text target existing)[index]? = some line) :
    (if removedAt target existing remove index then [] else line.entry.toList) =
      desired.filter fun value => key text target existing desired first value = 2 * index + 1 := by
  have only : ∀ value ∈ desired,
      key text target existing desired first value = 2 * index + 1 →
        (value, index) ∈ itemLines target existing ∧ value ∉ remove := by
    intro value member here
    rcases @survives_or_new _ _ _ _ _ _ _ first scope asked disjoint member with
      ⟨line, survives, own⟩ | ⟨-, own⟩
    · obtain rfl : line = index := by omega
      exact survives
    · omega
  rw [(getElem?_oldLines found).2]
  cases entry : (itemLines target existing).find? (·.2 = index) with
  | none =>
    rw [List.find?_eq_none] at entry
    have empty : desired.filter (fun value =>
        key text target existing desired first value = 2 * index + 1) = [] := by
      rw [List.filter_eq_nil_iff]
      intro value member here
      exact entry _ (only value member (of_decide_eq_true here)).1 (by simp)
    rw [empty]
    split <;> rfl
  | some item =>
    have itsLine : item.2 = index := by simpa using List.find?_some entry
    have inside : (item.1, index) ∈ itemLines target existing := by
      rw [← itsLine]
      exact List.mem_of_find?_eq_some entry
    split
    next removed =>
      symm
      rw [List.filter_eq_nil_iff]
      intro value member here
      obtain ⟨same, stays⟩ := only value member (of_decide_eq_true here)
      obtain ⟨other, given, both⟩ := List.any_eq_true.mp removed
      simp only [Bool.and_eq_true, decide_eq_true_eq] at both
      have equal : other.1 = value := by
        refine scope.item_unique ?_ same
        rw [← both.1]
        exact given
      rw [equal] at both
      exact stays both.2
    next stays =>
      have survives : item.1 ∉ remove := by
        intro removed
        apply stays
        exact List.any_eq_true.mpr ⟨item, List.mem_of_find?_eq_some entry, by simp [itsLine, removed]⟩
      symm
      apply filter_eq_singleton asked.nodup
      · exact (asked.mem item.1).mpr (Or.inl ⟨scope.mem_existing inside, survives⟩)
      · intro value member
        rw [decide_eq_true_eq]
        constructor
        · intro here
          exact scope.item_unique (only value member here).1 inside
        · rintro rfl
          exact key_old scope inside

theorem anchor_le
    (start : ((itemLines target existing).map Prod.snd).min? = some first) (value : Text) :
    anchor text target existing desired first value ≤ (keptLines text).length :=
  Place.le_length scope ((place_iff scope (kept_iff asked disjoint) start).mpr rfl)

/-- The written lines hold the desired list in its order. -/
theorem entries_woven (start : ((itemLines target existing).map Prod.snd).min? = some first) :
    (weave (pendingLines text target existing desired first) (removedAt target existing remove) 0
      (oldLines text target existing)).filterMap EditLine.entry = desired := by
  have all : desired.filter (fun value =>
      2 * 0 ≤ key text target existing desired first value) = desired := by
    rw [List.filter_eq_self]
    intro value _
    exact decide_eq_true (Nat.zero_le _)
  have woven := @filterMap_weave _ (pendingLines text target existing desired first)
    (removedAt target existing remove) _ EditLine.entry _ _
    (ascending_key scope asked disjoint start) (oldLines text target existing) 0 ?_ ?_ ?_
  · rw [woven, all]
  · intro value member
    rw [Nat.zero_add, length_oldLines]
    rcases @survives_or_new _ _ _ _ _ _ _ first scope asked disjoint member with
      ⟨line, survives, own⟩ | ⟨-, own⟩
    · have inside := (scope.visible survives.1).1
      omega
    · have most := anchor_le scope asked disjoint start value
      omega
  · intro index _ _
    rw [List.filterMap_map, List.filter_filter]
    have entries : (EditLine.entry ∘ newLine text target) = some := rfl
    rw [entries, List.filterMap_some]
    apply List.filter_congr
    intro value member
    rw [Bool.eq_iff_iff, Bool.and_eq_true, decide_eq_true_eq, decide_eq_true_eq, decide_eq_true_eq]
    rcases @survives_or_new _ _ _ _ _ _ _ first scope asked disjoint member with
      ⟨line, survives, own⟩ | ⟨fresh, own⟩
    · rw [own]
      constructor
      · rintro ⟨-, fresh⟩
        exact absurd (scope.mem_existing survives.1) fresh
      · omega
    · rw [own]
      constructor
      · rintro ⟨same, -⟩
        omega
      · intro same
        exact ⟨by omega, fresh⟩
  · intro index line found
    rw [Nat.zero_add]
    exact kept_entry scope asked disjoint found

/-- The pending lines are those of the new entries. -/
theorem allPending_pendingLines
    (start : ((itemLines target existing).map Prod.snd).min? = some first) :
    allPending (pendingLines text target existing desired first) 0
        (oldLines text target existing).length =
      (desired.filter (· ∉ existing)).map (newLine text target) := by
  have ascending : (desired.filter (· ∉ existing)).Pairwise fun a b =>
      anchor text target existing desired first a ≤ anchor text target existing desired first b := by
    refine ((ascending_key scope asked disjoint start).filter _).imp_of_mem
      fun {a b} memberA memberB below => ?_
    rw [key_new (of_decide_eq_true (List.mem_filter.mp memberA).2),
      key_new (of_decide_eq_true (List.mem_filter.mp memberB).2)] at below
    omega
  have whole := @allPending_filter _ _ _ _ (newLine text target) ascending 0
    (oldLines text target existing).length fun value _ => by
      rw [Nat.zero_add, length_oldLines]
      exact anchor_le scope asked disjoint start value
  rw [whole]
  congr 1
  rw [List.filter_eq_self]
  intro value _
  exact decide_eq_true (Nat.zero_le _)

/-- The lines of the code are the settled ones. -/
theorem updatedLines_eq (nonempty : desired ≠ []) :
    updatedLines (keptLines text) existing (itemLines target existing) first
        (spaces target.startMark.column) (newlineOf text target) desired =
      (settled (newlineOf text target) (weave (pendingLines text target existing desired first)
        (removedAt target existing remove) 0 (oldLines text target existing))).map EditLine.text := by
  have loop := @rebuild_eq_settle _ _ (removedAt target existing remove) _
    (EditLine.finish (newlineOf text target)) _ (@pendingLines_new text target existing desired first)
    [] _ 0 (@oldLines_old text target existing)
  have removed : (fun index => (((itemLines target existing).filter fun entry =>
      entry.1 ∉ desired).map Prod.snd).contains index) = removedAt target existing remove :=
    funext (contains_removedLines scope (kept_iff asked disjoint))
  rw [List.nil_append] at loop
  rw [settled, ← loop, @rebuild_map _ _ _ EditLine.plain _ _ EditLine.text looksFinished
    (fun line => line ++ newlineOf text target) (fun _ => rfl) (fun _ => rfl), map_text_oldLines, updatedLines]
  simp only [if_neg nonempty, removed]
  congr 1
  funext index
  rw [List.map_map]
  rfl

/-- The code writes the settled lines. -/
theorem updatedScopeText_eq
    (nonempty : desired ≠ []) (start : ((itemLines target existing).map Prod.snd).min? = some first) :
    updatedScopeText text target existing desired =
      .ok (linesText (settled (newlineOf text target)
        (weave (pendingLines text target existing desired first)
          (removedAt target existing remove) 0 (oldLines text target existing)))) := by
  obtain ⟨sampleLine, found⟩ := exists_sampleLine scope
  have newline : (if endsWithCrLf sampleLine = true then "\r\n".toList else "\n".toList) =
      newlineOf text target := by
    rw [newlineOf, found]
    rfl
  have single : (target.value.take existing.length).any (fun node =>
      node.startMark.line ≠ node.endMark.line) = false := by
    rw [List.any_eq_false]
    intro node member differs
    exact of_decide_eq_true differs (scope.oneLine node (List.mem_of_mem_take member))
  have items : existing.zip (target.value.map fun node => node.startMark.line) =
      itemLines target existing := rfl
  rw [updatedScopeText, found]
  simp only [newline, scope.block, Bool.false_eq_true, if_false]
  rw [single, if_neg Bool.false_ne_true, if_neg (not_not.mpr scope.paired)]
  simp only [items, start]
  rw [updatedLines_eq scope asked disjoint nonempty, linesText, List.flatMap_def]

end Woven

section Condition

variable {text : Text} {target : SequenceNode} {existing add remove desired : List Text}
  {value : Text} {first : Nat}

theorem unbroken_spaces (count : Nat) : Unbroken (spaces count) := by
  intro c member
  rw [List.eq_of_mem_replicate member]
  decide

theorem unbroken_append {first second : Text} (left : Unbroken first) (right : Unbroken second) :
    Unbroken (first ++ second) := by
  intro c member
  rcases List.mem_append.mp member with inside | inside
  · exact left c inside
  · exact right c inside

/-- The line of a new entry is one line just if its path has no line break. -/
theorem splitlines_newLine_iff :
    splitlines (newLine text target value).text =
      [entryLine (spaces target.startMark.column) [] value] ↔ Unbroken value := by
  have indent : Unbroken (spaces target.startMark.column ++ "- ".toList) :=
    unbroken_append (unbroken_spaces _) (by decide)
  have whole : entryLine (spaces target.startMark.column) [] value =
      spaces target.startMark.column ++ "- ".toList ++ value := by
    rw [entryLine, List.append_nil]
  rw [whole]
  constructor
  · intro single
    by_contra broken
    obtain ⟨before, c, rest, rfl, unbroken, ends⟩ := exists_first_break broken
    obtain ⟨more, split⟩ := @exists_splitlines_break _ (rest ++ newlineOf text target) _
      (unbroken_append indent unbroken) ends
    have same : (newLine text target (before ++ c :: rest)).text =
        spaces target.startMark.column ++ "- ".toList ++ before ++
          c :: (rest ++ newlineOf text target) := by
      simp [newLine, entryLine]
    rw [same, split] at single
    have lengths := congrArg List.length (List.cons.inj single).1
    simp at lengths
  · intro unbroken
    have body := unbroken_append indent unbroken
    show splitlines (spaces target.startMark.column ++ "- ".toList ++ value ++ newlineOf text target) = _
    rcases @newlineOf_eq text target with short | long
    · rw [short]
      exact splitlines_break body (by decide) (Or.inl (by decide))
    · rw [long]
      exact splitlines_crlf body

/-- No line offends if every new entry suits its place. -/
theorem isChain_iff_suits (scope : IsBlockScope text target existing)
    (asked : IsDesired existing add remove desired) (disjoint : ∀ item ∈ add, item ∉ remove)
    (start : ((itemLines target existing).map Prod.snd).min? = some first) :
    (weave (pendingLines text target existing desired first) (removedAt target existing remove) 0
      (oldLines text target existing)).IsChain Follows ↔
      ∀ value ∈ add, value ∉ existing → Suits text target existing remove value := by
  have belongs := fun value place =>
    @place_iff _ _ _ _ _ value place _ scope (kept_iff asked disjoint) start
  rw [isChain_weave_iff pendingLines_new oldLines_old]
  constructor
  · intro admits value given fresh place here index line found before kept between
    obtain rfl := (belongs value place).mp here
    have waiting : newLine text target value ∈ pendingLines text target existing desired first
        (anchor text target existing desired first value) := by
      refine List.mem_map_of_mem (List.mem_filter.mpr ⟨List.mem_filter.mpr ⟨?_, ?_⟩, ?_⟩)
      · exact (asked.mem value).mpr (Or.inr given)
      · exact decide_eq_true fresh
      · exact decide_eq_true rfl
    rw [← @map_text_oldLines _ target existing, List.getElem?_map] at found
    obtain ⟨old, inside, rfl⟩ := Option.map_eq_some_iff.mp found
    refine admits _ ?_ (List.ne_nil_of_mem waiting) index old inside ?_ ?_ ?_
    · rw [Nat.zero_add, length_oldLines]
      exact anchor_le scope asked disjoint start value
    · rwa [Nat.zero_add]
    · rwa [Nat.zero_add]
    · rwa [Nat.zero_add]
  · intro suits place most some_line index line found before kept between
    rw [Nat.zero_add] at before kept between
    obtain ⟨waiting, member⟩ := List.exists_mem_of_ne_nil _ some_line
    obtain ⟨value, inside, -⟩ := List.mem_map.mp member
    obtain ⟨new, here⟩ := List.mem_filter.mp inside
    obtain ⟨wanted, fresh⟩ := List.mem_filter.mp new
    have outside : value ∉ existing := of_decide_eq_true fresh
    have given : value ∈ add := by
      rcases (asked.mem value).mp wanted with ⟨old, -⟩ | added
      · exact absurd old outside
      · exact added
    have own : place = anchor text target existing desired first value :=
      (of_decide_eq_true here).symm
    exact suits value given outside place ((belongs value place).mpr own) index line.text
      (getElem?_oldLines found).1 before kept between

theorem newline_ne_nil : newlineOf text target ≠ [] := by
  rcases @newlineOf_eq text target with short | long
  · rw [short]
    decide
  · rw [long]
    decide

theorem exists_first_line (scope : IsBlockScope text target existing) :
    ∃ first, ((itemLines target existing).map Prod.snd).min? = some first := by
  apply Option.ne_none_iff_exists'.mp
  rw [ne_eq, List.min?_eq_none_iff, List.map_eq_nil_iff]
  intro empty
  have none_left := scope.map_fst
  rw [empty] at none_left
  exact scope.nonempty none_left.symm

end Condition

section Sync

variable {text updated : Text} {target : SequenceNode} {existing add remove desired : List Text}

/-- An exact update puts every new entry where it suits. -/
theorem suits_of_isExactEdit (scope : IsBlockScope text target existing)
    (disjoint : ∀ item ∈ add, item ∉ remove) (asked : IsDesired existing add remove desired)
    (nonempty : desired ≠ [])
    (wrote : updatedScopeText text target existing desired = .ok updated)
    (exact_ : IsExactEdit text target existing remove desired updated) :
    ∀ value ∈ add, value ∉ existing → Unbroken value ∧ Suits text target existing remove value := by
  obtain ⟨lines, edited, single, whole, -⟩ := exact_
  obtain ⟨first, start⟩ := exists_first_line scope
  have areLines : AreLines ((oldLines text target existing).map EditLine.text) := by
    rw [map_text_oldLines]
    exact keptLines_areLines text
  intro value given fresh
  have member := (asked.mem value).mpr (Or.inr given)
  refine ⟨splitlines_newLine_iff.mp (single value member fresh), ?_⟩
  by_contra unsuited
  have offending := mt (isChain_iff_suits scope asked disjoint start).mp fun suits =>
    unsuited (suits value given fresh)
  rw [← allPending_pendingLines scope asked disjoint start] at edited
  apply not_edited_settle newline_ne_nil pendingLines_new areLines offending edited
  rw [updatedScopeText_eq scope asked disjoint nonempty start] at wrote
  rw [← whole, Except.ok.inj wrote]

/-- Where every new entry suits its place, the update is exact. -/
theorem exists_isExactEdit (scope : IsBlockScope text target existing)
    (disjoint : ∀ item ∈ add, item ∉ remove) (asked : IsDesired existing add remove desired)
    (nonempty : desired ≠ [])
    (suited : ∀ value ∈ add, value ∉ existing →
      Unbroken value ∧ Suits text target existing remove value) :
    ∃ updated, updatedScopeText text target existing desired = .ok updated ∧
      IsExactEdit text target existing remove desired updated := by
  obtain ⟨first, start⟩ := exists_first_line scope
  have areLines : AreLines ((oldLines text target existing).map EditLine.text) := by
    rw [map_text_oldLines]
    exact keptLines_areLines text
  have follows := (isChain_iff_suits scope asked disjoint start).mpr fun value given fresh =>
    (suited value given fresh).2
  have edited := @edited_settle _ (newlineOf text target) _ _ pendingLines_new _ _ oldLines_old
    areLines follows
  rw [allPending_pendingLines scope asked disjoint start] at edited
  refine ⟨_, updatedScopeText_eq scope asked disjoint nonempty start, _, edited,
    fun value member fresh => ?_, rfl, ?_⟩
  · apply splitlines_newLine_iff.mpr
    rcases (asked.mem value).mp member with ⟨old, -⟩ | given
    · exact absurd old fresh
    · exact (suited value given fresh).1
  · rw [filterMap_entry_settled]
    exact entries_woven scope asked disjoint start

/-- The update of one scope does exactly what was asked for, and doing it again nothing. -/
def SyncsExactly (name text : Text) (target : SequenceNode) (existing add remove : List Text) : Prop :=
  ∃ sync updated, syncedScope name existing add remove = .ok sync ∧
    updatedScopeText text target existing sync.desired = .ok updated ∧
    IsDesired existing add remove sync.desired ∧
    IsExactEdit text target existing remove sync.desired updated ∧
    ∃ again, syncedScope name sync.desired add remove = .ok again ∧
      again.desired = sync.desired ∧ again.changed = false

/-- What the code desires of a scope with distinct entries. -/
theorem exists_desired (name : Text) (distinct : existing.Nodup)
    (disjoint : ∀ item ∈ add, item ∉ remove)
    (leaves : ∃ value, (value ∈ existing ∧ value ∉ remove) ∨ value ∈ add) :
    ∃ sync, syncedScope name existing add remove = .ok sync ∧
      IsDesired existing add remove sync.desired ∧ sync.desired ≠ [] := by
  obtain ⟨sync, done, list, -⟩ := exists_syncedScope name distinct disjoint
  have asked : IsDesired existing add remove sync.desired := by
    rw [list]
    exact isDesired_addItems distinct disjoint
  obtain ⟨wanted, inside⟩ := leaves
  exact ⟨sync, done, asked, List.ne_nil_of_mem ((asked.mem wanted).mpr inside)⟩

theorem suits_of_syncsExactly {name : Text} (scope : IsBlockScope text target existing)
    (disjoint : ∀ item ∈ add, item ∉ remove)
    (leaves : ∃ value, (value ∈ existing ∧ value ∉ remove) ∨ value ∈ add)
    (exact_ : SyncsExactly name text target existing add remove) :
    ∀ value ∈ add, value ∉ existing → Unbroken value ∧ Suits text target existing remove value := by
  obtain ⟨sync, updated, done, wrote, asked, edit, -⟩ := exact_
  obtain ⟨other, otherDone, -, nonempty⟩ := exists_desired name scope.distinct disjoint leaves
  obtain rfl : sync = other := by
    rw [done] at otherDone
    exact Except.ok.inj otherDone
  exact suits_of_isExactEdit scope disjoint asked nonempty wrote edit

/-- **The update is the edit that was asked for just if the path of every new entry has no
line break and suits its place.** -/
theorem syncsExactly_iff (name : Text) (scope : IsBlockScope text target existing)
    (disjoint : ∀ item ∈ add, item ∉ remove)
    (leaves : ∃ value, (value ∈ existing ∧ value ∉ remove) ∨ value ∈ add) :
    SyncsExactly name text target existing add remove ↔
      ∀ value ∈ add, value ∉ existing →
        Unbroken value ∧ Suits text target existing remove value := by
  constructor
  · exact suits_of_syncsExactly scope disjoint leaves
  · intro suited
    obtain ⟨sync, done, asked, nonempty⟩ := exists_desired name scope.distinct disjoint leaves
    obtain ⟨updated, wrote, edit⟩ := exists_isExactEdit scope disjoint asked nonempty suited
    exact ⟨sync, updated, done, wrote, asked, edit, syncedScope_again name asked disjoint⟩

/-- The entries of a scope in lines of two spaces. -/
def sequenceAt (lines : List Nat) (start : Mark) : SequenceNode where
  startMark := start
  endMark := start
  flowStyle := false
  value := lines.map fun line => { startMark := ⟨0, line, 4⟩, endMark := ⟨0, line, 5⟩ }

/-- An entry put between two others, above the comment of the second. -/
theorem syncsExactly_sorted :
    SyncsExactly "federal".toList "scope:\n  federal:\n  - a\n  # of c\n  - c\n".toList
        (sequenceAt [2, 4] ⟨20, 2, 2⟩) ["a".toList, "c".toList] ["b".toList] [] ↔
      ∀ value ∈ ["b".toList], value ∉ ["a".toList, "c".toList] →
        Unbroken value ∧ Suits "scope:\n  federal:\n  - a\n  # of c\n  - c\n".toList
          (sequenceAt [2, 4] ⟨20, 2, 2⟩) ["a".toList, "c".toList] [] value := by
  refine syncsExactly_iff _ ?_ (by decide) ⟨"a".toList, Or.inl (by decide)⟩
  refine ⟨rfl, by decide, by decide, rfl, by decide, by decide, rfl, ?_⟩
  intro node member
  rcases List.mem_cons.mp member with rfl | later
  · exact ⟨_, rfl, rfl⟩
  · rw [List.mem_singleton.mp later]
    exact ⟨_, rfl, rfl⟩

/-- A line that ends in NEL gets a second line break before the new entry. -/
theorem nextLine_is_extended :
    IsBlockScope "scope:\n  federal:\n  - a\u0085".toList (sequenceAt [2] ⟨20, 2, 2⟩)
        ["a".toList] ∧
      ¬ SyncsExactly "federal".toList "scope:\n  federal:\n  - a\u0085".toList
        (sequenceAt [2] ⟨20, 2, 2⟩) ["a".toList] ["b".toList] [] := by
  have scope : IsBlockScope "scope:\n  federal:\n  - a\u0085".toList (sequenceAt [2] ⟨20, 2, 2⟩)
      ["a".toList] := by
    refine ⟨rfl, by decide, by decide, rfl, by decide, by decide, rfl, ?_⟩
    intro node member
    rw [List.mem_singleton.mp member]
    exact ⟨_, rfl, rfl⟩
  refine ⟨scope, fun exact_ => ?_⟩
  have only : ∀ other last, Survives (sequenceAt [2] ⟨20, 2, 2⟩) ["a".toList] [] other last →
      other = "a".toList ∧ last = 2 := by
    rintro other last ⟨member, -⟩
    have same := List.mem_singleton.mp member
    exact ⟨congrArg Prod.fst same, congrArg Prod.snd same⟩
  have behind : Place "scope:\n  federal:\n  - a\u0085".toList (sequenceAt [2] ⟨20, 2, 2⟩)
      ["a".toList] [] "b".toList 3 := by
    refine @Place.behind _ _ _ _ _ "a".toList _ (fun _ other last survives => ?_)
      ⟨by decide, by decide⟩
      fun other last survives => (only other last survives).2.le
    rw [(only other last survives).1]
    decide
  have suited := (suits_of_syncsExactly scope (by decide) ⟨"a".toList, Or.inl (by decide)⟩ exact_
    "b".toList (by decide) (by decide)).2 3 behind 2 "  - a\u0085".toList (by decide) (by decide)
    (by decide) fun between above below => by omega
  exact absurd suited (by decide)

end Sync

end AxiomEncode.ProgramScope
