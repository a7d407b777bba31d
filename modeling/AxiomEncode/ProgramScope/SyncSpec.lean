/-
# ProgramScope.SyncSpec -- the text is edited where the list is

`IsBlockScope` is what PyYAML has to report: distinct entries, each on a line of its own.
`Place` says where the line of a new entry belongs, in terms of the old text alone.  The
anchors of the code are these places (`place_iff`), they ascend with the desired list
(`ascending_key`), so the written lines hold that list in its order (`entries_woven`).
-/
import AxiomEncode.ProgramScope.Desired
import AxiomEncode.Theory.ExactEdit

namespace AxiomEncode.ProgramScope

open Theory

set_option autoImplicit false

/-- PyYAML reports a block sequence of distinct entries, each on one line of its own. -/
structure IsBlockScope (text : Text) (target : SequenceNode) (existing : List Text) : Prop where
  block : target.flowStyle = false
  nonempty : existing ≠ []
  distinct : existing.Nodup
  paired : existing.length = target.value.length
  oneLine : ∀ node ∈ target.value, node.startMark.line = node.endMark.line
  ascending : (target.value.map fun node => node.startMark.line).Pairwise (· < ·)
  starts : target.value.head?.map (fun node => node.startMark.line) = some target.startMark.line
  /-- The line of an entry exists and is no comment. -/
  lines : ∀ node ∈ target.value, ∃ line, (keptLines text)[node.startMark.line]? = some line ∧
    isComment line = false

/-- The entries with their lines. -/
def itemLines (target : SequenceNode) (existing : List Text) : List (Text × Nat) :=
  existing.zip (target.value.map fun node => node.startMark.line)

/-! ## Comments -/

section Comments

variable {lines : List Text}

theorem aboveComments_le (anchor : Nat) : aboveComments lines anchor ≤ anchor := by
  induction anchor with
  | zero => exact Nat.le_refl 0
  | succ anchor ih =>
    rw [aboveComments]
    split
    · omega
    · exact Nat.le_refl _

/-- The hop stops below a line that is no comment. -/
theorem lt_aboveComments {anchor index : Nat} (below : index < anchor)
    (visible : lines[index]?.any isComment = false) : index < aboveComments lines anchor := by
  induction anchor with
  | zero => omega
  | succ anchor ih =>
    rw [aboveComments]
    split
    next comment =>
      refine ih (Nat.lt_of_le_of_ne (Nat.le_of_lt_succ below) ?_)
      rintro rfl
      rw [visible] at comment
      cases comment
    · exact below

theorem aboveComments_mono {first second : Nat} (order : first ≤ second) :
    aboveComments lines first ≤ aboveComments lines second := by
  induction second with
  | zero =>
    obtain rfl : first = 0 := Nat.le_zero.mp order
    exact Nat.le_refl _
  | succ second ih =>
    rcases Nat.eq_or_lt_of_le order with rfl | below
    · exact Nat.le_refl _
    · have least := @aboveComments_le lines first
      have later := ih (Nat.le_of_lt_succ below)
      rw [aboveComments]
      split
      · exact later
      · omega

/-- The anchor above a comment block, by what it passes and where it stops. -/
theorem eq_aboveComments_iff {anchor place : Nat} :
    place = aboveComments lines anchor ↔
      place ≤ anchor ∧ (∀ index, place ≤ index → index < anchor → lines[index]?.any isComment = true) ∧
        (place = 0 ∨ lines[place - 1]?.any isComment = false) := by
  induction anchor with
  | zero =>
    rw [aboveComments]
    constructor
    · rintro rfl
      exact ⟨Nat.le_refl _, fun index _ below => absurd below (Nat.not_lt_zero _), Or.inl rfl⟩
    · rintro ⟨least, -, -⟩
      exact Nat.le_zero.mp least
  | succ anchor ih =>
    rw [aboveComments]
    split
    next comment =>
      rw [ih]
      constructor
      · rintro ⟨below, passed, stops⟩
        refine ⟨by omega, fun index least most => ?_, stops⟩
        rcases Nat.eq_or_lt_of_le (Nat.le_of_lt_succ most) with rfl | inside
        · exact comment
        · exact passed index least inside
      · rintro ⟨below, passed, stops⟩
        refine ⟨?_, fun index least most => passed index least (by omega), stops⟩
        rcases stops with rfl | stops
        · omega
        · by_contra above
          obtain rfl : place = anchor + 1 := by omega
          rw [Nat.add_sub_cancel, comment] at stops
          cases stops
    next visible =>
      constructor
      · rintro rfl
        exact ⟨Nat.le_refl _, fun index least most => by omega,
          Or.inr (by simpa using visible)⟩
      · rintro ⟨below, passed, -⟩
        by_contra apart
        exact visible (passed anchor (by omega) (by omega))

end Comments

/-! ## Entries and their lines -/

section Items

theorem rel_or_of_pairwise {α : Type} {related : α → α → Prop} {xs : List α}
    (pairs : xs.Pairwise related) {a b : α} (first : a ∈ xs) (second : b ∈ xs) :
    a = b ∨ related a b ∨ related b a := by
  induction xs with
  | nil => cases first
  | cons x xs ih =>
    rw [List.pairwise_cons] at pairs
    rcases List.mem_cons.mp first with rfl | firstLater
    · rcases List.mem_cons.mp second with rfl | secondLater
      · exact Or.inl rfl
      · exact Or.inr (Or.inl (pairs.1 b secondLater))
    · rcases List.mem_cons.mp second with rfl | secondLater
      · exact Or.inr (Or.inr (pairs.1 a firstLater))
      · exact ih pairs.2 firstLater secondLater

variable {text : Text} {target : SequenceNode} {existing : List Text} {item : Text} {line : Nat}

namespace IsBlockScope

variable (scope : IsBlockScope text target existing)

include scope

theorem map_fst : (itemLines target existing).map Prod.fst = existing := by
  rw [itemLines, List.map_fst_zip]
  rw [List.length_map, scope.paired]

theorem map_snd : (itemLines target existing).map Prod.snd =
    target.value.map fun node => node.startMark.line := by
  rw [itemLines, List.map_snd_zip]
  rw [List.length_map, scope.paired]

theorem pairwise_items : (itemLines target existing).Pairwise fun a b => a.2 < b.2 := by
  rw [← List.pairwise_map, scope.map_snd]
  exact scope.ascending

theorem pairwise_ne : (itemLines target existing).Pairwise fun a b => a.1 ≠ b.1 := by
  rw [← List.pairwise_map (f := Prod.fst), scope.map_fst]
  exact scope.distinct

theorem mem_existing (member : (item, line) ∈ itemLines target existing) : item ∈ existing := by
  rw [← scope.map_fst]
  exact List.mem_map_of_mem member

theorem exists_line (member : item ∈ existing) : ∃ line, (item, line) ∈ itemLines target existing := by
  rw [← scope.map_fst] at member
  obtain ⟨⟨_, line⟩, inside, rfl⟩ := List.mem_map.mp member
  exact ⟨line, inside⟩

/-- The line of an entry is a line of the text, and no comment. -/
theorem visible (member : (item, line) ∈ itemLines target existing) :
    line < (keptLines text).length ∧ (keptLines text)[line]?.any isComment = false := by
  have inside : line ∈ target.value.map fun node => node.startMark.line := by
    rw [← scope.map_snd]
    exact List.mem_map_of_mem member
  obtain ⟨node, given, rfl⟩ := List.mem_map.mp inside
  obtain ⟨content, found, plain⟩ := scope.lines node given
  refine ⟨(List.getElem?_eq_some_iff.mp found).1, ?_⟩
  rw [found]
  exact plain

theorem line_unique {other : Nat} (first : (item, line) ∈ itemLines target existing)
    (second : (item, other) ∈ itemLines target existing) : line = other := by
  rcases rel_or_of_pairwise scope.pairwise_ne first second with same | apart | apart
  · exact congrArg Prod.snd same
  · exact absurd rfl apart
  · exact absurd rfl apart

theorem item_unique {other : Text} (first : (item, line) ∈ itemLines target existing)
    (second : (other, line) ∈ itemLines target existing) : item = other := by
  rcases rel_or_of_pairwise scope.pairwise_items first second with same | below | below
  · exact congrArg Prod.fst same
  · exact absurd below (lt_irrefl line)
  · exact absurd below (lt_irrefl line)

/-- In a sorted scope entries and lines ascend together. -/
theorem lt_line {other : Text} {last : Nat} (sorted : existing.Pairwise (· ≤ ·))
    (first : (item, line) ∈ itemLines target existing)
    (second : (other, last) ∈ itemLines target existing) (less : item < other) : line < last := by
  have ordered : (itemLines target existing).Pairwise fun a b => a.1 ≤ b.1 ∧ a.2 < b.2 := by
    refine List.Pairwise.and ?_ scope.pairwise_items
    rw [← List.pairwise_map (f := Prod.fst), scope.map_fst]
    exact sorted
  rcases rel_or_of_pairwise ordered first second with same | before | behind
  · have equal : item = other := congrArg Prod.fst same
    rw [equal] at less
    exact absurd less (lt_irrefl other)
  · exact before.2
  · exact absurd behind.1 (not_le.mpr less)

end IsBlockScope

end Items

/-! ## Places -/

section Places

variable (text : Text) (target : SequenceNode) (existing remove : List Text)

/-- The entry of a line stays. -/
def Survives (item : Text) (line : Nat) : Prop :=
  (item, line) ∈ itemLines target existing ∧ item ∉ remove

/-- Where the line of a new entry belongs in the old text. -/
inductive Place (value : Text) : Nat → Prop
  /-- Nothing survives: where the first entry was. -/
  | first {item : Text} {line : Nat} (removed : ∀ item ∈ existing, item ∈ remove)
      (entry : (item, line) ∈ itemLines target existing)
      (least : ∀ other ∈ itemLines target existing, line ≤ other.2) : Place value line
  /-- The scope is sorted and a greater entry survives: above the first such entry and the
  comments right above it. -/
  | before {item : Text} {line place : Nat} (sorted : existing.Pairwise (· ≤ ·))
      (survives : Survives target existing remove item line) (greater : value < item)
      (least : ∀ other last, Survives target existing remove other last → value < other → line ≤ last)
      (above : place ≤ line)
      (comments : ∀ index, place ≤ index → index < line →
        (keptLines text)[index]?.any isComment = true)
      (stops : place = 0 ∨ (keptLines text)[place - 1]?.any isComment = false) : Place value place
  /-- Otherwise: behind the last entry that survives. -/
  | behind {item : Text} {line : Nat}
      (unfollowed : existing.Pairwise (· ≤ ·) →
        ∀ other last, Survives target existing remove other last → ¬ value < other)
      (survives : Survives target existing remove item line)
      (last : ∀ other last, Survives target existing remove other last → last ≤ line) :
      Place value (line + 1)

variable {text target existing remove} {desired : List Text} {value : Text} {place first : Nat}

/-- The survivors with their lines. -/
abbrev keptItems (target : SequenceNode) (existing desired : List Text) : List (Text × Nat) :=
  (itemLines target existing).filter fun entry => entry.1 ∈ desired

theorem mem_keptItems (scope : IsBlockScope text target existing)
    (kept : ∀ item ∈ existing, item ∈ desired ↔ item ∉ remove) {item : Text} {line : Nat} :
    (item, line) ∈ keptItems target existing desired ↔ Survives target existing remove item line := by
  rw [List.mem_filter, decide_eq_true_eq]
  constructor
  · rintro ⟨member, stays⟩
    exact ⟨member, (kept item (scope.mem_existing member)).mp stays⟩
  · rintro ⟨member, stays⟩
    exact ⟨member, (kept item (scope.mem_existing member)).mpr stays⟩

theorem pairwise_keptItems (scope : IsBlockScope text target existing) :
    (keptItems target existing desired).Pairwise fun a b => a.2 < b.2 :=
  scope.pairwise_items.filter _

/-- The last of entries in the order of their lines. -/
theorem le_getLast {entries : List (Text × Nat)} (ascending : entries.Pairwise fun a b => a.2 < b.2)
    {last entry : Text × Nat} (final : entries.getLast? = some last) (member : entry ∈ entries) :
    entry.2 ≤ last.2 := by
  obtain ⟨before, rfl⟩ := List.getLast?_eq_some_iff.mp final
  rcases List.mem_append.mp member with earlier | same
  · exact Nat.le_of_lt ((List.pairwise_append.mp ascending).2.2 entry earlier last
      (List.mem_singleton_self last))
  · rw [List.mem_singleton.mp same]

theorem head_le {entries : List (Text × Nat)} (ascending : entries.Pairwise fun a b => a.2 < b.2)
    {head entry : Text × Nat} (start : entries.head? = some head) (member : entry ∈ entries) :
    head.2 ≤ entry.2 := by
  obtain ⟨rest, rfl⟩ := List.head?_eq_some_iff.mp start
  rcases List.mem_cons.mp member with rfl | later
  · exact Nat.le_refl _
  · exact Nat.le_of_lt ((List.pairwise_cons.mp ascending).1 entry later)

/-- Without survivors a new entry belongs where the first entry was. -/
theorem place_iff_first (start : ((itemLines target existing).map Prod.snd).min? = some first)
    (gone : ∀ item line, ¬ Survives target existing remove item line)
    (removed : ∀ item ∈ existing, item ∈ remove) :
    Place text target existing remove value place ↔ place = first := by
  obtain ⟨member, least⟩ := List.min?_eq_some_iff.mp start
  constructor
  · intro belongs
    cases belongs with
    | first removed entry minimal =>
      obtain ⟨other, given, rfl⟩ := List.mem_map.mp member
      exact Nat.le_antisymm (minimal other given) (least place (List.mem_map_of_mem entry))
    | before _ survives => exact absurd survives (gone _ _)
    | behind _ survives => exact absurd survives (gone _ _)
  · rintro rfl
    obtain ⟨⟨item, line⟩, given, rfl⟩ := List.mem_map.mp member
    exact .first removed given fun other inside => least other.2 (List.mem_map_of_mem inside)

/-- Unless a greater entry survives in a sorted scope, a new entry belongs behind the last
survivor. -/
theorem place_iff_behind {item : Text} {line : Nat}
    (survives : Survives target existing remove item line)
    (last : ∀ other last, Survives target existing remove other last → last ≤ line)
    (unfollowed : existing.Pairwise (· ≤ ·) →
      ∀ other last, Survives target existing remove other last → ¬ value < other)
    (member : item ∈ existing) :
    Place text target existing remove value place ↔ place = line + 1 := by
  constructor
  · intro belongs
    cases belongs with
    | first removed => exact absurd (removed item member) survives.2
    | before sorted other greater => exact absurd greater (unfollowed sorted _ _ other)
    | behind _ other final =>
      rw [Nat.le_antisymm (last _ _ other) (final _ _ survives)]
  · rintro rfl
    exact .behind unfollowed survives last

/-- In a sorted scope a new entry belongs above the first greater survivor. -/
theorem place_iff_before {item : Text} {line : Nat} (sorted : existing.Pairwise (· ≤ ·))
    (survives : Survives target existing remove item line) (greater : value < item)
    (least : ∀ other last, Survives target existing remove other last → value < other → line ≤ last)
    (member : item ∈ existing) :
    Place text target existing remove value place ↔
      place = aboveComments (keptLines text) line := by
  constructor
  · intro belongs
    cases belongs with
    | first removed => exact absurd (removed item member) survives.2
    | behind unfollowed => exact absurd greater (unfollowed sorted _ _ survives)
    | before _ other higher minimal above comments stops =>
      have same := Nat.le_antisymm (least _ _ other higher) (minimal _ _ survives greater)
      rw [same]
      exact eq_aboveComments_iff.mpr ⟨above, comments, stops⟩
  · intro anchored
    obtain ⟨above, comments, stops⟩ := eq_aboveComments_iff.mp anchored
    exact .before sorted survives greater least above comments stops

/-- The anchors of the code are the places. -/
theorem place_iff (scope : IsBlockScope text target existing)
    (kept : ∀ item ∈ existing, item ∈ desired ↔ item ∉ remove)
    (start : ((itemLines target existing).map Prod.snd).min? = some first) :
    Place text target existing remove value place ↔
      place = anchorOf (keptLines text) existing (keptItems target existing desired) first value := by
  have survivor := fun {item line} => @mem_keptItems _ _ _ _ _ scope kept item line
  have ascending := @pairwise_keptItems _ _ _ desired scope
  rw [anchorOf]
  cases final : (keptItems target existing desired).getLast? with
  | none =>
    have none_left : keptItems target existing desired = [] := List.getLast?_eq_none_iff.mp final
    have gone : ∀ item line, ¬ Survives target existing remove item line := by
      intro item line survives
      rw [← survivor, none_left] at survives
      cases survives
    apply place_iff_first start gone
    intro item member
    obtain ⟨line, entry⟩ := scope.exists_line member
    by_contra stays
    exact gone item line ⟨entry, stays⟩
  | some last =>
    have lastSurvives : Survives target existing remove last.1 last.2 :=
      survivor.mp (List.mem_of_getLast? final)
    have highest : ∀ other line, Survives target existing remove other line → line ≤ last.2 :=
      fun other line survives => le_getLast ascending final (survivor.mpr survives)
    have inside := scope.mem_existing lastSurvives.1
    cases sorted : isSorted existing with
    | false =>
      apply place_iff_behind lastSurvives highest _ inside
      intro ordered
      rw [isSorted_iff.mpr ordered] at sorted
      cases sorted
    | true =>
      have ordered := isSorted_iff.mp sorted
      simp only [if_true]
      cases following : ((keptItems target existing desired).filter fun entry =>
          value < entry.1).head? with
      | none =>
        have unfollowed : ∀ other line, Survives target existing remove other line →
            ¬ value < other := by
          intro other line survives greater
          have member : (other, line) ∈ (keptItems target existing desired).filter
              fun entry => value < entry.1 :=
            List.mem_filter.mpr ⟨survivor.mpr survives, decide_eq_true greater⟩
          rw [List.head?_eq_none_iff.mp following] at member
          cases member
        have stays : aboveComments (keptLines text) (last.2 + 1) = last.2 + 1 :=
          Nat.le_antisymm (aboveComments_le _)
            (lt_aboveComments (Nat.lt_succ_self _) (scope.visible lastSurvives.1).2)
        rw [List.head?_map, following, Option.map_none, Option.getD_none, stays]
        exact place_iff_behind lastSurvives highest (fun _ => unfollowed) inside
      | some next =>
        obtain ⟨member, greater⟩ := List.mem_filter.mp (List.mem_of_head? following)
        have nextSurvives : Survives target existing remove next.1 next.2 :=
          survivor.mp member
        rw [List.head?_map, following, Option.map_some, Option.getD_some]
        apply place_iff_before ordered nextSurvives (by simpa using greater) _
          (scope.mem_existing nextSurvives.1)
        intro other line survives higher
        exact head_le (ascending.filter _) following (List.mem_filter.mpr
          ⟨survivor.mpr survives, decide_eq_true higher⟩)

/-! ## Places ascend -/

section Order

variable {other item : Text} {line last : Nat}

theorem Place.le_length (scope : IsBlockScope text target existing)
    (belongs : Place text target existing remove value place) : place ≤ (keptLines text).length := by
  cases belongs with
  | first _ entry => exact Nat.le_of_lt (scope.visible entry).1
  | before _ survives _ _ above => exact Nat.le_trans above (Nat.le_of_lt (scope.visible survives.1).1)
  | behind _ survives => exact (scope.visible survives.1).1

section Sorted

variable (scope : IsBlockScope text target existing) (sorted : existing.Pairwise (· ≤ ·))
  (belongs : Place text target existing remove value place)

include scope sorted belongs

/-- In a sorted scope a new entry belongs behind every smaller survivor. -/
theorem Place.lt_of_lt (survives : Survives target existing remove item line)
    (less : item < value) : line < place := by
  cases belongs with
  | first removed => exact absurd (removed item (scope.mem_existing survives.1)) survives.2
  | behind _ _ highest => exact Nat.lt_succ_of_le (highest _ _ survives)
  | before _ next greater _ _ comments =>
    have below := scope.lt_line sorted survives.1 next.1 (less.trans greater)
    by_contra above
    have comment := comments line (not_lt.mp above) below
    rw [(scope.visible survives.1).2] at comment
    cases comment

/-- In a sorted scope a new entry belongs before every greater survivor. -/
theorem Place.le_of_lt (survives : Survives target existing remove item line)
    (greater : value < item) :
    place ≤ line := by
  cases belongs with
  | first removed => exact absurd (removed item (scope.mem_existing survives.1)) survives.2
  | behind unfollowed => exact absurd greater (unfollowed sorted _ _ survives)
  | before _ _ _ least above => exact Nat.le_trans above (least _ _ survives greater)

/-- In a sorted scope places ascend with the entries. -/
theorem Place.mono {later : Nat} (otherBelongs : Place text target existing remove other later)
    (less : value < other) :
    place ≤ later := by
  cases belongs with
  | first removed entry least =>
    cases otherBelongs with
    | first _ otherEntry => exact least _ otherEntry
    | before _ survives => exact absurd (removed _ (scope.mem_existing survives.1)) survives.2
    | behind _ survives => exact absurd (removed _ (scope.mem_existing survives.1)) survives.2
  | behind unfollowed survives highest =>
    cases otherBelongs with
    | first removed => exact absurd (removed _ (scope.mem_existing survives.1)) survives.2
    | before _ next greater => exact absurd (less.trans greater) (unfollowed sorted _ _ next)
    | behind _ _ otherHighest => exact Nat.succ_le_succ (otherHighest _ _ survives)
  | before _ survives _ least above comments stops =>
    cases otherBelongs with
    | first removed => exact absurd (removed _ (scope.mem_existing survives.1)) survives.2
    | behind _ _ otherHighest =>
      exact Nat.le_succ_of_le (Nat.le_trans above (otherHighest _ _ survives))
    | before _ next greater _ otherAbove otherComments otherStops =>
      rw [eq_aboveComments_iff.mpr ⟨above, comments, stops⟩,
        eq_aboveComments_iff.mpr ⟨otherAbove, otherComments, otherStops⟩]
      exact aboveComments_mono (least _ _ next (less.trans greater))

end Sorted

/-- In a scope that is not sorted, new entries belong behind all survivors. -/
theorem Place.lt_of_unsorted (scope : IsBlockScope text target existing)
    (unsorted : ¬ existing.Pairwise (· ≤ ·))
    (belongs : Place text target existing remove value place)
    (survives : Survives target existing remove item line) : line < place := by
  cases belongs with
  | first removed => exact absurd (removed item (scope.mem_existing survives.1)) survives.2
  | behind _ _ highest => exact Nat.lt_succ_of_le (highest _ _ survives)
  | before sorted => exact absurd sorted unsorted

theorem Place.eq_of_unsorted (scope : IsBlockScope text target existing)
    (unsorted : ¬ existing.Pairwise (· ≤ ·)) {later : Nat}
    (belongs : Place text target existing remove value place)
    (otherBelongs : Place text target existing remove other later) : place = later := by
  cases belongs with
  | before sorted => exact absurd sorted unsorted
  | first removed entry least =>
    cases otherBelongs with
    | first _ otherEntry otherLeast =>
      exact Nat.le_antisymm (least _ otherEntry) (otherLeast _ entry)
    | before sorted => exact absurd sorted unsorted
    | behind _ survives => exact absurd (removed _ (scope.mem_existing survives.1)) survives.2
  | behind _ survives highest =>
    cases otherBelongs with
    | first removed => exact absurd (removed _ (scope.mem_existing survives.1)) survives.2
    | before sorted => exact absurd sorted unsorted
    | behind _ otherSurvives otherHighest =>
      rw [Nat.le_antisymm (otherHighest _ _ survives) (highest _ _ otherSurvives)]

end Order

end Places

end AxiomEncode.ProgramScope
