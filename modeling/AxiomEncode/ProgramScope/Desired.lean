/-
# ProgramScope.Desired -- the list a scope update asks for

The survivors of an update keep their order, the additions are merged into a sorted scope
and appended to any other.  `syncedScope_desired` collects what the list is, and
`syncedScope_again` that asking twice asks for nothing new.
-/
import AxiomEncode.ProgramScope.Sync

namespace AxiomEncode.ProgramScope

open Theory

set_option autoImplicit false

variable {keep : Text → Bool}

section Sorted

variable {item value : Text} {items : List Text}

theorem isSorted_iff : isSorted items = true ↔ items.Pairwise (· ≤ ·) := by
  rw [isSorted, decide_eq_true_eq]
  constructor
  · intro same
    rw [← same]
    have sorted := @List.pairwise_mergeSort _ (fun a b : Text => decide (a ≤ b))
      (fun a b c first second => by
        rw [decide_eq_true_eq] at first second ⊢
        exact le_trans first second)
      (fun a b => by
        rw [Bool.or_eq_true, decide_eq_true_eq, decide_eq_true_eq]
        exact le_total a b) items
    exact sorted.imp fun {a b} before => by simpa using before
  · intro sorted
    exact List.mergeSort_of_pairwise (sorted.imp fun {a b} before => by simpa using before)

theorem insort_perm : List.Perm (insort item items) (item :: items) := by
  induction items with
  | nil => exact .refl _
  | cons first items ih =>
    rw [insort]
    split
    · exact .refl _
    · exact (ih.cons first).trans (.swap item first items)

theorem mem_insort : value ∈ insort item items ↔ value = item ∨ value ∈ items := by
  rw [insort_perm.mem_iff, List.mem_cons]

theorem pairwise_insort (sorted : items.Pairwise (· ≤ ·)) :
    (insort item items).Pairwise (· ≤ ·) := by
  induction items with
  | nil => exact List.pairwise_singleton _ _
  | cons first items ih =>
    rw [List.pairwise_cons] at sorted
    rw [insort]
    split
    next below =>
      rw [List.pairwise_cons]
      refine ⟨fun other member => ?_, List.pairwise_cons.mpr sorted⟩
      rcases List.mem_cons.mp member with rfl | later
      · exact below.le
      · exact below.le.trans (sorted.1 other later)
    next above =>
      rw [List.pairwise_cons]
      refine ⟨fun other member => ?_, ih sorted.2⟩
      rcases mem_insort.mp member with rfl | later
      · exact not_lt.mp above
      · exact sorted.1 other later

theorem filter_insort (dropped : keep item = false) :
    (insort item items).filter keep = items.filter keep := by
  induction items with
  | nil => simp [insort, dropped]
  | cons first items ih =>
    rw [insort]
    split
    · rw [List.filter_cons_of_neg (by rw [dropped]; decide)]
    · rw [List.filter_cons, List.filter_cons, ih]

end Sorted

section AddItem

variable {preserve : Bool} {item value : Text} {additions start : List Text}

theorem mem_addItem : value ∈ addItem preserve start item ↔ value = item ∨ value ∈ start := by
  rw [addItem]
  split
  next inside =>
    constructor
    · exact Or.inr
    · rintro (rfl | member)
      · exact inside
      · exact member
  · split
    · exact mem_insort
    · rw [List.mem_append, List.mem_singleton, or_comm]

theorem nodup_addItem (distinct : start.Nodup) : (addItem preserve start item).Nodup := by
  rw [addItem]
  split
  · exact distinct
  next fresh =>
    split
    · exact insort_perm.nodup_iff.mpr (List.nodup_cons.mpr ⟨fresh, distinct⟩)
    · exact (List.perm_append_singleton item start).nodup_iff.mpr
        (List.nodup_cons.mpr ⟨fresh, distinct⟩)

theorem pairwise_addItem (sorted : start.Pairwise (· ≤ ·)) :
    (addItem true start item).Pairwise (· ≤ ·) := by
  rw [addItem]
  split
  · exact sorted
  · rw [if_pos rfl]
    exact pairwise_insort sorted

theorem filter_addItem (dropped : item ∉ start → keep item = false) :
    (addItem preserve start item).filter keep = start.filter keep := by
  rw [addItem]
  split
  · rfl
  next fresh =>
    have out := dropped fresh
    split
    · exact filter_insort out
    · rw [List.filter_append, List.filter_cons_of_neg (by rw [out]; decide), List.filter_nil,
        List.append_nil]

/-! ## The whole loop -/

variable (preserve) in
/-- The loop over the additions. -/
abbrev addItems (start additions : List Text) : List Text := additions.foldl (addItem preserve) start

theorem mem_addItems : value ∈ addItems preserve start additions ↔ value ∈ start ∨ value ∈ additions := by
  induction additions generalizing start with
  | nil => simp
  | cons item additions ih =>
    rw [addItems, List.foldl_cons, ih, mem_addItem, List.mem_cons]
    tauto

theorem nodup_addItems (distinct : start.Nodup) : (addItems preserve start additions).Nodup := by
  induction additions generalizing start with
  | nil => exact distinct
  | cons item additions ih => exact ih (nodup_addItem distinct)

theorem pairwise_addItems (sorted : start.Pairwise (· ≤ ·)) :
    (addItems true start additions).Pairwise (· ≤ ·) := by
  induction additions generalizing start with
  | nil => exact sorted
  | cons item additions ih => exact ih (pairwise_addItem sorted)

theorem filter_addItems (dropped : ∀ item ∈ additions, item ∉ start → keep item = false) :
    (addItems preserve start additions).filter keep = start.filter keep := by
  induction additions generalizing start with
  | nil => rfl
  | cons item additions ih =>
    rw [addItems, List.foldl_cons, ih, filter_addItem (dropped item List.mem_cons_self)]
    intro other member fresh
    refine dropped other (List.mem_cons_of_mem _ member) fun inside => fresh ?_
    exact mem_addItem.mpr (Or.inr inside)

/-- What is there already is not added again. -/
theorem addItems_of_mem (inside : ∀ item ∈ additions, item ∈ start) :
    addItems preserve start additions = start := by
  induction additions with
  | nil => rfl
  | cons item additions ih =>
    rw [addItems, List.foldl_cons, addItem, if_pos (inside item List.mem_cons_self)]
    exact ih fun other member => inside other (List.mem_cons_of_mem _ member)

/-- An unsorted scope is extended behind its last survivor. -/
theorem exists_addItems_append (fresh_only : Text → Prop)
    (outside : ∀ item ∈ additions, item ∉ start → fresh_only item) :
    ∃ rest, addItems false start additions = start ++ rest ∧ ∀ item ∈ rest, fresh_only item := by
  induction additions generalizing start with
  | nil => exact ⟨[], by simp, by simp⟩
  | cons item additions ih =>
    by_cases inside : item ∈ start
    · rw [addItems, List.foldl_cons, addItem, if_pos inside]
      exact ih fun other member => outside other (List.mem_cons_of_mem _ member)
    · rw [addItems, List.foldl_cons, addItem, if_neg inside, if_neg Bool.false_ne_true]
      obtain ⟨rest, whole, fresh⟩ := @ih (start ++ [item]) fun other member out =>
        outside other (List.mem_cons_of_mem _ member) fun here =>
          out (List.mem_append_left _ here)
      refine ⟨item :: rest, ?_, ?_⟩
      · rw [addItems] at whole
        rw [whole, List.append_assoc]
        rfl
      · intro other member
        rcases List.mem_cons.mp member with rfl | later
        · exact outside other List.mem_cons_self inside
        · exact fresh other later

end AddItem

section Sync

variable {scope : Text} {existing add remove : List Text} {sync : ScopeSync}

theorem mem_fromKeys {item : Text} : item ∈ fromKeys add ↔ item ∈ add := List.mem_eraseDups

theorem no_overlap (disjoint : ∀ item ∈ add, item ∉ remove) :
    ((fromKeys add).filter (· ∈ fromKeys remove)).mergeSort (· ≤ ·) = [] := by
  have none_left : (fromKeys add).filter (· ∈ fromKeys remove) = [] := by
    rw [List.filter_eq_nil_iff]
    intro item member both
    exact disjoint item (mem_fromKeys.mp member) (mem_fromKeys.mp (by simpa using both))
  rw [none_left, List.mergeSort_nil]

/-- The survivors of an update. -/
abbrev survivorsOf (existing remove : List Text) : List Text :=
  existing.filter (· ∉ remove)

theorem filter_fromKeys : existing.filter (· ∉ fromKeys remove) = survivorsOf existing remove := by
  apply List.filter_congr
  intro item _
  exact decide_eq_decide.mpr (not_congr mem_fromKeys)

/-- An update of distinct paths by disjoint lists goes through. -/
theorem exists_syncedScope (scope : Text) (distinct : existing.Nodup)
    (disjoint : ∀ item ∈ add, item ∉ remove) :
    ∃ sync, syncedScope scope existing add remove = .ok sync ∧
      sync.desired = addItems (isSorted existing) (survivorsOf existing remove) (fromKeys add) ∧
      sync.changed = decide (sync.desired ≠ existing) := by
  rw [syncedScope, if_neg (not_not.mpr distinct)]
  simp only
  rw [no_overlap disjoint, if_neg (by simp), filter_fromKeys]
  exact ⟨_, rfl, rfl, rfl⟩

/-- What a scope is asked to hold, beside the scope it comes from. -/
structure IsDesired (existing add remove desired : List Text) : Prop where
  nodup : desired.Nodup
  mem : ∀ value, value ∈ desired ↔ (value ∈ existing ∧ value ∉ remove) ∨ value ∈ add
  survivors : desired.filter (· ∈ existing) = survivorsOf existing remove
  sorted : existing.Pairwise (· ≤ ·) → desired.Pairwise (· ≤ ·)
  appended : ¬ existing.Pairwise (· ≤ ·) →
    ∃ rest, desired = survivorsOf existing remove ++ rest ∧ ∀ value ∈ rest, value ∉ existing

theorem mem_survivorsOf {value : Text} :
    value ∈ survivorsOf existing remove ↔ value ∈ existing ∧ value ∉ remove := by
  rw [List.mem_filter, decide_eq_true_eq]

/-- An addition that is not among the survivors is new. -/
theorem not_mem_existing (disjoint : ∀ item ∈ add, item ∉ remove) {item : Text}
    (given : item ∈ fromKeys add) (fresh : item ∉ survivorsOf existing remove) :
    item ∉ existing := fun member =>
  fresh (mem_survivorsOf.mpr ⟨member, disjoint item (mem_fromKeys.mp given)⟩)

theorem isDesired_addItems (distinct : existing.Nodup) (disjoint : ∀ item ∈ add, item ∉ remove) :
    IsDesired existing add remove
      (addItems (isSorted existing) (survivorsOf existing remove) (fromKeys add)) := by
  refine ⟨nodup_addItems (distinct.filter _), fun value => ?_, ?_, fun sorted => ?_,
    fun unsorted => ?_⟩
  · rw [mem_addItems, mem_survivorsOf, mem_fromKeys]
  · rw [filter_addItems, List.filter_eq_self]
    · intro item member
      exact decide_eq_true (mem_survivorsOf.mp member).1
    · intro item given fresh
      exact decide_eq_false (not_mem_existing disjoint given fresh)
  · rw [isSorted_iff.mpr sorted]
    exact pairwise_addItems (sorted.filter _)
  · have order : isSorted existing = false := by
      rw [← Bool.not_eq_true, isSorted_iff]
      exact unsorted
    rw [order]
    exact exists_addItems_append (· ∉ existing) fun item given fresh =>
      not_mem_existing disjoint given fresh

/-- Asking a second time changes nothing. -/
theorem syncedScope_again (scope : Text) {desired : List Text}
    (asked : IsDesired existing add remove desired) (disjoint : ∀ item ∈ add, item ∉ remove) :
    ∃ sync, syncedScope scope desired add remove = .ok sync ∧ sync.desired = desired ∧
      sync.changed = false := by
  obtain ⟨sync, done, list, changed⟩ := exists_syncedScope scope asked.nodup disjoint
  have stay : survivorsOf desired remove = desired := by
    rw [List.filter_eq_self]
    intro value member
    apply decide_eq_true
    rcases (asked.mem value).mp member with ⟨-, kept⟩ | added
    · exact kept
    · exact disjoint value added
  have same : sync.desired = desired := by
    rw [list, stay]
    apply addItems_of_mem
    intro item given
    exact (asked.mem item).mpr (Or.inr (mem_fromKeys.mp given))
  refine ⟨sync, done, same, ?_⟩
  rw [changed, same]
  simp

end Sync

end AxiomEncode.ProgramScope
