/-
# Corpus.ComposeOrder -- composition does not depend on the order of the rows

The order of the rows reaches a composition in three places: which record a
lookup finds, the order in which the edges of the trie were met, and the order
of a set of children before it is sorted.  On a list that can be composed the
paths are distinct, so lookups agree (`recordAt_perm`); the two tries have the
same edges (`childPaths_perm`); and the sort key of siblings ends with their
path, so it is injective and a sorted set of siblings has one order
(`sortedChildren_congr`).  The two visits are then the same computation.
-/
import AxiomEncode.Corpus.ComposeCover

namespace AxiomEncode.Corpus

open Theory

set_option autoImplicit false

/-! ## The sort key is injective on siblings -/

theorem intercalate_append_singleton_injective (sep : Text) :
    ∀ (init : List Text) {s t : Text},
      List.intercalate sep (init ++ [s]) = List.intercalate sep (init ++ [t]) → s = t
  | [], s, t, same => by simpa [List.intercalate] using same
  | [x], s, t, same => by simpa [List.intercalate] using same
  | x :: y :: rest, s, t, same => by
    refine intercalate_append_singleton_injective sep (y :: rest) ?_
    simpa [List.intercalate] using same

variable {s t : Segment}

theorem CitationPath.text_append_singleton_injective (parent : CitationPath)
    (same : CitationPath.text (parent ++ [s]) = CitationPath.text (parent ++ [t])) : s = t := by
  simp only [CitationPath.text, List.map_append, List.map_cons, List.map_nil] at same
  exact Subtype.ext (intercalate_append_singleton_injective _ _ same)

/-- Whatever the ordinals, legal markers and natural parts, distinct siblings
have distinct keys: the order of keys is a strict total order on siblings. -/
theorem descendantSiblingOrderKey_injective (parent : CitationPath)
    {first second : Option StoredRecord} {useOrdinal : Bool}
    (same : descendantSiblingOrderKey (parent ++ [s]) first useOrdinal =
      descendantSiblingOrderKey (parent ++ [t]) second useOrdinal) : s = t := by
  refine CitationPath.text_append_singleton_injective parent ?_
  have inner := congrArg (fun key => (ofLex (ofLex (ofLex (ofLex key).2).2).2)) same
  exact inner

/-! ## Two orders of one list -/

section Perm

variable {citationPath : CitationPath} {records records' : List StoredRecord}
  {index index' : CompositionIndex}

theorem recordAt_perm (perm : records.Perm records')
    (distinct : (records.map StoredRecord.path).Nodup) (path : CitationPath) :
    recordAt records path = recordAt records' path := by
  have distinct' := (perm.map StoredRecord.path).nodup_iff.mp distinct
  cases found : recordAt records' path with
  | none =>
    rw [recordAt_eq_none_iff] at found ⊢
    exact fun record hr => found record (perm.mem_iff.mp hr)
  | some record =>
    rw [recordAt_eq_some_iff distinct'] at found
    exact (recordAt_eq_some_iff distinct).mpr ⟨perm.mem_iff.mpr found.1, found.2⟩

theorem childPaths_perm (perm : records.Perm records')
    (admitted : Admitted citationPath records index)
    (admitted' : Admitted citationPath records' index') (path : CitationPath) :
    (index.childPaths path).Perm (index'.childPaths path) := by
  refine (List.perm_ext_iff_of_nodup (CompositionIndex.childPaths_nodup admitted.nodup path)
    (CompositionIndex.childPaths_nodup admitted'.nodup path)).mpr fun child => ?_
  simp only [admitted.edges, admitted'.edges, perm.mem_iff]

theorem contributesCurrentText_congr (lookup : ∀ path, recordAt records path = recordAt records' path)
    (children : ∀ path, (index.childPaths path).Perm (index'.childPaths path)) :
    ∀ bound path, contributesCurrentText records index bound path =
      contributesCurrentText records' index' bound path := by
  intro bound
  induction bound with
  | zero => simp only [contributesCurrentText, implies_true]
  | succ bound ih =>
    intro path
    have below : contributesBelow index (contributesCurrentText records index bound) path =
        contributesBelow index' (contributesCurrentText records' index' bound) path := by
      have empty : (index.childPaths path).isEmpty = (index'.childPaths path).isEmpty :=
        (children path).isEmpty_eq
      have any : (index.childPaths path).any (contributesCurrentText records index bound) =
          (index'.childPaths path).any (contributesCurrentText records' index' bound) := by
        rw [Bool.eq_iff_iff, List.any_eq_true, List.any_eq_true]
        simp only [ih, (children path).mem_iff]
      simp only [contributesBelow, empty, any]
    simp only [contributesCurrentText, lookup path, below]

/-- A set of siblings has one sorted order. -/
theorem sortedChildren_congr (lookup : ∀ path, recordAt records path = recordAt records' path)
    {childPaths childPaths' : List CitationPath} (perm : childPaths.Perm childPaths')
    (parent : CitationPath) (siblings : ∀ child ∈ childPaths, ∃ s, child = parent ++ [s]) :
    sortedChildren records childPaths = sortedChildren records' childPaths' := by
  have ordinals : useOrdinals records childPaths = useOrdinals records' childPaths' := by
    have all : (childPaths.all fun child =>
          ((recordAt records child).bind StoredRecord.ordinal).isSome) =
        childPaths'.all fun child =>
          ((recordAt records' child).bind StoredRecord.ordinal).isSome := by
      rw [Bool.eq_iff_iff, List.all_eq_true, List.all_eq_true]
      simp only [lookup, perm.mem_iff]
    simp only [useOrdinals, perm.isEmpty_eq, all]
  simp only [sortedChildren, ordinals, lookup]
  let key := fun child =>
    descendantSiblingOrderKey child (recordAt records' child) (useOrdinals records' childPaths')
  have : Std.Total fun a b => key a ≤ key b := ⟨fun a b => le_total _ _⟩
  have : IsTrans CitationPath fun a b => key a ≤ key b := ⟨fun _ _ _ => le_trans⟩
  have sorted := List.pairwise_insertionSort (fun a b => key a ≤ key b)
  have same := ((List.perm_insertionSort (fun a b => key a ≤ key b) childPaths).trans perm).trans
    (List.perm_insertionSort (fun a b => key a ≤ key b) childPaths').symm
  refine same.eq_of_pairwise ?_ (sorted childPaths) (sorted childPaths')
  intro a b ha hb first second
  obtain ⟨s, rfl⟩ := siblings a ((List.mem_insertionSort _).mp ha)
  obtain ⟨t, rfl⟩ := siblings b (perm.mem_iff.mpr ((List.mem_insertionSort _).mp hb))
  rw [descendantSiblingOrderKey_injective parent (le_antisymm first second)]

/-- The two visits are the same computation. -/
theorem visit_congr (lookup : ∀ path, recordAt records path = recordAt records' path)
    (children : ∀ path, (index.childPaths path).Perm (index'.childPaths path))
    (siblings : ∀ path, ∀ child ∈ index.childPaths path, ∃ s, child = path ++ [s])
    (contributes : CitationPath → Bool) :
    ∀ bound path, visit citationPath records index contributes bound path =
      visit citationPath records' index' contributes bound path := by
  intro bound
  induction bound with
  | zero => simp only [visit, implies_true]
  | succ bound ih =>
    intro path
    have kept := (children path).filter contributes
    have sorted := sortedChildren_congr lookup kept path fun child hc =>
      siblings path child (List.mem_of_mem_filter hc)
    have below : visitBelow citationPath records index contributes
          (visit citationPath records index contributes bound) path =
        visitBelow citationPath records' index' contributes
          (visit citationPath records' index' contributes bound) path := by
      simp only [visitBelow, (children path).isEmpty_eq, kept.isEmpty_eq, sorted, funext ih]
    simp only [visit, lookup path, below]

theorem visitBound_perm (perm : records.Perm records') : visitBound records = visitBound records' := by
  rw [visitBound, visitBound, (perm.map _).foldr_eq]

theorem descendantNodes_perm (perm : records.Perm records') :
    (descendantNodes citationPath records).Perm (descendantNodes citationPath records') := by
  refine (List.perm_ext_iff_of_nodup (List.nodup_dedup _) (List.nodup_dedup _)).mpr fun node => ?_
  rw [← descendantNodes, ← descendantNodes, mem_descendantNodes, mem_descendantNodes]
  simp only [DescendantNode, perm.mem_iff]

variable {expectedScope : ReleaseScope}

theorem Composable.perm (perm : records.Perm records')
    (composable : Composable citationPath records expectedScope) :
    Composable citationPath records' expectedScope := by
  have nodes := @descendantNodes_perm citationPath _ _ perm
  have leaf : ∀ record, IsLeaf records' record ↔ IsLeaf records record := fun record => by
    simp only [IsLeaf, perm.mem_iff]
  have bodiless : ∀ record, BodylessLeaf records' record ↔ BodylessLeaf records record :=
    fun record => by simp only [BodylessLeaf, leaf]
  have bodies : (shallowest StoredRecord.path (records'.filter StoredRecord.hasBody)).Perm
      (shallowest StoredRecord.path (records.filter StoredRecord.hasBody)) := by
    have nodup := (composable.distinct.of_map _).filter StoredRecord.hasBody
    have nodup' := (perm.nodup_iff.mp (composable.distinct.of_map _)).filter StoredRecord.hasBody
    refine (List.perm_ext_iff_of_nodup (nodup'.filter _) (nodup.filter _)).mpr fun record => ?_
    rw [← shallowest, ← shallowest, mem_shallowest, mem_shallowest]
    simp only [List.mem_filter, perm.mem_iff]
  refine ⟨?_, ?_, (perm.map _).nodup_iff.mp composable.distinct, ?_, ?_, ?_, ?_, ?_⟩
  · exact fun record hr => composable.under record (perm.mem_iff.mpr hr)
  · intro record hr repealed
    rw [leaf]
    exact composable.repealed record (perm.mem_iff.mpr hr) repealed
  · exact fun record hr => composable.scopes record (perm.mem_iff.mpr hr)
  · obtain ⟨record, hr, body⟩ := composable.body
    exact ⟨record, perm.mem_iff.mp hr, body⟩
  · intro record hr bodyless
    obtain ⟨other, ho, above⟩ :=
      composable.covered record (perm.mem_iff.mpr hr) ((bodiless record).mp bodyless)
    exact ⟨other, perm.mem_iff.mp ho, above⟩
  · obtain ⟨count, bytes⟩ := composable.trie
    have total := (nodes.map fun node => 4 * utf8Length (CitationPath.text node)).sum_eq
    exact ⟨nodes.length_eq ▸ count, total ▸ bytes⟩
  · rw [composedBytes_perm bodies]
    exact composable.bytes

theorem Composed.perm {ordered : List StoredRecord} (perm : records.Perm records')
    (composed : Composed citationPath records expectedScope index ordered) :
    ∃ index', Composed citationPath records' expectedScope index' ordered := by
  obtain ⟨index', ordered', composed'⟩ :=
    exists_composed_iff.mpr ((exists_composed_iff.mp ⟨index, ordered, composed⟩).perm perm)
  have lookup := recordAt_perm perm composed.admitted.distinct
  have children := childPaths_perm perm composed.admitted composed'.admitted
  have contributes := funext
    (contributesCurrentText_congr lookup children (visitBound records))
  have visits := @visit_congr citationPath _ _ _ _ lookup children
    (fun path child hc => ((composed.admitted.edges path child).mp hc).1)
    (contributesCurrentText records index (visitBound records)) (visitBound records) citationPath
  have visited' := composed'.visited
  rw [← visitBound_perm perm, ← contributes, ← visits, composed.visited] at visited'
  cases Except.ok.inj visited'
  exact ⟨index', composed'⟩

/-- The rows in another order compose to the same text and the same rows. -/
theorem composeDescendantText_perm {text : Text} {rows : List CorpusRowIdentity}
    (perm : records.Perm records')
    (done : composeDescendantText citationPath records expectedScope = .ok (text, rows)) :
    composeDescendantText citationPath records' expectedScope = .ok (text, rows) := by
  obtain ⟨index, ordered, composed, rfl, rfl⟩ := composeDescendantText_eq_ok_iff.mp done
  obtain ⟨index', composed'⟩ := composed.perm perm
  exact composeDescendantText_eq_ok_iff.mpr ⟨index', ordered, composed', rfl, rfl⟩

end Perm

/-- Order independence: two orders of the same rows give the same text and the
same component rows, because distinct siblings have distinct keys. -/
theorem composeDescendantText_order_independent (citationPath : CitationPath)
    (expectedScope : ReleaseScope) :
    (∀ (records records' : List StoredRecord), records.Perm records' →
      ∀ text rows, composeDescendantText citationPath records expectedScope = .ok (text, rows) →
        composeDescendantText citationPath records' expectedScope = .ok (text, rows)) ∧
    ∀ (parent : CitationPath) (s t : Segment) (first second : Option StoredRecord)
      (useOrdinal : Bool), s ≠ t →
      let key := descendantSiblingOrderKey (parent ++ [s]) first useOrdinal
      let key' := descendantSiblingOrderKey (parent ++ [t]) second useOrdinal
      key < key' ∧ ¬ key' < key ∨ key' < key ∧ ¬ key < key' := by
  constructor
  · intro records records' perm text rows done
    exact composeDescendantText_perm perm done
  · intro parent s t first second useOrdinal ne key key'
    have distinct : key ≠ key' := fun h => ne (descendantSiblingOrderKey_injective parent h)
    rcases lt_or_gt_of_ne distinct with less | greater
    · exact .inl ⟨less, lt_asymm less⟩
    · exact .inr ⟨greater, lt_asymm greater⟩

theorem composeDescendantText_reversed_sections :
    ∃ text rows, composeDescendantText sectionPath.dropLast
        [sectionRecord 1 "One.", sectionRecord 2 "Two."] (sectionRecord 1 "One.").row.scope =
        .ok (text, rows) ∧
      composeDescendantText sectionPath.dropLast
        [sectionRecord 2 "Two.", sectionRecord 1 "One."] (sectionRecord 1 "One.").row.scope =
        .ok (text, rows) := by
  refine ⟨"One.\n\nTwo.".toList, [(sectionRecord 1 "One.").row, (sectionRecord 2 "Two.").row],
    by decide, ?_⟩
  exact (composeDescendantText_order_independent _ _).1 _ _ (.swap _ _ _) _ _ (by decide)

end AxiomEncode.Corpus
