/-
# Corpus.ComposeCover -- composition is an exact cover

`visit` returns the body-bearing records that no other body-bearing record sits
above, each once, and refuses exactly when some current bodyless leaf has no
body-bearing record above it.  So the composed rows are the shallowest
body-bearing records: an antichain of paths that covers every body.

The two recursions are followed down the trie together.  `Contributing` says
what `contributesCurrentText` decides; the depth bound enters only through
`Deep`, which every node of the trie meets.
-/
import AxiomEncode.Corpus.ComposeIndex

namespace AxiomEncode.Corpus

open Theory

set_option autoImplicit false

/-- A record without represented children. -/
def IsLeaf (records : List StoredRecord) (record : StoredRecord) : Prop :=
  ∀ other ∈ records, record.path <+: other.path → other.path = record.path

/-- A current record with neither a body nor children. -/
def BodylessLeaf (records : List StoredRecord) (record : StoredRecord) : Prop :=
  record.hasBody = false ∧ record.repealed = false ∧ IsLeaf records record

instance (records : List StoredRecord) (record : StoredRecord) :
    Decidable (IsLeaf records record) :=
  inferInstanceAs (Decidable (∀ other ∈ records, _ → _))

instance (records : List StoredRecord) (record : StoredRecord) :
    Decidable (BodylessLeaf records record) :=
  inferInstanceAs (Decidable (_ ∧ _))

/-- The subtree at `path` holds a body, or a current leaf that needs one. -/
def Contributing (records : List StoredRecord) (path : CitationPath) : Prop :=
  ∃ record ∈ records, path <+: record.path ∧
    (record.hasBody = true ∨ BodylessLeaf records record)

/-- The records a subtree must contribute: its body-bearing ones without a
body-bearing record above them in the subtree. -/
def bodiesBelow (records : List StoredRecord) (path : CitationPath) : List StoredRecord :=
  records.filter fun record => record.hasBody && path <+: record.path

variable {path : CitationPath} {record : StoredRecord} {bound start : Nat}
  {expectedScope : ReleaseScope}

theorem mem_bodiesBelow {records : List StoredRecord} : record ∈ bodiesBelow records path ↔
      record ∈ records ∧ record.hasBody = true ∧ path <+: record.path := by
  simp [bodiesBelow]

/-- What the checks before the visit establish. -/
structure Admitted (citationPath : CitationPath) (records : List StoredRecord)
    (index : CompositionIndex) : Prop where
  distinct : (records.map StoredRecord.path).Nodup
  edges : ∀ parent child, child ∈ index.childPaths parent ↔
    (∃ segment, child = parent ++ [segment]) ∧ citationPath <+: parent ∧
      ∃ record ∈ records, child <+: record.path
  nodup : index.edges.Nodup
  under : ∀ record ∈ records, citationPath <+: record.path ∧ citationPath ≠ record.path
  repealed : ∀ record ∈ records, record.repealed = true →
    record.hasBody = false ∧ IsLeaf records record

/-- The bound exceeds the depth still to go below `path`. -/
def Deep (records : List StoredRecord) (path : CitationPath) (bound : Nat) : Prop :=
  ∀ record ∈ records, record.path.length < path.length + bound

theorem deep_visitBound (records : List StoredRecord) (path : CitationPath) :
    Deep records path (visitBound records) := by
  have bound : ∀ xs : List StoredRecord, ∀ record ∈ xs,
      record.path.length ≤ (xs.map fun record => record.path.length).foldr max 0 := by
    intro xs
    induction xs with
    | nil => simp
    | cons x xs ih =>
      intro record hr
      rcases List.mem_cons.mp hr with rfl | hr
      · simp
      · simpa using .inr (ih record hr)
  intro record hr
  have := bound records record hr
  simp only [visitBound]
  omega

section Lookup

variable {records : List StoredRecord}

theorem recordAt_eq_some_iff (distinct : (records.map StoredRecord.path).Nodup) :
    recordAt records path = some record ↔ record ∈ records ∧ record.path = path := by
  constructor
  · intro found
    exact ⟨List.mem_of_find?_eq_some found, by simpa using List.find?_some found⟩
  · rintro ⟨member, rfl⟩
    cases found : recordAt records record.path with
    | none =>
      have := List.find?_eq_none.mp found record member
      simp at this
    | some other =>
      have here := List.mem_of_find?_eq_some found
      have same : other.path = record.path := by simpa using List.find?_some found
      rw [List.inj_on_of_nodup_map distinct here member same]

theorem recordAt_eq_none_iff :
    recordAt records path = none ↔ ∀ record ∈ records, record.path ≠ path := by
  simp [recordAt, List.find?_eq_none]

end Lookup

namespace Admitted

variable {citationPath : CitationPath} {records : List StoredRecord} {index : CompositionIndex}

/-- A node that still has a record below it leaves room for one more round. -/
theorem bound_pos (deep : Deep records path bound)
    (occupied : ∃ record ∈ records, path <+: record.path) : bound ≠ 0 := by
  rintro rfl
  obtain ⟨record, hr, covers⟩ := occupied
  have := deep record hr
  have := covers.length_le
  omega

variable (admitted : Admitted citationPath records index)

include admitted

/-- A node with no children in the trie is the path of a record, and a leaf. -/
theorem leaf_of_childPaths_nil (below : citationPath <+: path)
    (childless : index.childPaths path = []) :
    ∀ record ∈ records, path <+: record.path → record.path = path := by
  intro record hr covers
  by_contra ne
  obtain ⟨s, hs⟩ := exists_child_prefix covers (Ne.symm ne)
  have : path ++ [s] ∈ index.childPaths path :=
    (admitted.edges _ _).mpr ⟨⟨s, rfl⟩, below, record, hr, hs⟩
  simp [childless] at this

theorem childPaths_nil_of_leaf (leaf : IsLeaf records record) :
    index.childPaths record.path = [] := by
  refine List.eq_nil_iff_forall_not_mem.mpr fun child hc => ?_
  obtain ⟨⟨s, rfl⟩, -, other, ho, covers⟩ := (admitted.edges _ _).mp hc
  have := leaf other ho (prefix_append_singleton covers)
  rw [this] at covers
  exact not_child_prefix_self covers

/-- A child that leads to a record, for every record properly below a node. -/
theorem exists_child (below : citationPath <+: path) (hr : record ∈ records)
    (covers : path <+: record.path) (ne : record.path ≠ path) :
    ∃ child ∈ index.childPaths path, child <+: record.path := by
  obtain ⟨s, hs⟩ := exists_child_prefix covers (Ne.symm ne)
  exact ⟨path ++ [s], (admitted.edges _ _).mpr ⟨⟨s, rfl⟩, below, record, hr, hs⟩, hs⟩

variable {child : CitationPath}

theorem child_below (hc : child ∈ index.childPaths path) :
    path <+: child ∧ citationPath <+: child ∧ child.length = path.length + 1 := by
  obtain ⟨⟨s, rfl⟩, below, -⟩ := (admitted.edges _ _).mp hc
  exact ⟨List.prefix_append _ _, below.trans (List.prefix_append _ _), by simp⟩

theorem child_deep (deep : Deep records path (bound + 1)) (hc : child ∈ index.childPaths path) :
    Deep records child bound := by
  intro record hr
  have := deep record hr
  have := (admitted.child_below hc).2.2
  omega

theorem child_occupied (hc : child ∈ index.childPaths path) :
    ∃ record ∈ records, child <+: record.path :=
  ((admitted.edges _ _).mp hc).2.2

/-- A contributing node without a body of its own passes it on to a child, or is
a leaf. -/
theorem contributing_iff_child (below : citationPath <+: path)
    (bodyless : ∀ record ∈ records, record.path = path → record.hasBody = false)
    (branching : index.childPaths path ≠ []) :
    Contributing records path ↔ ∃ child ∈ index.childPaths path, Contributing records child := by
  constructor
  · rintro ⟨record, hr, covers, live⟩
    by_cases here : record.path = path
    · exfalso
      rcases live with body | ⟨-, -, leaf⟩
      · simp [bodyless record hr here] at body
      · exact branching (here ▸ admitted.childPaths_nil_of_leaf leaf)
    · obtain ⟨child, hc, towards⟩ := admitted.exists_child below hr covers here
      exact ⟨child, hc, record, hr, towards, live⟩
  · rintro ⟨child, hc, record, hr, covers, live⟩
    exact ⟨record, hr, (admitted.child_below hc).1.trans covers, live⟩

theorem contributes_below_iff (below : citationPath <+: path)
    (occupied : ∃ record ∈ records, path <+: record.path)
    (bodyless : ∀ record ∈ records, record.path = path →
      record.hasBody = false ∧ record.repealed = false)
    (children : ∀ child ∈ index.childPaths path,
      contributesCurrentText records index bound child = true ↔ Contributing records child) :
    contributesBelow index (contributesCurrentText records index bound) path = true ↔
      Contributing records path := by
  simp only [contributesBelow]
  split
  · rename_i childless
    have leaf := admitted.leaf_of_childPaths_nil below (List.isEmpty_iff.mp childless)
    refine iff_of_true rfl ?_
    obtain ⟨record, hr, covers⟩ := occupied
    have here := leaf record hr covers
    refine ⟨record, hr, covers, .inr ⟨(bodyless record hr here).1, (bodyless record hr here).2, ?_⟩⟩
    intro other ho above
    rw [here] at above ⊢
    exact leaf other ho above
  · rename_i branching
    rw [admitted.contributing_iff_child below (fun r hr h => (bodyless r hr h).1)
      (fun h => branching (by simp [h])), List.any_eq_true]
    exact exists_congr fun child => and_congr_right fun hc => children child hc

/-- **`contributesCurrentText` decides `Contributing`.** -/
theorem contributesCurrentText_iff :
    ∀ {bound : Nat} {path : CitationPath}, Deep records path bound → citationPath <+: path →
      (∃ record ∈ records, path <+: record.path) →
      (contributesCurrentText records index bound path = true ↔ Contributing records path) := by
  intro bound
  induction bound with
  | zero => exact fun deep _ occupied => absurd rfl (bound_pos deep occupied)
  | succ bound ih =>
    intro path deep below occupied
    have children : ∀ child ∈ index.childPaths path,
        contributesCurrentText records index bound child = true ↔
          Contributing records child := fun child hc =>
      ih (admitted.child_deep deep hc) (admitted.child_below hc).2.1
        (admitted.child_occupied hc)
    simp only [contributesCurrentText]
    cases found : recordAt records path with
    | none =>
      have absent := recordAt_eq_none_iff.mp found
      exact admitted.contributes_below_iff below occupied
        (fun record hr h => absurd h (absent record hr)) children
    | some record =>
      obtain ⟨hr, rfl⟩ := (recordAt_eq_some_iff admitted.distinct).mp found
      have only : ∀ other ∈ records, other.path = record.path → other = record :=
        fun other ho h => List.inj_on_of_nodup_map admitted.distinct ho hr h
      dsimp only
      split
      · rename_i repealed
        obtain ⟨noBody, leaf⟩ := admitted.repealed record hr repealed
        refine iff_of_false (by simp) ?_
        rintro ⟨other, ho, covers, live⟩
        obtain rfl := only other ho (leaf other ho covers)
        rcases live with body | ⟨-, current, -⟩
        · simp [noBody] at body
        · simp [repealed] at current
      · rename_i current
        split
        · rename_i body
          exact iff_of_true rfl ⟨record, hr, List.prefix_rfl, .inl body⟩
        · rename_i noBody
          refine admitted.contributes_below_iff below occupied ?_ children
          intro other ho h
          obtain rfl := only other ho h
          exact ⟨by simpa using noBody, by simpa using current⟩

end Admitted

/-! ## The visit -/

/-- The text of the subtree at `path`: its shallowest body-bearing records. -/
def coverBelow (records : List StoredRecord) (path : CitationPath) : List StoredRecord :=
  shallowest StoredRecord.path (bodiesBelow records path)

/-- Every current bodyless leaf below `path` has a body-bearing record above it. -/
def Covered (records : List StoredRecord) (path : CitationPath) : Prop :=
  ∀ record ∈ records, path <+: record.path → BodylessLeaf records record →
    ∃ other ∈ bodiesBelow records path, other.path <+: record.path

theorem coverBelow_nodup {records : List StoredRecord} (distinct : records.Nodup)
    (path : CitationPath) : (coverBelow records path).Nodup :=
  (distinct.filter _).filter _

theorem sortedChildren_perm (records : List StoredRecord) (childPaths : List CitationPath) :
    (sortedChildren records childPaths).Perm childPaths :=
  List.perm_insertionSort _ _

namespace Admitted

variable {citationPath : CitationPath} {records : List StoredRecord} {index : CompositionIndex}

theorem records_nodup (admitted : Admitted citationPath records index) : records.Nodup :=
  admitted.distinct.of_map _

theorem coverBelow_eq_nil (none_ : ¬ Contributing records path) : coverBelow records path = [] := by
  refine List.eq_nil_iff_forall_not_mem.mpr fun record hr => none_ ?_
  obtain ⟨member, body, covers⟩ := mem_bodiesBelow.mp (mem_shallowest _ |>.mp hr).1
  exact ⟨record, member, covers, .inl body⟩

theorem covered_of_not_contributing (none_ : ¬ Contributing records path) : Covered records path :=
  fun record hr covers leaf => absurd ⟨record, hr, covers, .inr leaf⟩ none_

variable (admitted : Admitted citationPath records index)

include admitted

/-- A body-bearing record is the whole cover of its subtree. -/
theorem coverBelow_self (hr : record ∈ records) (body : record.hasBody = true) :
    (coverBelow records record.path).Perm [record] := by
  refine (List.perm_ext_iff_of_nodup (coverBelow_nodup admitted.records_nodup _)
    (List.nodup_singleton _)).mpr fun x => ?_
  rw [List.mem_singleton, coverBelow, mem_shallowest, mem_bodiesBelow]
  constructor
  · rintro ⟨⟨hx, -, covers⟩, least⟩
    have same := least record (mem_bodiesBelow.mpr ⟨hr, body, List.prefix_rfl⟩) covers
    exact List.inj_on_of_nodup_map admitted.distinct hx hr same.symm
  · rintro rfl
    refine ⟨⟨hr, body, List.prefix_rfl⟩, fun y hy covers => ?_⟩
    exact covers.eq_of_length_le (mem_bodiesBelow.mp hy).2.2.length_le

/-- Below a bodyless node the cover is the covers of its contributing children. -/
theorem mem_coverBelow_iff_child (below : citationPath <+: path)
    (bodyless : ∀ record ∈ records, record.path = path → record.hasBody = false) :
    record ∈ coverBelow records path ↔
      ∃ child ∈ index.childPaths path, Contributing records child ∧
        record ∈ coverBelow records child := by
  simp only [coverBelow, mem_shallowest, mem_bodiesBelow]
  have proper : ∀ r ∈ records, r.hasBody = true → r.path ≠ path := by
    intro r hr body here
    simp [bodyless r hr here] at body
  constructor
  · rintro ⟨⟨hr, body, covers⟩, least⟩
    obtain ⟨child, hc, towards⟩ := admitted.exists_child below hr covers (proper record hr body)
    refine ⟨child, hc, ⟨record, hr, towards, .inl body⟩, ⟨hr, body, towards⟩, ?_⟩
    rintro y ⟨hy, bodyY, coversY⟩
    exact least y ⟨hy, bodyY, (admitted.child_below hc).1.trans coversY⟩
  · rintro ⟨child, hc, -, ⟨hr, body, towards⟩, least⟩
    refine ⟨⟨hr, body, (admitted.child_below hc).1.trans towards⟩, ?_⟩
    rintro y ⟨hy, bodyY, coversY⟩ above
    obtain ⟨other, ho, towardsY⟩ := admitted.exists_child below hy coversY (proper y hy bodyY)
    obtain ⟨⟨s, rfl⟩, -⟩ := (admitted.edges _ _).mp hc
    obtain ⟨⟨t, rfl⟩, -⟩ := (admitted.edges _ _).mp ho
    refine least y ⟨hy, bodyY, ?_⟩ above
    rw [child_unique towards (towardsY.trans above)]
    exact towardsY

theorem flatMap_coverBelow_nodup {children : List CitationPath} (nodup : children.Nodup)
    (inside : ∀ child ∈ children, child ∈ index.childPaths path) :
    (children.flatMap (coverBelow records)).Nodup := by
  refine List.nodup_flatMap.mpr
    ⟨fun child _ => coverBelow_nodup admitted.records_nodup child, ?_⟩
  refine nodup.pairwise_of_forall_ne fun c hc d hd ne => ?_
  intro record hrc hrd
  obtain ⟨⟨s, rfl⟩, -⟩ := (admitted.edges _ _).mp (inside c hc)
  obtain ⟨⟨t, rfl⟩, -⟩ := (admitted.edges _ _).mp (inside d hd)
  exact ne (child_unique (mem_bodiesBelow.mp ((mem_shallowest _).mp hrc).1).2.2
    (mem_bodiesBelow.mp ((mem_shallowest _).mp hrd).1).2.2)

/-- Coverage below a bodyless branching node is coverage below its contributing
children. -/
theorem covered_iff_child (below : citationPath <+: path)
    (bodyless : ∀ record ∈ records, record.path = path → record.hasBody = false)
    (branching : index.childPaths path ≠ []) :
    Covered records path ↔
      ∀ child ∈ index.childPaths path, Contributing records child → Covered records child := by
  constructor
  · intro covered child hc _ record hr towards leaf
    obtain ⟨other, ho, above⟩ :=
      covered record hr ((admitted.child_below hc).1.trans towards) leaf
    obtain ⟨member, body, covers⟩ := mem_bodiesBelow.mp ho
    have proper : other.path ≠ path := by
      intro here
      simp [bodyless other member here] at body
    obtain ⟨third, ht, towardsOther⟩ := admitted.exists_child below member covers proper
    obtain ⟨⟨s, rfl⟩, -⟩ := (admitted.edges _ _).mp hc
    obtain ⟨⟨t, rfl⟩, -⟩ := (admitted.edges _ _).mp ht
    refine ⟨other, mem_bodiesBelow.mpr ⟨member, body, ?_⟩, above⟩
    rw [child_unique towards (towardsOther.trans above)]
    exact towardsOther
  · intro each record hr covers leaf
    have proper : record.path ≠ path := by
      rintro rfl
      exact branching (admitted.childPaths_nil_of_leaf leaf.2.2)
    obtain ⟨child, hc, towards⟩ := admitted.exists_child below hr covers proper
    obtain ⟨other, ho, above⟩ :=
      each child hc ⟨record, hr, towards, .inr leaf⟩ record hr towards leaf
    obtain ⟨member, body, coversOther⟩ := mem_bodiesBelow.mp ho
    exact ⟨other, mem_bodiesBelow.mpr
      ⟨member, body, (admitted.child_below hc).1.trans coversOther⟩, above⟩

/-- What one visit does: it succeeds exactly on covered subtrees, and then with
their cover. -/
def VisitsExactly (records : List StoredRecord) (path : CitationPath)
    (visited : Except ComposeError (List StoredRecord)) : Prop :=
  (∀ ordered, visited = .ok ordered →
      ordered.Perm (coverBelow records path) ∧ Covered records path) ∧
    (Covered records path → ∃ ordered, visited = .ok ordered)

theorem visit_below_exactly (below : citationPath <+: path)
    (occupied : ∃ record ∈ records, path <+: record.path)
    (bodyless : ∀ record ∈ records, record.path = path →
      record.hasBody = false ∧ record.repealed = false)
    (children : ∀ child ∈ index.childPaths path,
      VisitsExactly records child
        (visit citationPath records index
          (contributesCurrentText records index (visitBound records)) bound child)) :
    VisitsExactly records path
      (visitBelow citationPath records index
        (contributesCurrentText records index (visitBound records))
        (visit citationPath records index
          (contributesCurrentText records index (visitBound records)) bound) path) := by
  have noBody := fun r hr h => (bodyless r hr h).1
  have contributes : ∀ child ∈ index.childPaths path,
      (contributesCurrentText records index (visitBound records) child = true ↔
        Contributing records child) := fun child hc =>
    admitted.contributesCurrentText_iff (deep_visitBound records child)
      (admitted.child_below hc).2.1 (admitted.child_occupied hc)
  have kept : ∀ child, child ∈ (index.childPaths path).filter
      (contributesCurrentText records index (visitBound records)) ↔
        child ∈ index.childPaths path ∧ Contributing records child := by
    intro child
    rw [List.mem_filter]
    exact and_congr_right fun hc => contributes child hc
  simp only [visitBelow]
  split
  · rename_i pruned
    simp only [Bool.and_eq_true, Bool.not_eq_true', List.isEmpty_eq_false_iff,
      List.isEmpty_iff] at pruned
    have none_ : ¬ Contributing records path := by
      rw [admitted.contributing_iff_child below noBody pruned.1]
      rintro ⟨child, hc, live⟩
      have := (kept child).mpr ⟨hc, live⟩
      simp [pruned.2] at this
    refine ⟨fun ordered done => ?_, fun _ => ⟨[], rfl⟩⟩
    cases Except.ok.inj done
    rw [coverBelow_eq_nil none_]
    exact ⟨.nil, covered_of_not_contributing none_⟩
  · rename_i notPruned
    split
    · rename_i empty
      have childless : index.childPaths path = [] := by
        by_contra branching
        exact notPruned (by simp [branching, empty])
      refine ⟨fun ordered done => (nomatch done), fun covered => ?_⟩
      -- a bodyless leaf here would need a body at its own path
      have leaf := admitted.leaf_of_childPaths_nil below childless
      obtain ⟨record, hr, covers⟩ := occupied
      have here := leaf record hr covers
      have uncovered : BodylessLeaf records record := by
        refine ⟨(bodyless record hr here).1, (bodyless record hr here).2, ?_⟩
        intro other ho above
        rw [here] at above ⊢
        exact leaf other ho above
      obtain ⟨other, ho, -⟩ := covered record hr covers uncovered
      obtain ⟨member, body, above⟩ := mem_bodiesBelow.mp ho
      simp [noBody other member (leaf other member above)] at body
    · rename_i occupiedChildren
      have branching : index.childPaths path ≠ [] := by
        intro childless
        simp [childless] at occupiedChildren
      have chosen_nodup := (CompositionIndex.childPaths_nodup admitted.nodup path).filter
        (contributesCurrentText records index (visitBound records))
      generalize (index.childPaths path).filter
        (contributesCurrentText records index (visitBound records)) = chosen at kept chosen_nodup ⊢
      have perm := sortedChildren_perm records chosen
      have inside : ∀ child ∈ sortedChildren records chosen,
          child ∈ index.childPaths path ∧ Contributing records child := fun child hc =>
        (kept child).mp (perm.mem_iff.mp hc)
      have covered_iff := admitted.covered_iff_child below noBody branching
      refine ⟨fun ordered done => ?_, fun covered => ?_⟩
      · obtain ⟨parts, mapped, last⟩ := bind_eq_ok_iff.mp done
        cases Except.ok.inj last
        have flat := mapM_flatten_perm (g := coverBelow records) mapped fun child hc part visited =>
          ((children child (inside child hc).1).1 part visited).1
        refine ⟨flat.trans ((perm.flatMap_right _).trans ?_), covered_iff.mpr ?_⟩
        · refine (List.perm_ext_iff_of_nodup (admitted.flatMap_coverBelow_nodup chosen_nodup
            fun child hc => ((kept child).mp hc).1)
            (coverBelow_nodup admitted.records_nodup path)).mpr fun record => ?_
          rw [admitted.mem_coverBelow_iff_child below noBody, List.mem_flatMap]
          simp only [kept, and_assoc]
        · intro child hc live
          obtain ⟨part, visited⟩ :=
            eq_ok_of_mapM mapped child (perm.mem_iff.mpr ((kept child).mpr ⟨hc, live⟩))
          exact ((children child hc).1 part visited).2
      · have each : ∀ child ∈ sortedChildren records chosen, ∃ part,
            visit citationPath records index
              (contributesCurrentText records index (visitBound records)) bound child =
                .ok part :=
          fun child hc => (children child (inside child hc).1).2
            (covered_iff.mp covered child (inside child hc).1 (inside child hc).2)
        obtain ⟨parts, mapped⟩ := exists_mapM_eq_ok each
        exact ⟨parts.flatten, bind_eq_ok_iff.mpr ⟨parts, mapped, rfl⟩⟩

/-- **One visit is the exact cover of its subtree.** -/
theorem visit_exactly :
    ∀ {bound : Nat} {path : CitationPath}, Deep records path bound → citationPath <+: path →
      (∃ record ∈ records, path <+: record.path) →
      VisitsExactly records path
        (visit citationPath records index
          (contributesCurrentText records index (visitBound records)) bound path) := by
  intro bound
  induction bound with
  | zero => exact fun deep _ occupied => absurd rfl (bound_pos deep occupied)
  | succ bound ih =>
    intro path deep below occupied
    have children : ∀ child ∈ index.childPaths path, VisitsExactly records child
        (visit citationPath records index
          (contributesCurrentText records index (visitBound records)) bound child) :=
      fun child hc => ih (admitted.child_deep deep hc) (admitted.child_below hc).2.1
        (admitted.child_occupied hc)
    simp only [visit]
    cases found : recordAt records path with
    | none =>
      have absent := recordAt_eq_none_iff.mp found
      exact admitted.visit_below_exactly below occupied
        (fun record hr h => absurd h (absent record hr)) children
    | some record =>
      obtain ⟨hr, rfl⟩ := (recordAt_eq_some_iff admitted.distinct).mp found
      have only : ∀ other ∈ records, other.path = record.path → other = record :=
        fun other ho h => List.inj_on_of_nodup_map admitted.distinct ho hr h
      dsimp only
      split
      · rename_i repealed
        obtain ⟨noBody, leaf⟩ := admitted.repealed record hr repealed
        have none_ : ¬ Contributing records record.path := by
          rintro ⟨other, ho, covers, live⟩
          obtain rfl := only other ho (leaf other ho covers)
          rcases live with body | ⟨-, current, -⟩
          · simp [noBody] at body
          · simp [repealed] at current
        refine ⟨fun ordered done => ?_, fun _ => ⟨[], rfl⟩⟩
        cases Except.ok.inj done
        rw [coverBelow_eq_nil none_]
        exact ⟨.nil, covered_of_not_contributing none_⟩
      · rename_i current
        split
        · rename_i body
          refine ⟨fun ordered done => ?_, fun _ => ⟨[record], rfl⟩⟩
          cases Except.ok.inj done
          refine ⟨(admitted.coverBelow_self hr body).symm, fun other ho covers _ => ?_⟩
          exact ⟨record, mem_bodiesBelow.mpr ⟨hr, body, List.prefix_rfl⟩, covers⟩
        · rename_i noBody
          refine admitted.visit_below_exactly below occupied ?_ children
          intro other ho h
          obtain rfl := only other ho h
          exact ⟨by simpa using noBody, by simpa using current⟩

end Admitted

/-! ## The whole composition -/

/-- Bytes of the composed text, whatever the order of its chunks. -/
def composedBytes (records : List StoredRecord) : Nat :=
  (records.map fun record => utf8Length record.chunk).sum + 2 * (records.length - 1)

theorem joinChunks_eq {records : List StoredRecord} {chunks : List Text}
    (joined : joinChunks records start = .ok chunks) :
    chunks = records.map StoredRecord.chunk := by
  induction records generalizing start chunks with
  | nil => exact (Except.ok.inj joined).symm
  | cons record rest ih =>
    simp only [joinChunks] at joined
    split at joined
    · cases joined
    · obtain ⟨tail, more, last⟩ := bind_eq_ok_iff.mp joined
      rw [← Except.ok.inj last, ih more]
      rfl

theorem exists_joinChunks_iff {rest : List StoredRecord} :
    (∃ chunks, joinChunks (record :: rest) start = .ok chunks) ↔
      start + composedBytes (record :: rest) ≤ maxComposedCorpusBytes := by
  induction rest generalizing record start with
  | nil =>
    simp only [joinChunks, composedBytes, List.map_cons, List.map_nil, List.sum_cons,
      List.sum_nil, List.length_singleton]
    split
    · rename_i long
      refine iff_of_false (by simp) (by omega)
    · rename_i fits
      exact iff_of_true ⟨_, rfl⟩ (by omega)
  | cons next rest ih =>
    rw [joinChunks]
    split
    · rename_i long
      refine iff_of_false (by simp) ?_
      simp only [composedBytes, List.map_cons, List.sum_cons]
      omega
    · rename_i fits
      have tail := @ih next (start + utf8Length record.chunk + 2)
      have total : start + composedBytes (record :: next :: rest) =
          start + utf8Length record.chunk + 2 + composedBytes (next :: rest) := by
        simp only [composedBytes, List.map_cons, List.sum_cons, List.length_cons]
        omega
      rw [total, ← tail]
      constructor
      · rintro ⟨chunks, joined⟩
        obtain ⟨more, hm, -⟩ := bind_eq_ok_iff.mp joined
        exact ⟨more, hm⟩
      · rintro ⟨more, hm⟩
        exact ⟨record.chunk :: more, bind_eq_ok_iff.mpr ⟨more, hm, rfl⟩⟩

theorem composedBytes_perm {first second : List StoredRecord} (perm : first.Perm second) :
    composedBytes first = composedBytes second := by
  rw [composedBytes, composedBytes, (perm.map _).sum_eq, perm.length_eq]

theorem ambiguous_none_iff {records : List StoredRecord} :
    (records.find? fun record => decide (1 < (recordsAt records record.path).length)) = none ↔
      (records.map StoredRecord.path).Nodup := by
  have count : ∀ path, (records.map StoredRecord.path).count path =
      (recordsAt records path).length := by
    intro path
    rw [recordsAt, ← List.countP_eq_length_filter, List.count_eq_countP, List.countP_map]
    exact List.countP_congr fun record _ => by simp
  rw [List.find?_eq_none, List.nodup_iff_count_le_one]
  constructor
  · intro single path
    by_cases member : path ∈ records.map StoredRecord.path
    · obtain ⟨record, hr, rfl⟩ := List.mem_map.mp member
      have := single record hr
      rw [count]
      simpa using this
    · rw [List.count_eq_zero_of_not_mem member]
      exact Nat.zero_le 1
  · intro single record hr
    have := single record.path
    rw [count] at this
    simpa using this

/-- The checks of the composition, passed one by one, and what the visit gave. -/
structure Composed (citationPath : CitationPath) (records : List StoredRecord)
    (expectedScope : ReleaseScope) (index : CompositionIndex) (ordered : List StoredRecord) :
    Prop where
  scopes : ∀ record ∈ records, record.row.scope = expectedScope
  body : ∃ record ∈ records, record.hasBody = true
  admitted : Admitted citationPath records index
  built : buildIndex citationPath records = .ok index
  visited : visit citationPath records index
    (contributesCurrentText records index (visitBound records)) (visitBound records)
    citationPath = .ok ordered
  nonempty : ordered ≠ []
  fits : composedBytes ordered ≤ maxComposedCorpusBytes

theorem admitted_of_buildIndex {citationPath : CitationPath} {records : List StoredRecord}
    {index : CompositionIndex} (built : buildIndex citationPath records = .ok index)
    (distinct : (records.map StoredRecord.path).Nodup)
    (repealed : ∀ record ∈ records, record.repealed = true →
      record.hasBody = false ∧ IsLeaf records record) :
    Admitted citationPath records index :=
  { distinct, repealed
    edges := buildIndex_edges built
    nodup := (buildIndex_counts built).nodup
    under := buildIndex_under built }

theorem childless_iff_isLeaf {citationPath : CitationPath} {records : List StoredRecord}
    {index : CompositionIndex} (built : buildIndex citationPath records = .ok index)
    (hr : record ∈ records) :
    (index.childPaths record.path).isEmpty = true ↔ IsLeaf records record := by
  have edges := buildIndex_edges built
  rw [List.isEmpty_iff]
  constructor
  · intro childless other ho covers
    by_contra ne
    obtain ⟨s, hs⟩ := exists_child_prefix covers (Ne.symm ne)
    have : record.path ++ [s] ∈ index.childPaths record.path :=
      (edges _ _).mpr ⟨⟨s, rfl⟩, (buildIndex_under built record hr).1, other, ho, hs⟩
    simp [childless] at this
  · intro leaf
    refine List.eq_nil_iff_forall_not_mem.mpr fun child hc => ?_
    obtain ⟨⟨s, rfl⟩, -, other, ho, covers⟩ := (edges _ _).mp hc
    rw [leaf other ho (prefix_append_singleton covers)] at covers
    exact not_child_prefix_self covers

theorem malformedRepealed_none_iff {citationPath : CitationPath} {records : List StoredRecord}
    {index : CompositionIndex} (built : buildIndex citationPath records = .ok index) :
    (records.find? fun record =>
      record.repealed && (record.hasBody || !(index.childPaths record.path).isEmpty)) = none ↔
      ∀ record ∈ records, record.repealed = true →
        record.hasBody = false ∧ IsLeaf records record := by
  rw [List.find?_eq_none]
  refine forall_congr' fun record => forall_congr' fun hr => ?_
  rw [← childless_iff_isLeaf built hr]
  cases record.repealed <;> cases record.hasBody <;>
    cases (index.childPaths record.path).isEmpty <;> simp

/-- **A composition succeeds exactly when its checks pass**, with the chunks and
rows of what the visit returned. -/
theorem composeDescendantText_eq_ok_iff {citationPath : CitationPath}
    {records : List StoredRecord} {text : Text} {rows : List CorpusRowIdentity} :
    composeDescendantText citationPath records expectedScope = .ok (text, rows) ↔
      ∃ index ordered, Composed citationPath records expectedScope index ordered ∧
        text = List.intercalate "\n\n".toList (ordered.map StoredRecord.chunk) ∧
        rows = ordered.map StoredRecord.row := by
  have joined : ∀ ordered : List StoredRecord, ordered ≠ [] →
      ((∃ chunks, joinChunks ordered 0 = .ok chunks) ↔
        composedBytes ordered ≤ maxComposedCorpusBytes) := by
    intro ordered nonempty
    cases ordered with
    | nil => exact absurd rfl nonempty
    | cons record rest => rw [exists_joinChunks_iff, Nat.zero_add]
  simp only [composeDescendantText, bind_eq_ok_iff, require_eq_ok_iff, refuse_eq_ok_iff,
    exists_and_left, Bool.not_eq_true', List.isEmpty_eq_false_iff, List.all_eq_true,
    decide_eq_true_eq, List.any_eq_true, exists_const]
  constructor
  · rintro ⟨occupied, scopes, single, body, index, built, clean, ordered, visited, nonempty,
      chunks, joinOk, last⟩
    cases Except.ok.inj last
    have distinct := ambiguous_none_iff.mp single
    have repealed := (malformedRepealed_none_iff built).mp clean
    refine ⟨index, ordered, ⟨scopes, body, admitted_of_buildIndex built distinct repealed, built,
      visited, nonempty, (joined ordered nonempty).mp ⟨chunks, joinOk⟩⟩, ?_, rfl⟩
    rw [joinChunks_eq joinOk]
  · rintro ⟨index, ordered, composed, rfl, rfl⟩
    obtain ⟨chunks, joinOk⟩ := (joined ordered composed.nonempty).mpr composed.fits
    obtain ⟨record, hr, -⟩ := composed.body
    refine ⟨List.ne_nil_of_mem hr, composed.scopes,
      ambiguous_none_iff.mpr composed.admitted.distinct, composed.body, index, composed.built,
      (malformedRepealed_none_iff composed.built).mpr composed.admitted.repealed, ordered,
      composed.visited, composed.nonempty, chunks, joinOk, ?_⟩
    rw [joinChunks_eq joinOk]
    rfl

/-- The rows of a composition are the shallowest body-bearing records, and every
current bodyless leaf lies below one. -/
theorem Composed.cover {citationPath : CitationPath} {records : List StoredRecord}
    {index : CompositionIndex} {ordered : List StoredRecord}
    (composed : Composed citationPath records expectedScope index ordered) :
    ordered.Perm (coverBelow records citationPath) ∧ Covered records citationPath := by
  obtain ⟨record, hr, -⟩ := composed.body
  exact (composed.admitted.visit_exactly (deep_visitBound records citationPath) List.prefix_rfl
    ⟨record, hr, (composed.admitted.under record hr).1⟩).1 ordered composed.visited

/-- What a list of descendants must satisfy to be composed. -/
structure Composable (citationPath : CitationPath) (records : List StoredRecord)
    (expectedScope : ReleaseScope) : Prop where
  under : ∀ record ∈ records, citationPath <+: record.path ∧ citationPath ≠ record.path
  repealed : ∀ record ∈ records, record.repealed = true →
    record.hasBody = false ∧ IsLeaf records record
  distinct : (records.map StoredRecord.path).Nodup
  scopes : ∀ record ∈ records, record.row.scope = expectedScope
  body : ∃ record ∈ records, record.hasBody = true
  covered : ∀ record ∈ records, BodylessLeaf records record →
    ∃ other ∈ records, other.hasBody = true ∧ other.path <+: record.path
  trie : WithinTrieLimits citationPath records
  bytes : composedBytes (shallowest StoredRecord.path (records.filter StoredRecord.hasBody)) ≤
    maxComposedCorpusBytes

theorem coverBelow_root {citationPath : CitationPath} {records : List StoredRecord}
    (under : ∀ record ∈ records, citationPath <+: record.path ∧ citationPath ≠ record.path) :
    coverBelow records citationPath =
      shallowest StoredRecord.path (records.filter StoredRecord.hasBody) := by
  have same : bodiesBelow records citationPath = records.filter StoredRecord.hasBody := by
    refine List.filter_congr fun record hr => ?_
    simp [(under record hr).1]
  rw [coverBelow, same]

theorem covered_root_iff {citationPath : CitationPath} {records : List StoredRecord}
    (under : ∀ record ∈ records, citationPath <+: record.path ∧ citationPath ≠ record.path) :
    Covered records citationPath ↔ ∀ record ∈ records, BodylessLeaf records record →
      ∃ other ∈ records, other.hasBody = true ∧ other.path <+: record.path := by
  constructor
  · intro covered record hr leaf
    obtain ⟨other, ho, above⟩ := covered record hr (under record hr).1 leaf
    obtain ⟨member, body, -⟩ := mem_bodiesBelow.mp ho
    exact ⟨other, member, body, above⟩
  · intro covered record hr _ leaf
    obtain ⟨other, member, body, above⟩ := covered record hr leaf
    exact ⟨other, mem_bodiesBelow.mpr ⟨member, body, (under other member).1⟩, above⟩

/-- **Composition succeeds exactly on composable lists.** -/
theorem exists_composed_iff {citationPath : CitationPath} {records : List StoredRecord} :
    (∃ index ordered, Composed citationPath records expectedScope index ordered) ↔
      Composable citationPath records expectedScope := by
  constructor
  · rintro ⟨index, ordered, composed⟩
    have under := composed.admitted.under
    obtain ⟨cover, covered⟩ := composed.cover
    obtain ⟨record, hr, -⟩ := composed.body
    refine ⟨under, composed.admitted.repealed, composed.admitted.distinct, composed.scopes,
      composed.body, (covered_root_iff under).mp covered,
      withinTrieLimits_of_buildIndex (List.ne_nil_of_mem hr) composed.built, ?_⟩
    rw [← coverBelow_root under, ← composedBytes_perm cover]
    exact composed.fits
  · intro composable
    have under := composable.under
    obtain ⟨index, built⟩ := exists_buildIndex under composable.trie
    have admitted := admitted_of_buildIndex built composable.distinct composable.repealed
    obtain ⟨record, hr, body⟩ := composable.body
    have exactly_ := admitted.visit_exactly (deep_visitBound records citationPath)
      List.prefix_rfl ⟨record, hr, (under record hr).1⟩
    obtain ⟨ordered, visited⟩ := exactly_.2 ((covered_root_iff under).mpr composable.covered)
    have cover := (exactly_.1 ordered visited).1
    rw [coverBelow_root under] at cover
    refine ⟨index, ordered, composable.scopes, composable.body, admitted, built, visited, ?_, ?_⟩
    · obtain ⟨least, hl, -⟩ := exists_shallowest_prefix StoredRecord.path
        (List.mem_filter.mpr ⟨hr, body⟩)
      exact List.ne_nil_of_mem (cover.mem_iff.mpr hl)
    · rw [composedBytes_perm cover]
      exact composable.bytes

/-- The exact cover: the composed rows are an antichain of paths that accounts
for every body and every current bodyless leaf, and their chunks are the text;
and a composable list is composed. -/
theorem composeDescendantText_exact_cover (citationPath : CitationPath)
    (records : List StoredRecord) (expectedScope : ReleaseScope) :
    (∀ text rows, composeDescendantText citationPath records expectedScope = .ok (text, rows) →
      ∃ ordered : List StoredRecord,
        rows = ordered.map StoredRecord.row ∧
        text = List.intercalate "\n\n".toList (ordered.map StoredRecord.chunk) ∧
        rows.Pairwise (fun r s => ¬ r.citationPath <+: s.citationPath ∧
          ¬ s.citationPath <+: r.citationPath) ∧
        (∀ record ∈ ordered, record ∈ records ∧ record.hasBody = true ∧
          record.repealed = false) ∧
        (∀ record ∈ records, record.hasBody = true → record ∈ ordered ∨
          ∃ above ∈ ordered, above.path <+: record.path ∧ above.path ≠ record.path) ∧
        (∀ record ∈ records, BodylessLeaf records record →
          ∃ above ∈ ordered, above.path <+: record.path ∧ above.path ≠ record.path)) ∧
    (Composable citationPath records expectedScope →
      ∃ text rows, composeDescendantText citationPath records expectedScope =
        .ok (text, rows)) := by
  constructor
  · intro text rows done
    obtain ⟨index, ordered, composed, rfl, rfl⟩ := composeDescendantText_eq_ok_iff.mp done
    obtain ⟨cover, covered⟩ := composed.cover
    have distinct := composed.admitted.distinct
    have member : ∀ record ∈ ordered, record ∈ records ∧ record.hasBody = true := by
      intro record hr
      obtain ⟨inside, -⟩ := (mem_shallowest _).mp (cover.mem_iff.mp hr)
      exact ⟨(mem_bodiesBelow.mp inside).1, (mem_bodiesBelow.mp inside).2.1⟩
    have same_of_isPrefix : ∀ r ∈ ordered, ∀ s ∈ ordered, r.path <+: s.path → r = s := by
      intro r hr s hs covers
      have := shallowest_antichain _ (cover.mem_iff.mp hr) (cover.mem_iff.mp hs) covers
      exact List.inj_on_of_nodup_map distinct (member r hr).1 (member s hs).1 this
    -- a body has a row at or above it; the row is the record itself or properly above
    have above : ∀ record ∈ bodiesBelow records citationPath,
        ∃ least ∈ ordered, least.path <+: record.path := by
      intro record hr
      obtain ⟨least, hl, covers⟩ := exists_shallowest_prefix StoredRecord.path hr
      exact ⟨least, cover.mem_iff.mpr hl, covers⟩
    refine ⟨ordered, rfl, rfl, ?_, ?_, ?_, ?_⟩
    · rw [List.pairwise_map]
      have nodup : ordered.Nodup :=
        cover.nodup_iff.mpr (coverBelow_nodup composed.admitted.records_nodup _)
      exact nodup.pairwise_of_forall_ne fun r hr s hs ne =>
        ⟨fun covers => ne (same_of_isPrefix r hr s hs covers),
          fun covers => ne (same_of_isPrefix s hs r hr covers).symm⟩
    · intro record hr
      obtain ⟨hm, body⟩ := member record hr
      refine ⟨hm, body, Bool.eq_false_iff.mpr fun repealed => ?_⟩
      rw [(composed.admitted.repealed record hm repealed).1] at body
      cases body
    · intro record hr body
      obtain ⟨least, hl, covers⟩ := above record
        (mem_bodiesBelow.mpr ⟨hr, body, (composed.admitted.under record hr).1⟩)
      by_cases same : least.path = record.path
      · exact .inl (List.inj_on_of_nodup_map distinct (member least hl).1 hr same ▸ hl)
      · exact .inr ⟨least, hl, covers, same⟩
    · intro record hr leaf
      obtain ⟨other, ho, covers⟩ := covered record hr (composed.admitted.under record hr).1 leaf
      obtain ⟨least, hl, covers'⟩ := above other ho
      refine ⟨least, hl, covers'.trans covers, fun same => ?_⟩
      have := List.inj_on_of_nodup_map distinct (member least hl).1 hr same
      have body := (member least hl).2
      rw [this, leaf.1] at body
      cases body
  · intro composable
    obtain ⟨index, ordered, composed⟩ := exists_composed_iff.mpr composable
    exact ⟨_, _, composeDescendantText_eq_ok_iff.mpr ⟨index, ordered, composed, rfl, rfl⟩⟩

/-- `us/statute/26/1`. -/
def sectionPath : CitationPath :=
  [⟨"us".toList, by decide⟩, ⟨"statute".toList, by decide⟩, ⟨"26".toList, by decide⟩,
    ⟨"1".toList, by decide⟩]

/-- A section of `us/statute/26` below ten with a body. -/
def sectionRecord (number : Fin 10) (body : String) : StoredRecord where
  row :=
    { provisionFile := "data/corpus/provisions/us/statute/2026.jsonl".toList
      provisionFileSha256 := "", lineNumber := number, recordId := "r".toList
      citationPath := sectionPath.dropLast ++
        [⟨[Char.ofNat (48 + number)], by revert number; decide⟩]
      jurisdiction := "us".toList, documentClass := "statute".toList, version := "2026".toList
      sourcePath := none, sourceAsOf := none, expressionDate := none, bodySha256 := none }
  body := some body.toList
  heading := none
  repealed := false
  level := none
  ordinal := none
  fileSha256 := ""
  sourceHistory := []

theorem composeDescendantText_two_sections :
    ∃ text rows, composeDescendantText sectionPath.dropLast
      [sectionRecord 1 "One.", sectionRecord 2 "Two."] (sectionRecord 1 "One.").row.scope =
        .ok (text, rows) := by
  exact (composeDescendantText_exact_cover _ _ _).2
    ⟨by decide, by decide, by decide, by decide,
      by decide, by decide, ⟨by decide, by decide⟩,
      by decide⟩

end AxiomEncode.Corpus
