/-
# Corpus.ComposeIndex -- what the trie of descendants holds

`buildIndex` enters one chain after another under two limits.  Its edges are
exactly the one-step extensions of the parent towards some record
(`buildIndex_edges`), each once, and it succeeds exactly when every record lies
below the parent and the finished trie keeps to the limits
(`exists_buildIndex_iff`): the counters only grow.
-/
import AxiomEncode.Corpus.Compose
import AxiomEncode.Theory.PathCover
import Mathlib.Data.List.Dedup
import Mathlib.Algebra.Order.BigOperators.Group.List
import Mathlib.Algebra.Order.Group.Nat

namespace AxiomEncode.Corpus

open Theory

set_option autoImplicit false

/-- A node of the trie: an extension of the parent on the way to a record. -/
def DescendantNode (citationPath : CitationPath) (records : List StoredRecord)
    (node : CitationPath) : Prop :=
  citationPath <+: node ∧ citationPath ≠ node ∧ ∃ record ∈ records, node <+: record.path

/-- Every node of the trie, once for each record below it. -/
def descendantChain (citationPath : CitationPath) (record : StoredRecord) : List CitationPath :=
  record.path.inits.filter fun node => citationPath <+: node ∧ citationPath ≠ node

/-- The nodes of the trie, without its root. -/
def descendantNodes (citationPath : CitationPath) (records : List StoredRecord) :
    List CitationPath :=
  (records.flatMap (descendantChain citationPath)).dedup

variable {records : List StoredRecord}

theorem mem_descendantNodes {citationPath node : CitationPath} :
    node ∈ descendantNodes citationPath records ↔ DescendantNode citationPath records node := by
  simp only [descendantNodes, List.mem_dedup, List.mem_flatMap, descendantChain,
    List.mem_filter, List.mem_inits, decide_eq_true_eq, DescendantNode]
  constructor
  · rintro ⟨record, hr, covers, below, ne⟩
    exact ⟨below, ne, record, hr, covers⟩
  · rintro ⟨below, ne, record, hr, covers⟩
    exact ⟨record, hr, covers, below, ne⟩

/-- The two limits on the finished trie. -/
def WithinTrieLimits (citationPath : CitationPath) (records : List StoredRecord) : Prop :=
  (descendantNodes citationPath records).length + 1 ≤ maxCompositionNodes ∧
    4 * utf8Length citationPath.text +
      ((descendantNodes citationPath records).map fun node => 4 * utf8Length node.text).sum ≤
        maxCompositionPrefixBytes

namespace CompositionIndex

variable {parent child : CitationPath}

theorem mem_childPaths {index : CompositionIndex} :
    child ∈ index.childPaths parent ↔ (parent, child) ∈ index.edges := by
  simp only [childPaths, List.mem_filterMap, Option.ite_none_right_eq_some, Option.some.injEq]
  constructor
  · rintro ⟨⟨p, c⟩, member, rfl, rfl⟩
    exact member
  · intro member
    exact ⟨_, member, rfl, rfl⟩

theorem childPaths_nodup {index : CompositionIndex} (nodup : index.edges.Nodup)
    (parent : CitationPath) : (index.childPaths parent).Nodup := by
  refine List.Nodup.filterMap ?_ nodup
  rintro ⟨p, c⟩ ⟨q, d⟩ e first second
  simp only [Option.mem_def, Option.ite_none_right_eq_some, Option.some.injEq] at first second
  rw [first.1, first.2, second.1, second.2]

/-- An index whose edges are one-step extensions into `reached`, each once, and
whose counters count them. -/
structure Counts (citationPath : CitationPath) (index : CompositionIndex)
    (reached : CitationPath → Prop) : Prop where
  mem_edges : ∀ parent child, (parent, child) ∈ index.edges ↔
    (∃ segment, child = parent ++ [segment]) ∧ citationPath <+: parent ∧ reached child
  nodup : index.edges.Nodup
  nodes : index.nodes = 1 + index.edges.length
  prefixBytes : index.prefixBytes = 4 * utf8Length citationPath.text +
    (index.edges.map fun edge => 4 * utf8Length edge.2.text).sum
  bounded : index.edges = [] ∨
    index.nodes ≤ maxCompositionNodes ∧ index.prefixBytes ≤ maxCompositionPrefixBytes

namespace Counts

variable {citationPath : CitationPath} {index : CompositionIndex}
  {reached reached' : CitationPath → Prop}

theorem congr (counts : Counts citationPath index reached)
    (same : ∀ node, reached node ↔ reached' node) : Counts citationPath index reached' :=
  { counts with mem_edges := fun p c => by rw [counts.mem_edges, same] }

/-- The children of the edges are distinct nodes. -/
theorem children_nodup (counts : Counts citationPath index reached) :
    (index.edges.map Prod.snd).Nodup := by
  refine counts.nodup.map_on ?_
  rintro ⟨p, c⟩ hp ⟨q, d⟩ hq (rfl : c = d)
  obtain ⟨⟨s, hs⟩, -, -⟩ := (counts.mem_edges p c).mp hp
  obtain ⟨⟨t, ht⟩, -, -⟩ := (counts.mem_edges q c).mp hq
  rw [(List.append_inj (hs.symm.trans ht) (by
    have := congrArg List.length (hs.symm.trans ht)
    simpa using this)).1]

/-- One more reached node: its edge is entered, or was there already. -/
theorem addChild (counts : Counts citationPath index reached) {index' : CompositionIndex}
    (extends_ : ∃ segment, child = parent ++ [segment]) (below : citationPath <+: parent)
    (added : index.addChild parent child = .ok index') :
    Counts citationPath index' fun node => reached node ∨ node = child := by
  have edge_of_child : ∀ p, (∃ segment, child = p ++ [segment]) → p = parent := by
    rintro p ⟨s, hs⟩
    obtain ⟨t, ht⟩ := extends_
    have same := hs.symm.trans ht
    have length := congrArg List.length same
    exact (List.append_inj same (by simpa using length)).1
  unfold CompositionIndex.addChild at added
  split at added
  · rename_i present
    cases Except.ok.inj added
    refine counts.congr fun node => ⟨.inl, ?_⟩
    rintro (h | rfl)
    · exact h
    · exact ((counts.mem_edges _ _).mp (mem_childPaths.mp present)).2.2
  · rename_i absent
    simp only at added
    split at added
    · cases added
    · rename_i nodesFit
      split at added
      · cases added
      · rename_i bytesFit
        cases Except.ok.inj added
        refine ⟨fun p c => ?_, ?_, ?_, ?_, .inr ⟨not_lt.mp nodesFit, not_lt.mp bytesFit⟩⟩
        · simp only [List.mem_append, List.mem_singleton, Prod.mk.injEq, counts.mem_edges]
          constructor
          · rintro (⟨ext, above, hit⟩ | ⟨rfl, rfl⟩)
            · exact ⟨ext, above, .inl hit⟩
            · exact ⟨extends_, below, .inr rfl⟩
          · rintro ⟨ext, above, hit | rfl⟩
            · exact .inl ⟨ext, above, hit⟩
            · exact .inr ⟨edge_of_child p ext, rfl⟩
        · refine counts.nodup.append (List.nodup_singleton _) ?_
          simpa using fun h => absent (mem_childPaths.mpr h)
        · simp [counts.nodes]
          omega
        · simp [counts.prefixBytes]
          omega

/-- A child that keeps the finished trie inside the limits is entered. -/
theorem exists_addChild (counts : Counts citationPath index reached)
    (limits : WithinTrieLimits citationPath records)
    (inside : ∀ node, reached node → DescendantNode citationPath records node)
    (extends_ : ∃ segment, child = parent ++ [segment]) (below : citationPath <+: parent)
    (node : DescendantNode citationPath records child) :
    ∃ index', index.addChild parent child = .ok index' := by
  unfold CompositionIndex.addChild
  split
  · exact ⟨index, rfl⟩
  · rename_i absent
    have fresh : (index.edges.map Prod.snd ++ [child]).Nodup := by
      refine counts.children_nodup.append (List.nodup_singleton _) ?_
      simp only [List.disjoint_singleton, List.mem_map, Prod.exists, exists_eq_right]
      rintro ⟨p, hp⟩
      obtain ⟨⟨s, hs⟩, -, hit⟩ := (counts.mem_edges p child).mp hp
      exact absent (mem_childPaths.mpr ((counts.mem_edges _ _).mpr ⟨extends_, below, hit⟩))
    have subset : (index.edges.map Prod.snd ++ [child]) ⊆
        descendantNodes citationPath records := by
      intro c hc
      rw [mem_descendantNodes]
      rcases List.mem_append.mp hc with hc | hc
      · obtain ⟨⟨p, c⟩, hp, rfl⟩ := List.mem_map.mp hc
        exact inside c ((counts.mem_edges p c).mp hp).2.2
      · rwa [List.mem_singleton.mp hc]
    have nodes : index.nodes + 1 ≤ maxCompositionNodes := by
      have := (List.subperm_of_subset fresh subset).length_le
      have bound := limits.1
      simp only [List.length_append, List.length_map, List.length_singleton] at this
      have := counts.nodes
      omega
    have bytes : index.prefixBytes + 4 * utf8Length child.text ≤ maxCompositionPrefixBytes := by
      obtain ⟨some_, perm, sub⟩ := List.subperm_of_subset fresh subset
      have total := (perm.map fun node => 4 * utf8Length (CitationPath.text node)).sum_eq
      have part := (sub.map fun node => 4 * utf8Length (CitationPath.text node)).sum_le_sum
        (fun _ _ => Nat.zero_le _)
      have bound := limits.2
      simp only [List.map_append, List.sum_append, List.map_cons, List.map_nil, List.sum_cons,
        List.sum_nil, List.map_map, Function.comp_def] at total
      have := counts.prefixBytes
      omega
    simp only
    rw [if_neg (Nat.not_lt.mpr nodes), if_neg (Nat.not_lt.mpr bytes)]
    exact ⟨_, rfl⟩

/-- A whole chain: everything on it below `parent` is reached. -/
theorem addChain :
    ∀ {rest : List Segment} {parent : CitationPath} {index index' : CompositionIndex}
      {reached : CitationPath → Prop}, Counts citationPath index reached →
      citationPath <+: parent → index.addChain parent rest = .ok index' →
      Counts citationPath index' fun node =>
        reached node ∨ parent <+: node ∧ parent ≠ node ∧ node <+: parent ++ rest
  | [], parent, index, _, reached, counts, below, added => by
    cases Except.ok.inj added
    refine counts.congr fun node => ⟨.inl, ?_⟩
    rintro (h | ⟨above, ne, covers⟩)
    · exact h
    · rw [List.append_nil] at covers
      exact absurd (above.eq_of_length_le covers.length_le) ne
  | segment :: rest, parent, index, index', reached, counts, below, added => by
    obtain ⟨middle, head, tail⟩ := bind_eq_ok_iff.mp added
    have first := counts.addChild ⟨segment, rfl⟩ below head
    have step := addChain first (below.trans (List.prefix_append _ _)) tail
    refine step.congr fun node => ?_
    constructor
    · rintro ((h | rfl) | ⟨above, ne, covers⟩)
      · exact .inl h
      · exact .inr ⟨List.prefix_append _ _, by simp, rest, by simp⟩
      · refine .inr ⟨prefix_append_singleton above, ?_, by simpa using covers⟩
        rintro rfl
        exact not_child_prefix_self above
    · rintro (h | ⟨above, ne, covers⟩)
      · exact .inl (.inl h)
      · obtain ⟨x, hx⟩ := exists_child_prefix above ne
        have towards : parent ++ [segment] <+: parent ++ segment :: rest := ⟨rest, by simp⟩
        rw [child_unique (hx.trans covers) towards] at hx
        by_cases same : node = parent ++ [segment]
        · exact .inl (.inr same)
        · exact .inr ⟨hx, fun h => same h.symm, by simpa using covers⟩

theorem exists_addChain (limits : WithinTrieLimits citationPath records) :
    ∀ {rest : List Segment} {parent : CitationPath} {index : CompositionIndex}
      {reached : CitationPath → Prop}, Counts citationPath index reached →
      (∀ node, reached node → DescendantNode citationPath records node) →
      citationPath <+: parent → (∃ record ∈ records, parent ++ rest <+: record.path) →
      ∃ index', index.addChain parent rest = .ok index'
  | [], _, index, _, _, _, _, _ => ⟨index, rfl⟩
  | segment :: rest, parent, index, reached, counts, inside, below, ⟨record, hr, covers⟩ => by
    have covers' : parent ++ [segment] ++ rest <+: record.path := by simpa using covers
    have node : DescendantNode citationPath records (parent ++ [segment]) := by
      refine ⟨below.trans (List.prefix_append _ _), ?_, record, hr,
        (List.prefix_append _ rest).trans covers'⟩
      rintro rfl
      exact not_child_prefix_self below
    obtain ⟨middle, head⟩ := counts.exists_addChild limits inside ⟨segment, rfl⟩ below node
    obtain ⟨index', tail⟩ := exists_addChain limits (counts.addChild ⟨segment, rfl⟩ below head)
      (by rintro n (h | rfl); exacts [inside n h, node])
      (below.trans (List.prefix_append _ _)) ⟨record, hr, covers'⟩
    exact ⟨index', bind_eq_ok_iff.mpr ⟨middle, head, tail⟩⟩

end Counts

end CompositionIndex

open CompositionIndex

section Build

variable {citationPath : CitationPath}

theorem counts_empty : Counts citationPath
    { edges := [], nodes := 1, prefixBytes := 4 * utf8Length citationPath.text }
    fun _ => False :=
  ⟨by simp, List.nodup_nil, rfl, by simp, .inl rfl⟩

/-- The fold of `buildIndex`, from any index on. -/
theorem foldlM_counts :
    ∀ {records seen : List StoredRecord} {index index' : CompositionIndex},
      Counts citationPath index (DescendantNode citationPath seen) →
      records.foldlM (addRecord citationPath) index = .ok index' →
      Counts citationPath index' (DescendantNode citationPath (seen ++ records)) ∧
        ∀ record ∈ records, citationPath <+: record.path ∧ citationPath ≠ record.path
  | [], seen, index, index', counts, built => by
    cases Except.ok.inj (show Except.ok index = .ok index' from built)
    exact ⟨by simpa using counts, by simp⟩
  | record :: rest, seen, index, index', counts, built => by
    rw [List.foldlM_cons] at built
    obtain ⟨middle, head, tail⟩ := bind_eq_ok_iff.mp built
    unfold addRecord at head
    split at head
    · rename_i under
      have whole : citationPath ++ record.path.drop citationPath.length = record.path :=
        List.prefix_iff_eq_append.mp under.1
      have step := counts.addChain List.prefix_rfl head
      rw [whole] at step
      have grown : Counts citationPath middle
          (DescendantNode citationPath (seen ++ [record])) := by
        refine step.congr fun node => ?_
        simp only [DescendantNode, List.mem_append, List.mem_singleton, or_and_right,
          exists_or, exists_eq_left, and_or_left]
      obtain ⟨final, others⟩ := @foldlM_counts _ (seen ++ [record]) _ _ grown tail
      refine ⟨by simpa using final, ?_⟩
      rintro r hr
      rcases List.mem_cons.mp hr with rfl | hr
      · exact under
      · exact others r hr
    · cases head

/-- The finished trie. -/
theorem buildIndex_counts {index : CompositionIndex}
    (built : buildIndex citationPath records = .ok index) :
    Counts citationPath index (DescendantNode citationPath records) := by
  have := @foldlM_counts _ _ [] _ _ (counts_empty.congr (by simp [DescendantNode])) built
  simpa using this.1

theorem buildIndex_under {index : CompositionIndex}
    (built : buildIndex citationPath records = .ok index) :
    ∀ record ∈ records, citationPath <+: record.path ∧ citationPath ≠ record.path :=
  (@foldlM_counts _ _ [] _ _ (counts_empty.congr (by simp [DescendantNode])) built).2

/-- **The edges of the trie are the steps towards some record.** -/
theorem buildIndex_edges {index : CompositionIndex}
    (built : buildIndex citationPath records = .ok index) (parent child : CitationPath) :
    child ∈ index.childPaths parent ↔
      (∃ segment, child = parent ++ [segment]) ∧ citationPath <+: parent ∧
        ∃ record ∈ records, child <+: record.path := by
  rw [mem_childPaths, (buildIndex_counts built).mem_edges]
  constructor
  · rintro ⟨ext, below, -, -, hit⟩
    exact ⟨ext, below, hit⟩
  · rintro ⟨⟨s, rfl⟩, below, hit⟩
    refine ⟨⟨s, rfl⟩, below, below.trans (List.prefix_append _ _), ?_, hit⟩
    rintro rfl
    exact not_child_prefix_self below

theorem exists_foldlM {all : List StoredRecord} (limits : WithinTrieLimits citationPath all) :
    ∀ {records seen : List StoredRecord} {index : CompositionIndex},
      seen ++ records = all → Counts citationPath index (DescendantNode citationPath seen) →
      (∀ record ∈ records, citationPath <+: record.path ∧ citationPath ≠ record.path) →
      ∃ index', records.foldlM (addRecord citationPath) index = .ok index'
  | [], _, index, _, _, _ => ⟨index, rfl⟩
  | record :: rest, seen, index, whole, counts, under => by
    have here := under record List.mem_cons_self
    have path : citationPath ++ record.path.drop citationPath.length = record.path :=
      List.prefix_iff_eq_append.mp here.1
    have inside : ∀ node, DescendantNode citationPath seen node →
        DescendantNode citationPath all node := by
      rintro node ⟨below, ne, r, hr, covers⟩
      exact ⟨below, ne, r, whole ▸ List.mem_append_left _ hr, covers⟩
    have reach : ∃ r ∈ all, citationPath ++ record.path.drop citationPath.length <+: r.path := by
      refine ⟨record, ?_, path.symm ▸ List.prefix_rfl⟩
      rw [← whole]
      exact List.mem_append_right _ List.mem_cons_self
    obtain ⟨middle, chain⟩ := counts.exists_addChain limits inside List.prefix_rfl reach
    have first : addRecord citationPath index record = .ok middle := by
      rw [addRecord, if_pos here, chain]
    have step : [record].foldlM (addRecord citationPath) index = .ok middle := by
      rw [List.foldlM_cons, first]
      rfl
    obtain ⟨index', tail⟩ := @exists_foldlM _ limits _ (seen ++ [record]) _ (by simpa using whole)
      (foldlM_counts counts step).1 fun r hr => under r (List.mem_cons_of_mem _ hr)
    refine ⟨index', ?_⟩
    rw [List.foldlM_cons]
    exact bind_eq_ok_iff.mpr ⟨middle, first, tail⟩

/-- The trie is built when every record lies below the parent and the limits hold. -/
theorem exists_buildIndex
    (under : ∀ record ∈ records, citationPath <+: record.path ∧ citationPath ≠ record.path)
    (limits : WithinTrieLimits citationPath records) :
    ∃ index, buildIndex citationPath records = .ok index :=
  @exists_foldlM _ _ limits _ [] _ rfl (counts_empty.congr (by simp [DescendantNode])) under

/-- The edges enumerate the nodes below the root. -/
theorem edges_perm_descendantNodes {index : CompositionIndex}
    (built : buildIndex citationPath records = .ok index) :
    (index.edges.map Prod.snd).Perm (descendantNodes citationPath records) := by
  have counts := buildIndex_counts built
  refine (List.perm_ext_iff_of_nodup counts.children_nodup (List.nodup_dedup _)).mpr fun node => ?_
  rw [← descendantNodes, mem_descendantNodes]
  constructor
  · intro member
    obtain ⟨⟨p, c⟩, hp, rfl⟩ := List.mem_map.mp member
    exact ((counts.mem_edges p c).mp hp).2.2
  · intro reached
    have ⟨⟨rest, whole⟩, ne, _⟩ := reached
    obtain ⟨init, s, hs⟩ : ∃ init s, rest = init ++ [s] := by
      rcases List.eq_nil_or_concat rest with rfl | ⟨init, s, h⟩
      · simp at whole
        exact absurd whole ne
      · exact ⟨init, s, by simpa using h⟩
    refine List.mem_map.mpr ⟨(citationPath ++ init, node), (counts.mem_edges _ _).mpr
      ⟨⟨s, by rw [← whole, hs, List.append_assoc]⟩, List.prefix_append _ _, reached⟩, rfl⟩

/-- Conversely the finished trie of a nonempty list keeps to the limits. -/
theorem withinTrieLimits_of_buildIndex {index : CompositionIndex} (nonempty : records ≠ [])
    (built : buildIndex citationPath records = .ok index) :
    WithinTrieLimits citationPath records := by
  have counts := buildIndex_counts built
  have perm := edges_perm_descendantNodes built
  obtain ⟨record, hr⟩ := List.exists_mem_of_ne_nil _ nonempty
  have under := buildIndex_under built record hr
  have occupied : index.edges ≠ [] := by
    intro none_
    have node : record.path ∈ descendantNodes citationPath records :=
      mem_descendantNodes.mpr ⟨under.1, under.2, record, hr, List.prefix_rfl⟩
    rw [← perm.mem_iff, none_] at node
    simp at node
  obtain ⟨nodes, bytes⟩ := counts.bounded.resolve_left occupied
  have length := perm.length_eq
  have total := (perm.map fun node => 4 * utf8Length (CitationPath.text node)).sum_eq
  rw [List.map_map] at total
  rw [counts.nodes] at nodes
  rw [counts.prefixBytes] at bytes
  rw [List.length_map] at length
  refine ⟨by omega, ?_⟩
  rw [← total]
  exact bytes

end Build

end AxiomEncode.Corpus
