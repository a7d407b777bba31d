/-
# SourceHash.NodeGraphSpec -- what the guard admits

The stack of the walk is a list of frames: the nodes of the path the walk is on, each with the
children still to be taken (`stackOf`).  `Searching` is the invariant: the children taken before were
visited, and what was visited is closed under successors.  So the walk enters a node along the first
path to it, and returns exactly on the graphs without cycles whose first paths are short
(`returns_iff`).  A longer path to a node that was visited goes unnoticed, and
`bounds_iff` says when no such path is admitted.
-/
import AxiomEncode.SourceHash.NodeGraph
import AxiomEncode.Theory.FirstPaths
import Mathlib.Data.List.Perm.Subperm

namespace AxiomEncode.SourceHash

open Theory

set_option autoImplicit false

variable {ν : Type}

namespace NodeGraph

/-- The successors of a node. -/
def next (graph : NodeGraph ν) (node : ν) : List ν :=
  match graph.content node with
  | .mapping members => members.flatMap fun member => [member.1, member.2]
  | .sequence items => items
  | .scalar => []

/-- A node with a merge key. -/
def Merges (graph : NodeGraph ν) (node : ν) : Prop :=
  ∃ members, graph.content node = .mapping members ∧
    ∃ member ∈ members, graph.tag member.1 = yamlMergeTag

/-- More distinct nodes than the limit. -/
def TooManyNodes (graph : NodeGraph ν) (root : ν) : Prop :=
  ∃ nodes : List ν, nodes.Nodup ∧ (∀ node ∈ nodes, ReachedFrom graph.next root node) ∧
    maxYamlNodes < nodes.length

def HasMerge (graph : NodeGraph ν) (root : ν) : Prop :=
  ∃ node, ReachedFrom graph.next root node ∧ graph.Merges node

/-- No path from the root has more nodes than the limit. -/
def ShortPaths (graph : NodeGraph ν) (root : ν) : Prop :=
  ∀ path, IsPath graph.next root path → path.length ≤ maxYamlDepth

/-- A first path from the root has more nodes than the limit. -/
def DeepFirst [DecidableEq ν] (graph : NodeGraph ν) (root : ν) : Prop :=
  ∃ path, First graph.next root path ∧ maxYamlDepth < path.length

/-- What the guard has to see to. -/
structure Bounded (graph : NodeGraph ν) (rejectMerges : Bool) (root : ν) : Prop where
  acyclic : Acyclic graph.next root
  few : ∃ nodes : List ν, nodes.length ≤ maxYamlNodes ∧
    ∀ node, ReachedFrom graph.next root node → node ∈ nodes
  unmerged : rejectMerges = true → ¬ graph.HasMerge root
  short : graph.ShortPaths root

end NodeGraph

/-! ## The frames of the walk -/

/-- The frames of a stack, the innermost first: a node and the children still to be taken. -/
abbrev Frames (ν : Type) := List (ν × List ν)

def stackOf : Frames ν → List (Entry ν)
  | [] => []
  | (node, pending) :: below =>
    pending.map (fun child => { node := child, depth := below.length + 2, exiting := false }) ++
      { node, depth := below.length + 1, exiting := true } :: stackOf below

/-- The nodes from the root to the innermost frame. -/
def pathOf (frames : Frames ν) : List ν := (frames.map Prod.fst).reverse

/-- The children that were taken before the one above are visited. -/
def Explored (next : ν → List ν) (visited : List ν) : List ν → Frames ν → Prop
  | _, [] => True
  | above, (node, pending) :: below =>
    (∃ taken, next node = taken ++ above ++ pending ∧ ∀ child ∈ taken, child ∈ visited) ∧
      Explored next visited [node] below

theorem Explored.mono {next : ν → List ν} {visited visited' : List ν} {frames : Frames ν}
    (grows : ∀ node ∈ visited, node ∈ visited') :
    ∀ {above : List ν}, Explored next visited above frames → Explored next visited' above frames := by
  induction frames with
  | nil => intro _ _; trivial
  | cons frame below ih =>
    rintro above ⟨⟨taken, split, were⟩, rest⟩
    exact ⟨⟨taken, split, fun child isTaken => grows child (were child isTaken)⟩, ih rest⟩

section Children

variable {graph : NodeGraph ν} {rejectMerges : Bool} {node : ν}

theorem children_eq_ok {below : List ν} (found : children graph rejectMerges node = .ok below) :
    below = graph.next node ∧ (rejectMerges = true → ¬ graph.Merges node) := by
  unfold children at found
  split at found
  next members isMapping =>
    split_ifs at found with merged
    refine ⟨by rw [NodeGraph.next, isMapping]; exact (Except.ok.inj found).symm, fun rejects => ?_⟩
    rintro ⟨members', isMapping', member, isMember, isMerge⟩
    rw [isMapping, Content.mapping.injEq] at isMapping'
    subst isMapping'
    rw [rejects, Bool.true_and, List.any_eq_true] at merged
    exact merged ⟨member, isMember, beq_iff_eq.mpr isMerge⟩
  next items isSequence =>
    refine ⟨by rw [NodeGraph.next, isSequence]; exact (Except.ok.inj found).symm, fun _ => ?_⟩
    rintro ⟨members, isMapping, -⟩
    rw [isSequence] at isMapping
    cases isMapping
  next isScalar =>
    refine ⟨by rw [NodeGraph.next, isScalar]; exact (Except.ok.inj found).symm, fun _ => ?_⟩
    rintro ⟨members, isMapping, -⟩
    rw [isScalar] at isMapping
    cases isMapping

theorem children_eq_error {error : GuardError}
    (failed : children graph rejectMerges node = .error error) :
    rejectMerges = true ∧ graph.Merges node := by
  unfold children at failed
  split at failed
  next members isMapping =>
    split_ifs at failed with merged
    rw [Bool.and_eq_true, List.any_eq_true] at merged
    obtain ⟨rejects, member, isMember, isMerge⟩ := merged
    exact ⟨rejects, members, isMapping, member, isMember, eq_of_beq isMerge⟩
  · cases failed
  · cases failed

end Children

section Explored

variable {next : ν → List ν} {visited : List ν}

theorem pathOf_cons (node : ν) (pending : List ν) (below : Frames ν) :
    pathOf ((node, pending) :: below) = pathOf below ++ [node] := by
  simp [pathOf]

theorem length_pathOf (frames : Frames ν) : (pathOf frames).length = frames.length := by
  simp [pathOf]

/-- An edge of the path the walk is on, and what comes before it at its node. -/
theorem Explored.edge :
    ∀ {frames : Frames ν} {above before after : List ν} {node child : ν},
      Explored next visited above frames →
      pathOf frames ++ above = before ++ node :: child :: after → above.length ≤ 1 →
      ∃ taken pending, next node = taken ++ child :: pending ∧ ∀ c ∈ taken, c ∈ visited := by
  intro frames
  induction frames with
  | nil =>
    intro above before after node child _ parted short
    have length := congrArg List.length parted
    simp only [pathOf, List.map_nil, List.reverse_nil, List.nil_append, List.length_append,
      List.length_cons] at length
    omega
  | cons frame below ih =>
    obtain ⟨top, pending⟩ := frame
    rintro above before after node child ⟨⟨taken, split, were⟩, rest⟩ parted short
    rw [pathOf_cons] at parted
    match above, short with
    | [], _ =>
      rw [List.append_nil] at parted
      exact ih rest parted (by simp)
    | [last], _ =>
      cases after using List.reverseRecOn with
      | nil =>
        have same : pathOf below ++ [top] ++ [last] = before ++ [node] ++ [child] := by
          rw [parted]
          simp
        obtain ⟨inner, isLast⟩ := List.append_inj' same rfl
        obtain ⟨-, isTop⟩ := List.append_inj' inner rfl
        rw [List.cons.injEq] at isLast isTop
        rw [isTop.1, isLast.1] at split
        exact ⟨taken, pending, by simpa using split, were⟩
      | append_singleton after end' =>
        have same : pathOf below ++ [top] ++ [last] =
            (before ++ node :: child :: after) ++ [end'] := by
          rw [parted]
          simp
        obtain ⟨inner, -⟩ := List.append_inj' same rfl
        exact ih rest inner (by simp)

/-- At a node of the path, what comes before the edge taken is visited. -/
theorem visited_of_earlier [DecidableEq ν] {taken pending : List ν} {node child other : ν}
    (split : next node = taken ++ child :: pending) (were : ∀ c ∈ taken, c ∈ visited)
    (isNew : child ∉ visited) (earlier : (next node).idxOf other < (next node).idxOf child) :
    other ∈ visited := by
  have absent : child ∉ taken := fun isTaken => isNew (were child isTaken)
  rw [split, List.idxOf_append_of_notMem absent, List.idxOf_cons_self, Nat.add_zero] at earlier
  by_cases isTaken : other ∈ taken
  · exact were other isTaken
  · rw [List.idxOf_append_of_notMem isTaken] at earlier
    omega

end Explored

section Search

variable [DecidableEq ν] {graph : NodeGraph ν} {rejectMerges : Bool} {root node child : ν}
  {pending : List ν} {below frames : Frames ν} {walk after : Walk ν}

/-- The walk between two steps. -/
structure Searching (graph : NodeGraph ν) (rejectMerges : Bool) (root : ν) (frames : Frames ν)
    (walk : Walk ν) : Prop where
  stack : walk.stack = stackOf frames
  active : walk.active = frames.map Prod.fst
  path : frames ≠ [] → First graph.next root (pathOf frames)
  exceeds : frames = [] → root ∈ walk.visited
  new : ∀ node ∈ walk.visited, node ∉ walk.active
  nodup : walk.active.Nodup
  finished : Finished graph.next walk.visited
  count : walk.nodeCount = walk.visited.length + walk.active.length
  few : walk.nodeCount ≤ maxYamlNodes
  short : frames.length ≤ maxYamlDepth
  unmerged : rejectMerges = true → ∀ node, node ∈ walk.visited ∨ node ∈ walk.active → ¬ graph.Merges node
  firsts : ∀ node ∈ walk.visited,
    ∃ path, First graph.next root path ∧ EndsAt path node ∧ path.length ≤ maxYamlDepth
  explored : Explored graph.next walk.visited [] frames

/-- Why a graph may be rejected. -/
def Rejectable (graph : NodeGraph ν) (rejectMerges : Bool) (root : ν) : Prop :=
  ¬ Acyclic graph.next root ∨ graph.TooManyNodes root ∨ (rejectMerges = true ∧ graph.HasMerge root) ∨
    graph.DeepFirst root

namespace Searching

theorem mem_pathOf (searching : Searching graph rejectMerges root frames walk) :
    node ∈ pathOf frames ↔ node ∈ walk.active := by
  rw [searching.active, pathOf, List.mem_reverse]

theorem reached (searching : Searching graph rejectMerges root frames walk)
    (isMember : node ∈ walk.visited ∨ node ∈ walk.active) : ReachedFrom graph.next root node := by
  rcases isMember with isVisited | isActive
  · obtain ⟨path, first, ends, -⟩ := searching.firsts node isVisited
    exact ⟨path, first.isPath, ends⟩
  · have nonempty : frames ≠ [] := by
      rintro rfl
      rw [searching.active] at isActive
      cases isActive
    exact (searching.path nonempty).isPath.reached (searching.mem_pathOf.mpr isActive)

section Child

variable (searching : Searching graph rejectMerges root ((node, child :: pending) :: below) walk)

include searching

/-- The next child belongs to the innermost node. -/
theorem edge : child ∈ graph.next node := by
  obtain ⟨⟨taken, split, -⟩, -⟩ := searching.explored
  rw [split]
  simp

theorem path_child :
    IsPath graph.next root (pathOf ((node, child :: pending) :: below) ++ [child]) := by
  have isPath := (searching.path (by simp)).isPath
  rw [pathOf_cons] at isPath ⊢
  exact isPath.snoc searching.edge

/-- **The walk reaches a new node along the first path to it.** -/
theorem first_child (isNew : child ∉ walk.visited) :
    First graph.next root (pathOf ((node, child :: pending) :: below) ++ [child]) := by
  refine ⟨searching.path_child, ?_⟩
  rintro other last isPath ends ends' ⟨before, n, x, y, after, after', rfl, parted, earlier⟩
  obtain rfl : child = last := by simpa [EndsAt] using ends'
  have explored : Explored graph.next walk.visited [child] ((node, pending) :: below) := by
    obtain ⟨⟨taken, split, were⟩, rest⟩ := searching.explored
    exact ⟨⟨taken, by simpa using split, were⟩, rest⟩
  have parted' : pathOf ((node, pending) :: below) ++ [child] = before ++ n :: y :: after' := by
    rw [← parted, pathOf_cons, pathOf_cons]
  obtain ⟨taken, later, split, were⟩ := explored.edge parted' (by simp)
  have onPath : y ∉ walk.visited := by
    have isMember : y ∈ pathOf ((node, child :: pending) :: below) ++ [child] := by
      rw [parted]
      simp
    rcases List.mem_append.mp isMember with isActive | isChild
    · exact fun isVisited => searching.new y isVisited (searching.mem_pathOf.mp isActive)
    · rwa [List.mem_singleton.mp isChild]
  have isVisited := visited_of_earlier split were onPath earlier
  have steps : (x :: after).IsChain fun a b => b ∈ graph.next a := by
    have all := isPath.steps
    rw [List.append_cons] at all
    exact (List.isChain_append.mp all).2.1
  have isLast : child ∈ x :: after := by
    refine List.mem_of_getLast? ?_
    rw [EndsAt, List.append_cons, List.getLast?_append_of_ne_nil _ (by simp)] at ends
    exact ends
  exact isNew (forall_mem_of_closed searching.finished.closed isVisited steps child isLast)

/-- A child on the path closes a cycle. -/
theorem cyclic (again : child ∈ walk.active) : ¬ Acyclic graph.next root := by
  intro acyclic
  have nodup := acyclic _ searching.path_child
  have isMember := searching.mem_pathOf.mpr again
  exact (List.nodup_append.mp nodup).2.2 child isMember child (by simp) rfl

theorem reached_child : ReachedFrom graph.next root child :=
  ⟨_, searching.path_child, List.getLast?_concat⟩

theorem tooMany (isNew : child ∉ walk.visited) (inactive : child ∉ walk.active)
    (many : maxYamlNodes < walk.nodeCount + 1) : graph.TooManyNodes root := by
  refine ⟨child :: (walk.visited ++ walk.active), ?_, ?_, ?_⟩
  · refine List.nodup_cons.mpr ⟨by simp [isNew, inactive], ?_⟩
    refine List.nodup_append.mpr ⟨searching.finished.nodup, searching.nodup, ?_⟩
    rintro a isVisited b isActive rfl
    exact searching.new a isVisited isActive
  · refine List.forall_mem_cons.mpr ⟨searching.reached_child, fun a isMember => ?_⟩
    exact searching.reached (List.mem_append.mp isMember)
  · rw [List.length_cons, List.length_append, ← searching.count]
    exact many

end Child

/-! ## Steps -/

/-- The innermost node is left. -/
theorem leave (searching : Searching graph rejectMerges root ((node, []) :: below) walk) :
    Searching graph rejectMerges root below
      { walk with
        visited := node :: walk.visited
        active := walk.active.erase node
        stack := stackOf below } := by
  have active : walk.active.erase node = below.map Prod.fst := by
    rw [searching.active, List.map_cons, List.erase_cons_head]
  have nodup : node ∉ below.map Prod.fst ∧ (below.map Prod.fst).Nodup := by
    have nodup := searching.nodup
    rwa [searching.active, List.map_cons, List.nodup_cons] at nodup
  have isActive : node ∈ walk.active := by
    rw [searching.active]
    exact List.mem_cons_self
  obtain ⟨⟨taken, split, were⟩, rest⟩ := searching.explored
  rw [List.append_nil, List.append_nil] at split
  have first := searching.path (by simp)
  refine ⟨rfl, active, fun nonempty => ?_, ?_, ?_, ?_, ?_, ?_, searching.few, ?_, ?_, ?_, ?_⟩
  · obtain ⟨⟨above, others⟩, below, rfl⟩ := List.exists_cons_of_ne_nil nonempty
    rw [pathOf_cons] at first ⊢
    rw [pathOf_cons] at first
    exact first.of_append
  · rintro rfl
    obtain rfl : node = root := Option.some.inj first.isPath.starts
    exact List.mem_cons_self
  · rw [active]
    refine List.forall_mem_cons.mpr ⟨nodup.1, fun a isVisited isBelow => ?_⟩
    refine searching.new a isVisited ?_
    rw [searching.active]
    exact List.mem_cons_of_mem _ isBelow
  · rw [active]
    exact nodup.2
  · refine .cons (fun isVisited => searching.new node isVisited isActive) ?_ searching.finished
    intro b edge
    rw [split] at edge
    exact were b edge
  · rw [active]
    have count := searching.count
    rw [searching.active, List.map_cons, List.length_cons] at count
    show walk.nodeCount = (node :: walk.visited).length + (below.map Prod.fst).length
    rw [count, List.length_cons]
    omega
  · have short := searching.short
    rw [List.length_cons] at short
    omega
  · rintro rejects a (isVisited | isBelow)
    · rcases List.mem_cons.mp isVisited with rfl | isVisited
      · exact searching.unmerged rejects a (.inr isActive)
      · exact searching.unmerged rejects a (.inl isVisited)
    · exact searching.unmerged rejects a (.inr (List.mem_of_mem_erase isBelow))
  · refine List.forall_mem_cons.mpr ⟨⟨_, first, ?_, ?_⟩, searching.firsts⟩
    · rw [EndsAt, pathOf_cons, List.getLast?_concat]
    · rw [length_pathOf]
      exact searching.short
  · cases below with
    | nil => trivial
    | cons frame below =>
      obtain ⟨above, others⟩ := frame
      obtain ⟨⟨taken', split', were'⟩, rest⟩ := rest
      refine ⟨⟨taken' ++ [node], by simpa using split', ?_⟩, ?_⟩
      · intro a isTaken
        rcases List.mem_append.mp isTaken with isTaken | isNode
        · exact List.mem_cons_of_mem _ (were' a isTaken)
        · rw [List.mem_singleton.mp isNode]
          exact List.mem_cons_self
      · exact rest.mono fun a isVisited => List.mem_cons_of_mem _ isVisited

/-- A visited child is passed over. -/
theorem skip (searching : Searching graph rejectMerges root ((node, child :: pending) :: below) walk)
    (isVisited : child ∈ walk.visited) :
    Searching graph rejectMerges root ((node, pending) :: below)
      { walk with stack := stackOf ((node, pending) :: below) } := by
  obtain ⟨⟨taken, split, were⟩, rest⟩ := searching.explored
  have first := searching.path (by simp)
  refine ⟨rfl, searching.active, fun _ => ?_, nofun, searching.new, searching.nodup,
    searching.finished, searching.count, searching.few, searching.short, searching.unmerged,
    searching.firsts, ⟨taken ++ [child], by simpa using split, ?_⟩, rest⟩
  · rw [pathOf_cons] at first ⊢
    exact first
  · intro a isTaken
    rcases List.mem_append.mp isTaken with isTaken | isChild
    · exact were a isTaken
    · rwa [List.mem_singleton.mp isChild]

/-- A new child is entered. -/
theorem enter (searching : Searching graph rejectMerges root ((node, child :: pending) :: below) walk)
    (isNew : child ∉ walk.visited) (inactive : child ∉ walk.active)
    (few : walk.nodeCount + 1 ≤ maxYamlNodes) (short : below.length + 2 ≤ maxYamlDepth)
    (unmerged : rejectMerges = true → ¬ graph.Merges child) :
    Searching graph rejectMerges root ((child, graph.next child) :: (node, pending) :: below)
      { walk with
        active := child :: walk.active
        stack := stackOf ((child, graph.next child) :: (node, pending) :: below)
        nodeCount := walk.nodeCount + 1 } := by
  obtain ⟨⟨taken, split, were⟩, rest⟩ := searching.explored
  refine ⟨rfl, ?_, fun _ => ?_, nofun, ?_, ?_, searching.finished, ?_, few, short, ?_,
    searching.firsts, ?_, ⟨taken, by simpa using split, were⟩, rest⟩
  · rw [searching.active]
    rfl
  · have first := searching.first_child isNew
    rw [pathOf_cons] at first
    rwa [pathOf_cons, pathOf_cons]
  · intro a isVisited isActive
    rcases List.mem_cons.mp isActive with rfl | isActive
    · exact isNew isVisited
    · exact searching.new a isVisited isActive
  · exact List.nodup_cons.mpr ⟨inactive, searching.nodup⟩
  · rw [searching.count, List.length_cons]
    rfl
  · rintro rejects a (isVisited | isActive)
    · exact searching.unmerged rejects a (.inl isVisited)
    · rcases List.mem_cons.mp isActive with rfl | isActive
      · exact unmerged rejects
      · exact searching.unmerged rejects a (.inr isActive)
  · exact ⟨[], by simp, by simp⟩

/-- **A step keeps the invariant, or finds a reason to reject the graph.** -/
theorem step (searching : Searching graph rejectMerges root frames walk) {entry : Entry ν}
    {rest : List (Entry ν)} (isTop : walk.stack = entry :: rest) :
    (∃ frames' after, walk.takeEntry graph rejectMerges entry rest = .ok after ∧
        Searching graph rejectMerges root frames' after) ∨
      ((∃ error, walk.takeEntry graph rejectMerges entry rest = .error error) ∧
        Rejectable graph rejectMerges root) := by
  have stack := searching.stack
  rw [isTop] at stack
  match frames, searching with
  | [], _ => cases stack
  | (node, []) :: below, searching =>
    rw [stackOf, List.map_nil, List.nil_append, List.cons.injEq] at stack
    obtain ⟨rfl, rfl⟩ := stack
    exact .inl ⟨below, _, if_pos rfl, searching.leave⟩
  | (node, child :: pending) :: below, searching =>
    rw [stackOf, List.map_cons, List.cons_append, List.cons.injEq] at stack
    obtain ⟨rfl, rfl⟩ := stack
    unfold Walk.takeEntry
    rw [if_neg Bool.false_ne_true]
    split_ifs with active visited many deep
    · exact .inr ⟨⟨_, rfl⟩, .inl (searching.cyclic active)⟩
    · exact .inl ⟨(node, pending) :: below, _, rfl, searching.skip visited⟩
    · exact .inr ⟨⟨_, rfl⟩, .inr (.inl (searching.tooMany visited active many))⟩
    · refine .inr ⟨⟨_, rfl⟩, .inr (.inr (.inr ⟨_, searching.first_child visited, ?_⟩))⟩
      rw [List.length_append, length_pathOf]
      exact deep
    · cases found : children graph rejectMerges child with
      | error error =>
        obtain ⟨rejects, merges⟩ := children_eq_error found
        exact .inr ⟨⟨error, rfl⟩, .inr (.inr (.inl ⟨rejects, child, searching.reached_child, merges⟩))⟩
      | ok found' =>
        obtain ⟨rfl, unmerged⟩ := children_eq_ok found
        refine .inl ⟨_, _, rfl, searching.enter visited active ?_ ?_ unmerged⟩
        · exact Nat.le_of_not_lt many
        · exact Nat.le_of_not_lt deep

theorem frames_eq_nil (searching : Searching graph rejectMerges root frames walk)
    (empty : walk.stack = []) : frames = [] := by
  rw [searching.stack] at empty
  match frames, empty with
  | [], _ => rfl
  | (node, pending) :: below, empty => simp [stackOf] at empty

/-- **A run that returns has visited the graph, and one that raises had a reason.** -/
theorem run {fuel : Nat} (searching : Searching graph rejectMerges root frames walk)
    {outcome : Except GuardError Unit} (ran : walk.run graph rejectMerges fuel = some outcome) :
    (outcome = .ok () ∧ ∃ after, Searching graph rejectMerges root [] after) ∨
      ((∃ error, outcome = .error error) ∧ Rejectable graph rejectMerges root) := by
  induction fuel generalizing frames walk with
  | zero =>
    rw [Walk.run] at ran
    split_ifs at ran with empty
    obtain rfl := searching.frames_eq_nil (List.isEmpty_iff.mp empty)
    exact .inl ⟨(Option.some.inj ran).symm, walk, searching⟩
  | succ fuel ih =>
    cases stack : walk.stack with
    | nil =>
      rw [Walk.run, stack] at ran
      obtain rfl := searching.frames_eq_nil stack
      exact .inl ⟨(Option.some.inj ran).symm, walk, searching⟩
    | cons entry rest =>
      rcases searching.step stack with ⟨frames', after, taken, searching'⟩ | ⟨⟨error, taken⟩, reason⟩
      · simp only [Walk.run, stack, taken] at ran
        exact ih searching' ran
      · simp only [Walk.run, stack, taken] at ran
        exact .inr ⟨⟨error, (Option.some.inj ran).symm⟩, reason⟩

/-- The root is entered. -/
theorem start (root : ν) (unmerged : rejectMerges = true → ¬ graph.Merges root) :
    Searching graph rejectMerges root [(root, graph.next root)]
      { active := [root], stack := stackOf [(root, graph.next root)], nodeCount := 1 } := by
  refine ⟨rfl, rfl, fun _ => first_singleton root, nofun, by simp, List.nodup_singleton root, .nil, rfl, ?_,
    ?_, ?_, by simp, ⟨⟨[], by simp, by simp⟩, trivial⟩⟩
  · show 1 ≤ maxYamlNodes
    decide
  · show 1 ≤ maxYamlDepth
    decide
  rintro rejects node (isVisited | isActive)
  · cases isVisited
  · rw [List.mem_singleton.mp isActive]
    exact unmerged rejects

/-! ## The graph of a walk that is over -/

section Over

variable (searching : Searching graph rejectMerges root [] walk)

include searching

theorem visits (reached : ReachedFrom graph.next root node) : node ∈ walk.visited :=
  reached.of_closed searching.finished.closed (searching.exceeds rfl)

theorem acyclic : Acyclic graph.next root := by
  intro path isPath
  obtain ⟨first, path, rfl⟩ := List.exists_cons_of_ne_nil isPath.ne_nil
  obtain rfl : first = root := Option.some.inj isPath.starts
  exact searching.finished.path_nodup isPath.steps (searching.exceeds rfl)

theorem few_nodes : walk.visited.length ≤ maxYamlNodes := by
  have few := searching.few
  rw [searching.count] at few
  omega

theorem bounded_iff : graph.Bounded rejectMerges root ↔ graph.ShortPaths root := by
  refine ⟨fun bounded => bounded.short, fun short => ⟨searching.acyclic, ?_, ?_, short⟩⟩
  · exact ⟨walk.visited, searching.few_nodes, fun node reached => searching.visits reached⟩
  · rintro rejects ⟨node, reached, merges⟩
    exact searching.unmerged rejects node (.inl (searching.visits reached)) merges

theorem not_rejectable : ¬ Rejectable graph rejectMerges root := by
  rintro (cyclic | ⟨nodes, nodup, reached, many⟩ | ⟨rejects, node, reached, merges⟩ | ⟨path, first, deep⟩)
  · exact cyclic searching.acyclic
  · have within : nodes ⊆ walk.visited := fun node isMember => searching.visits (reached node isMember)
    have fewer := (nodup.subperm within).length_le
    have few := searching.few_nodes
    omega
  · exact searching.unmerged rejects node (.inl (searching.visits reached)) merges
  · obtain ⟨last, ends⟩ : ∃ last, EndsAt path last :=
      ⟨path.getLast first.isPath.ne_nil, List.getLast?_eq_some_getLast _⟩
    obtain ⟨path', first', ends', short⟩ :=
      searching.firsts last (searching.visits ⟨path, first.isPath, ends⟩)
    rw [First.unique searching.acyclic first first' ends ends'] at deep
    omega

end Over

end Searching

theorem takeEntry_start :
    (Walk.start root).takeEntry graph rejectMerges ⟨root, 1, false⟩ [] =
      (children graph rejectMerges root).map fun below =>
        { active := [root]
          stack := below.map (fun child => ⟨child, 2, false⟩) ++ [⟨root, 1, true⟩]
          nodeCount := 1 } := by
  rw [Walk.takeEntry, if_neg Bool.false_ne_true, if_neg (by simp [Walk.start]),
    if_neg (by simp [Walk.start]), if_neg (by simp [Walk.start, maxYamlNodes]),
    if_neg (by simp [maxYamlDepth])]
  cases children graph rejectMerges root <;> rfl

variable {fuel : Nat} {outcome : Except GuardError Unit}

/-- **The guard returns after it visited the graph, or raises for a reason.** -/
theorem guard_cases
    (ran : validateYamlNodeGraph graph rejectMerges fuel (some root) = some outcome) :
    (outcome = .ok () ∧ ∃ after, Searching graph rejectMerges root [] after) ∨
      ((∃ error, outcome = .error error) ∧ Rejectable graph rejectMerges root) := by
  rw [validateYamlNodeGraph] at ran
  cases fuel with
  | zero => simp [Walk.run, Walk.start] at ran
  | succ fuel =>
    have stack : (Walk.start root).stack = [⟨root, 1, false⟩] := rfl
    simp only [Walk.run, stack, takeEntry_start] at ran
    cases found : children graph rejectMerges root with
    | error error =>
      obtain ⟨rejects, merges⟩ := children_eq_error found
      have reached : ReachedFrom graph.next root root := ⟨[root], isPath_singleton root, rfl⟩
      rw [found] at ran
      exact .inr ⟨⟨error, (Option.some.inj ran).symm⟩,
        .inr (.inr (.inl ⟨rejects, root, reached, merges⟩))⟩
    | ok below =>
      obtain ⟨rfl, unmerged⟩ := children_eq_ok found
      rw [found] at ran
      exact (Searching.start root unmerged).run ran

/-- **The guard returns exactly on graphs without a cycle, too many nodes, a merge key or a first path that
is too deep.** -/
theorem returns_iff
    (ran : validateYamlNodeGraph graph rejectMerges fuel (some root) = some outcome) :
    outcome = .ok () ↔ ¬ Rejectable graph rejectMerges root := by
  rcases guard_cases ran with ⟨isOk, after, exceeds⟩ | ⟨⟨error, rfl⟩, reason⟩
  · exact ⟨fun _ => exceeds.not_rejectable, fun _ => isOk⟩
  · exact ⟨nofun, fun accepted => absurd reason accepted⟩

/-! ## What is admitted -/

/-- The guard's loop ends, and what it admits is bounded. -/
def BoundsWhatItAdmits (graph : NodeGraph ν) (rejectMerges : Bool) (root : ν) : Prop :=
  (∃ fuel outcome, validateYamlNodeGraph graph rejectMerges fuel (some root) = some outcome) ∧
    ∀ fuel, validateYamlNodeGraph graph rejectMerges fuel (some root) = some (.ok ()) →
      graph.Bounded rejectMerges root

/-- **The guard bounds what it admits exactly if all paths are short or there is a reason to raise: a cycle,
too many nodes, a merge key that is rejected, or a first path that is too deep.** -/
theorem boundsWhatItAdmits_iff :
    BoundsWhatItAdmits graph rejectMerges root ↔
      graph.ShortPaths root ∨ Rejectable graph rejectMerges root := by
  obtain ⟨fuel, outcome, ran⟩ := @Walk.exists_run ν _ graph rejectMerges (Walk.start root)
  have ends : ∃ fuel outcome,
      validateYamlNodeGraph graph rejectMerges fuel (some root) = some outcome := ⟨fuel, outcome, ran⟩
  constructor
  · rintro ⟨-, bounds⟩
    rcases guard_cases ran with ⟨rfl, -⟩ | ⟨-, reason⟩
    · exact .inl (bounds fuel ran).short
    · exact .inr reason
  · intro condition
    refine ⟨ends, fun fuel returned => ?_⟩
    rcases guard_cases returned with ⟨-, after, exceeds⟩ | ⟨⟨error, failed⟩, -⟩
    · exact exceeds.bounded_iff.mpr (condition.resolve_right exceeds.not_rejectable)
    · cases failed

end Search

/-! ## A long path to a node that was visited -/

/-- A list whose first item is the anchored end of the chain that the second item starts. -/
def sharedTail : NodeGraph Nat :=
  { tag := fun _ => "tag:yaml.org,2002:seq"
    content := fun node =>
      if node = 0 then .sequence [70, 1] else if node < 140 then .sequence [node + 1] else .scalar }

/-- The guard returns, though the path through the second item has 141 nodes. -/
theorem sharedTail_admitted : ¬ BoundsWhatItAdmits sharedTail true 0 := by
  rintro ⟨-, bounds⟩
  have returned : validateYamlNodeGraph sharedTail true 300 (some 0) = some (.ok ()) := by
    decide
  have long := (bounds 300 returned).short (List.range 141) ⟨rfl, by decide +kernel⟩
  revert long
  decide +kernel

end AxiomEncode.SourceHash
