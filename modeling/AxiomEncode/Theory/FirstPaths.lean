/-
# Theory.FirstPaths -- the paths of a graph in the order of its edges

A graph is the list of successors of every node, and a path lists its nodes from the root on.  One
path is `Earlier` than another if it takes an earlier edge where the two part; a path is `First` if
no earlier one ends where it does.  Without cycles the first path to a node is unique
(`First.unique`), and it is the one along which a depth-first search enters the node.  The nodes such
a search has left are `Finished`: each after all its successors.
-/
import Mathlib.Data.List.Nodup
import Mathlib.Data.List.Chain
import Mathlib.Tactic.Common

namespace AxiomEncode.Theory

set_option autoImplicit false

section Paths

variable {ν : Type} (next : ν → List ν)

structure IsPath (root : ν) (path : List ν) : Prop where
  starts : path.head? = some root
  steps : path.IsChain fun a b => b ∈ next a

/-- The last node of a path. -/
def EndsAt (path : List ν) (node : ν) : Prop := path.getLast? = some node

def ReachedFrom (root node : ν) : Prop := ∃ path, IsPath next root path ∧ EndsAt path node

def Acyclic (root : ν) : Prop := ∀ path, IsPath next root path → path.Nodup

variable {next} {root a b c node : ν} {path other p q : List ν}

theorem isPath_singleton (root : ν) : IsPath next root [root] := ⟨rfl, .singleton root⟩

theorem IsPath.ne_nil (isPath : IsPath next root path) : path ≠ [] := by
  rintro rfl
  cases isPath.starts

/-- A path goes on to a successor of its end. -/
theorem IsPath.snoc (isPath : IsPath next root (p ++ [a])) (edge : b ∈ next a) :
    IsPath next root (p ++ [a] ++ [b]) := by
  refine ⟨?_, ?_⟩
  · rw [List.head?_append, isPath.starts]
    rfl
  · rw [List.isChain_append]
    refine ⟨isPath.steps, .singleton b, ?_⟩
    intro x last y first
    rw [List.getLast?_concat, Option.mem_some_iff] at last
    rw [List.head?_cons, Option.mem_some_iff] at first
    rwa [← last, ← first]

theorem IsPath.of_append (isPath : IsPath next root (p ++ q)) (nonempty : p ≠ []) :
    IsPath next root p := by
  refine ⟨?_, (List.isChain_append.mp isPath.steps).1⟩
  have starts := isPath.starts
  rwa [List.head?_append_of_ne_nil _ nonempty] at starts

variable {holds : ν → Prop}

/-- What is closed under successors and holds of a node holds of the rest of the path. -/
theorem forall_mem_of_closed (closed : ∀ a, holds a → ∀ b ∈ next a, holds b) (first : holds a)
    (steps : (a :: path).IsChain fun a b => b ∈ next a) :
    ∀ b ∈ a :: path, holds b := by
  induction path generalizing a with
  | nil =>
    intro b isMember
    rwa [List.mem_singleton.mp isMember]
  | cons c path ih =>
    rw [List.isChain_cons_cons] at steps
    have rest := ih (closed a first c steps.1) steps.2
    exact List.forall_mem_cons.mpr ⟨first, rest⟩

theorem ReachedFrom.of_closed (closed : ∀ a, holds a → ∀ b ∈ next a, holds b)
    (atRoot : holds root) (reached : ReachedFrom next root node) : holds node := by
  obtain ⟨path, isPath, ends⟩ := reached
  cases path with
  | nil => cases ends
  | cons a path =>
    obtain rfl : a = root := Option.some.inj isPath.starts
    exact forall_mem_of_closed closed atRoot isPath.steps node (List.mem_of_getLast? ends)

theorem IsPath.reached (isPath : IsPath next root path) (isMember : a ∈ path) :
    ReachedFrom next root a := by
  obtain ⟨before, after, rfl⟩ := List.append_of_mem isMember
  refine ⟨before ++ [a], ?_, List.getLast?_concat⟩
  have whole : IsPath next root (before ++ [a] ++ after) := by simpa using isPath
  exact whole.of_append (by simp)

/-- A path that goes on from another one to its end passes that end twice. -/
theorem eq_of_isPrefix (goes : p <+: q) (nodup : q.Nodup) (ends : EndsAt p node) (ends' : EndsAt q node) :
    p = q := by
  obtain ⟨more, rfl⟩ := goes
  cases more using List.reverseRecOn with
  | nil => rw [List.append_nil]
  | append_singleton more last =>
    have isLast : last = node := by
      rw [EndsAt, ← List.append_assoc, List.getLast?_concat] at ends'
      exact Option.some.inj ends'
    have inside : node ∈ p := List.mem_of_getLast? ends
    have again : node ∈ more ++ [last] := by simp [isLast]
    exact absurd rfl ((List.nodup_append.mp nodup).2.2 node inside node again)

end Paths

section Order

variable {ν : Type} [DecidableEq ν] (next : ν → List ν)

/-- The first path takes an earlier edge where the two part. -/
def Earlier (p q : List ν) : Prop :=
  ∃ before node a b after after', p = before ++ node :: a :: after ∧ q = before ++ node :: b :: after' ∧
    (next node).idxOf a < (next node).idxOf b

structure First (root : ν) (path : List ν) : Prop where
  isPath : IsPath next root path
  least : ∀ other node, IsPath next root other → EndsAt other node → EndsAt path node →
    ¬ Earlier next other path

variable {next} {root a b node : ν} {p q path : List ν}

theorem first_singleton (root : ν) : First next root [root] := by
  refine ⟨isPath_singleton root, ?_⟩
  rintro other node - - - ⟨before, n, a, b, after, after', -, parted, -⟩
  have length := congrArg List.length parted
  simp only [List.length_append, List.length_cons, List.length_nil] at length
  omega

/-- The way to a node on a first path is a first path. -/
theorem First.of_append (first : First next root (p ++ [a] ++ [b])) : First next root (p ++ [a]) := by
  refine ⟨first.isPath.of_append (by simp), ?_⟩
  rintro other node isPath ends ends' ⟨before, n, x, y, after, after', rfl, same, earlier⟩
  obtain rfl : a = node := by simpa [EndsAt] using ends'
  obtain ⟨whole, isLast⟩ : ∃ whole, before ++ n :: x :: after = whole ++ [a] := by
    obtain ⟨whole, last, split⟩ := List.eq_nil_or_concat' (before ++ n :: x :: after) |>.resolve_left
      isPath.ne_nil
    refine ⟨whole, ?_⟩
    rw [EndsAt, split, List.getLast?_concat] at ends
    rw [split, Option.some.inj ends]
  have edge : b ∈ next a := by
    have steps := (List.isChain_append.mp first.isPath.steps).2.2
    exact steps a (by simp) b (by simp)
  refine first.least (before ++ n :: x :: after ++ [b]) b ?_ List.getLast?_concat List.getLast?_concat ?_
  · rw [isLast] at isPath ⊢
    exact isPath.snoc edge
  · refine ⟨before, n, x, y, after ++ [b], after' ++ [b], by simp, ?_, earlier⟩
    rw [same]
    simp

/-- Two paths from one root part at an edge, or one goes on from the other. -/
theorem earlier_or_prefix (isPath : (a :: p).IsChain fun a b => b ∈ next a)
    (isPath' : (a :: q).IsChain fun a b => b ∈ next a) :
    Earlier next (a :: p) (a :: q) ∨ Earlier next (a :: q) (a :: p) ∨ a :: p <+: a :: q ∨
      a :: q <+: a :: p := by
  induction p generalizing a q with
  | nil => exact .inr (.inr (.inl ⟨q, rfl⟩))
  | cons x p ih =>
    cases q with
    | nil => exact .inr (.inr (.inr ⟨x :: p, rfl⟩))
    | cons y q =>
      rw [List.isChain_cons_cons] at isPath isPath'
      by_cases same : x = y
      · subst same
        rcases ih isPath.2 isPath'.2 with earlier | earlier | goes | goes
        · obtain ⟨before, n, u, v, after, after', first, second, less⟩ := earlier
          exact .inl ⟨a :: before, n, u, v, after, after', by rw [first]; rfl,
            by rw [second]; rfl, less⟩
        · obtain ⟨before, n, u, v, after, after', first, second, less⟩ := earlier
          exact .inr (.inl ⟨a :: before, n, u, v, after, after', by rw [first]; rfl,
            by rw [second]; rfl, less⟩)
        · exact .inr (.inr (.inl (List.cons_prefix_cons.mpr ⟨rfl, goes⟩)))
        · exact .inr (.inr (.inr (List.cons_prefix_cons.mpr ⟨rfl, goes⟩)))
      · have parted : (next a).idxOf x ≠ (next a).idxOf y := by
          intro equal
          exact same ((List.idxOf_inj isPath.1).mp equal)
        rcases Nat.lt_or_gt_of_ne parted with less | greater
        · exact .inl ⟨[], a, x, y, p, q, rfl, rfl, less⟩
        · exact .inr (.inl ⟨[], a, y, x, q, p, rfl, rfl, greater⟩)

/-- **Without cycles there is one first path to a node.** -/
theorem First.unique (acyclic : Acyclic next root) (first : First next root p)
    (first' : First next root q) (ends : EndsAt p node) (ends' : EndsAt q node) : p = q := by
  obtain ⟨x, p, rfl⟩ := List.exists_cons_of_ne_nil first.isPath.ne_nil
  obtain ⟨y, q, rfl⟩ := List.exists_cons_of_ne_nil first'.isPath.ne_nil
  obtain rfl : x = root := Option.some.inj first.isPath.starts
  obtain rfl : y = x := Option.some.inj first'.isPath.starts
  rcases earlier_or_prefix first.isPath.steps first'.isPath.steps with earlier | earlier | goes | goes
  · exact absurd earlier (first'.least _ node first.isPath ends ends')
  · exact absurd earlier (first.least _ node first'.isPath ends' ends)
  · exact eq_of_isPrefix goes (acyclic _ first'.isPath) ends ends'
  · exact (eq_of_isPrefix goes (acyclic _ first.isPath) ends' ends).symm

end Order

/-! ## Finished nodes -/

section Finished

variable {ν : Type} (next : ν → List ν)

/-- Nodes in the order opposite to that in which they were left: the successors of each come after it. -/
inductive Finished : List ν → Prop
  | nil : Finished []
  | cons {node : ν} {left : List ν} (new : node ∉ left) (closed : ∀ b ∈ next node, b ∈ left)
      (rest : Finished left) : Finished (node :: left)

variable {next} {left path : List ν} {node b : ν}

theorem Finished.nodup (finished : Finished next left) : left.Nodup := by
  induction finished with
  | nil => exact List.nodup_nil
  | cons new closed rest ih => exact List.nodup_cons.mpr ⟨new, ih⟩

theorem Finished.closed (finished : Finished next left) :
    ∀ a ∈ left, ∀ b ∈ next a, b ∈ left := by
  induction finished with
  | nil => simp
  | cons new closed rest ih =>
    refine List.forall_mem_cons.mpr ⟨fun b edge => List.mem_cons_of_mem _ (closed b edge), ?_⟩
    exact fun a isLeft b edge => List.mem_cons_of_mem _ (ih a isLeft b edge)

/-- No path among finished nodes meets a node twice. -/
theorem Finished.path_nodup (finished : Finished next left)
    (steps : (node :: path).IsChain fun a b => b ∈ next a) (isLeft : node ∈ left) :
    (node :: path).Nodup := by
  induction finished generalizing node path with
  | nil => cases isLeft
  | @cons head left new closed rest ih =>
    rcases List.mem_cons.mp isLeft with rfl | isLeft
    · cases path with
      | nil => exact List.nodup_singleton _
      | cons b path =>
        rw [List.isChain_cons_cons] at steps
        have later := closed b steps.1
        refine List.nodup_cons.mpr ⟨fun again => ?_, ih steps.2 later⟩
        exact new (forall_mem_of_closed rest.closed later steps.2 _ again)
    · exact ih steps isLeft

end Finished

end AxiomEncode.Theory
