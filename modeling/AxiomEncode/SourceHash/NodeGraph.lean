/-
# SourceHash.NodeGraph -- the guard of composed YAML

A composed document is a graph of nodes: an alias is the node of its anchor.
`validateYamlNodeGraph` walks it depth first with a stack of its own.  Every node goes on the stack once
more when it is entered, to be left when its children are done: it is active in between and
visited after.  A node that was visited is not entered again.
-/
import Mathlib.Tactic.Common

namespace AxiomEncode.SourceHash

set_option autoImplicit false

def maxYamlNodes : Nat := 50000

def maxYamlDepth : Nat := 128

/-- `_YAML_MERGE_TAG` -/
def yamlMergeTag : String := "tag:yaml.org,2002:merge"

/-- `node.value`, where the identities of nodes are of any type. -/
inductive Content (ν : Type) where
  | scalar
  | sequence (items : List ν)
  | mapping (members : List (ν × ν))

structure NodeGraph (ν : Type) where
  tag : ν → String
  content : ν → Content ν

inductive GuardError where
  | recursive
  | tooManyNodes
  | tooDeep
  | merge
  deriving DecidableEq

/-- The detail of the `RuleSpecScanError`. -/
def GuardError.detail : GuardError → String
  | recursive => "recursive YAML aliases are not permitted"
  | tooManyNodes => s!"candidate YAML exceeds the {maxYamlNodes}-node limit"
  | tooDeep => s!"candidate YAML exceeds the {maxYamlDepth}-level limit"
  | merge => "YAML merge keys are not permitted in RuleSpec scans"

/-- What lies on the stack. -/
structure Entry (ν : Type) where
  node : ν
  depth : Nat
  exiting : Bool

structure Walk (ν : Type) where
  visited : List ν := []
  active : List ν := []
  /-- The top first. -/
  stack : List (Entry ν)
  nodeCount : Nat := 0

section Guard

variable {ν : Type} [DecidableEq ν] (graph : NodeGraph ν) (rejectMerges : Bool)

/-- The children of a node that is entered. -/
def children (node : ν) : Except GuardError (List ν) :=
  match graph.content node with
  | .mapping members =>
    if rejectMerges && members.any fun member => graph.tag member.1 == yamlMergeTag then
      .error .merge
    else .ok (members.flatMap fun member => [member.1, member.2])
  | .sequence items => .ok items
  | .scalar => .ok []

/-- The entry on top of the stack is taken off. -/
def Walk.takeEntry (walk : Walk ν) (entry : Entry ν) (rest : List (Entry ν)) :
    Except GuardError (Walk ν) :=
  if entry.exiting then
    .ok { walk with
      visited := entry.node :: walk.visited
      active := walk.active.erase entry.node
      stack := rest }
  else if entry.node ∈ walk.active then .error .recursive
  else if entry.node ∈ walk.visited then .ok { walk with stack := rest }
  else if maxYamlNodes < walk.nodeCount + 1 then .error .tooManyNodes
  else if maxYamlDepth < entry.depth then .error .tooDeep
  else do
    let below ← children graph rejectMerges entry.node
    .ok { walk with
      active := entry.node :: walk.active
      stack :=
        below.map (fun child => { node := child, depth := entry.depth + 1, exiting := false }) ++
          { entry with exiting := true } :: rest
      nodeCount := walk.nodeCount + 1 }

/-- The loop, for a number of steps: none if it is not over. -/
def Walk.run : Nat → Walk ν → Option (Except GuardError Unit)
  | 0, walk => if walk.stack.isEmpty then some (.ok ()) else none
  | fuel + 1, walk =>
    match walk.stack with
    | [] => some (.ok ())
    | entry :: rest =>
      match walk.takeEntry graph rejectMerges entry rest with
      | .ok walk => walk.run fuel
      | .error error => some (.error error)

def Walk.start (root : ν) : Walk ν :=
  { stack := [{ node := root, depth := 1, exiting := false }] }

/-- The guard, for a number of steps of its loop. -/
def validateYamlNodeGraph (fuel : Nat) : Option ν → Option (Except GuardError Unit)
  | none => some (.ok ())
  | some root => (Walk.start root).run graph rejectMerges fuel

end Guard

/-! ## The loop ends -/

section Ends

variable {ν : Type} [DecidableEq ν] {graph : NodeGraph ν} {rejectMerges : Bool}

/-- A step that enters a node counts it, and any other one takes an entry off the stack. -/
theorem Walk.takeEntry_progress {walk after : Walk ν} {entry : Entry ν} {rest : List (Entry ν)}
    (taken : walk.takeEntry graph rejectMerges entry rest = .ok after) :
    (after.nodeCount = walk.nodeCount ∧ after.stack = rest) ∨
      (after.nodeCount = walk.nodeCount + 1 ∧ after.nodeCount ≤ maxYamlNodes) := by
  unfold Walk.takeEntry at taken
  split_ifs at taken with exiting active visited tooMany tooDeep
  · cases taken
    exact .inl ⟨rfl, rfl⟩
  · cases taken
    exact .inl ⟨rfl, rfl⟩
  · cases below : children graph rejectMerges entry.node with
    | error error =>
      rw [below] at taken
      cases taken
    | ok below' =>
      rw [below] at taken
      cases taken
      exact .inr ⟨rfl, Nat.le_of_not_lt tooMany⟩

/-- **The loop is over after some number of steps**, on cyclic graphs too. -/
theorem Walk.exists_run (walk : Walk ν) : ∃ fuel outcome, walk.run graph rejectMerges fuel = some outcome := by
  -- the nodes that may still be counted, then the entries on the stack
  induction measure : (maxYamlNodes - walk.nodeCount, walk.stack.length) using
    (Prod.instWellFoundedRelation (α := Nat) (β := Nat)).wf.induction generalizing walk with
  | h pair ih =>
    subst measure
    cases stack : walk.stack with
    | nil => exact ⟨0, .ok (), by rw [Walk.run, stack]; rfl⟩
    | cons entry rest =>
      cases taken : walk.takeEntry graph rejectMerges entry rest with
      | error error => exact ⟨1, .error error, by simp only [Walk.run, stack, taken]⟩
      | ok after =>
        have smaller : Prod.Lex (· < ·) (· < ·) (maxYamlNodes - after.nodeCount, after.stack.length)
            (maxYamlNodes - walk.nodeCount, walk.stack.length) := by
          rcases Walk.takeEntry_progress taken with ⟨same, isRest⟩ | ⟨counted, within⟩
          · rw [same, isRest, stack]
            exact .right _ (Nat.lt_succ_self _)
          · exact .left _ _ (by omega)
        obtain ⟨fuel, outcome, ran⟩ := ih _ smaller after rfl
        exact ⟨fuel + 1, outcome, by simp only [Walk.run, stack, taken, ran]⟩

end Ends

end AxiomEncode.SourceHash
