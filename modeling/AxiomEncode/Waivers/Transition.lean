/-
# Waivers.Transition -- what a pull request may do to the waiver file

Each module path has two slots: an `active` record that tolerates a failure and a
`pending` record that preapproves its successor.  `protectedBaseTransitionIssues`
compares the waiver set of the protected base with the one of the head.
-/
import AxiomEncode.Theory.PyDate
import AxiomEncode.Theory.Checks
import Mathlib.Data.Char
import Mathlib.Data.List.AList
import Mathlib.Data.Finset.Basic
import Mathlib.Data.List.Dedup
import Mathlib.Data.List.Lex

namespace AxiomEncode.Waivers

open Theory

set_option autoImplicit false

abbrev Text := List Char

/-- One waiver record.  The loader admits no text that is not a date. -/
structure WaiverMetadata where
  fingerprint : Text
  owner : Text
  issue : Text
  expires : Text
  dated : (Date.fromIsoFormat expires).isSome = true
  deriving DecidableEq

def WaiverMetadata.expiryDate (metadata : WaiverMetadata) : Date :=
  (Date.fromIsoFormat metadata.expires).get metadata.dated

structure WaiverEntry where
  path : Text
  active : Option WaiverMetadata := none
  pending : Option WaiverMetadata := none

structure ValidationWaiverSet where
  entries : AList fun _ : Text => WaiverEntry

def ValidationWaiverSet.active (waivers : ValidationWaiverSet) (path : Text) :
    Option WaiverMetadata := (waivers.entries.lookup path).bind WaiverEntry.active

def ValidationWaiverSet.pending (waivers : ValidationWaiverSet) (path : Text) :
    Option WaiverMetadata := (waivers.entries.lookup path).bind WaiverEntry.pending

def defaultWaiverPath : Text := "known-validation-gaps.yaml".toList

section Transition

variable (base head : ValidationWaiverSet) (changedPaths : Finset Text) (waiverPath : Text)
  (today : Date)

/-- What is wrong with the active record of a path. -/
def activationIssues (path : Text) : List Text :=
  match head.active path with
  | none => []
  | some activated =>
    if head.active path = base.active path then []
    else
      match base.pending path with
      | none =>
        [path ++ ": new or changed active waiver must exactly consume ".toList ++
          "the protected base's pending record".toList]
      | some approved =>
        if activated ≠ approved then
          [path ++ ": new or changed active waiver must exactly consume ".toList ++
            "the protected base's pending record".toList]
        else
          (if approved.expiryDate ≤ today then
            [path ++ ": protected-base pending approval expired on ".toList ++ approved.expires]
          else []) ++
            if (head.pending path).isSome then
              [path ++ ": activating a pending waiver must consume it".toList]
            else []

/-- What is wrong with the pending record of a path. -/
def approvalIssues (path : Text) : List Text :=
  if (head.pending path).isSome ∧ head.pending path ≠ base.pending path ∧
      changedPaths ≠ {waiverPath} then
    [path ++ ": new or changed pending approval requires a waiver-only ".toList ++
      "pull request (only ".toList ++ waiverPath ++ " may change)".toList]
  else []

/-- `sorted(set(base.entries) | set(head.entries))` -/
def waiverPaths : List Text :=
  (base.entries.keys ++ head.entries.keys).dedup.mergeSort fun a b => decide (a ≤ b)

def protectedBaseTransitionIssues : List Text :=
  (waiverPaths base head).flatMap fun path =>
    activationIssues base head today path ++
      approvalIssues base head changedPaths waiverPath path

def validateProtectedBaseTransition : Except Text Unit :=
  let issues := protectedBaseTransitionIssues base head changedPaths waiverPath today
  if issues.isEmpty then .ok () else .error ("; ".toList.intercalate issues)

end Transition

/-! ## What an accepted pull request does -/

variable {base head : ValidationWaiverSet} {changedPaths : Finset Text} {waiverPath : Text}
  {today : Date} {path : Text} {record : WaiverMetadata}

theorem validateProtectedBaseTransition_eq_ok_iff {u : Unit} :
    validateProtectedBaseTransition base head changedPaths waiverPath today = .ok u ↔
      ∀ path ∈ waiverPaths base head, activationIssues base head today path = [] ∧
        approvalIssues base head changedPaths waiverPath path = [] := by
  unfold validateProtectedBaseTransition protectedBaseTransitionIssues
  dsimp only
  split_ifs with none_
  · simpa [List.isEmpty_iff, List.flatMap_eq_nil_iff] using none_
  · simpa [List.isEmpty_iff, List.flatMap_eq_nil_iff] using none_

theorem mem_waiverPaths : path ∈ waiverPaths base head ↔
    path ∈ base.entries ∨ path ∈ head.entries := by
  unfold waiverPaths
  rw [(List.mergeSort_perm _ _).mem_iff, List.mem_dedup, List.mem_append]
  rfl

theorem mem_of_active (here : head.active path = some record) : path ∈ head.entries := by
  obtain ⟨entry, found, -⟩ := Option.bind_eq_some_iff.mp here
  exact AList.lookup_isSome.mp (by rw [found]; rfl)

theorem mem_of_pending (here : head.pending path = some record) : path ∈ head.entries := by
  obtain ⟨entry, found, -⟩ := Option.bind_eq_some_iff.mp here
  exact AList.lookup_isSome.mp (by rw [found]; rfl)

/-- An activation consumes the base's pending record, before it expires. -/
theorem activation_spec
    (accepted : validateProtectedBaseTransition base head changedPaths waiverPath today = .ok ())
    (activated : head.active path = some record) (new : base.active path ≠ some record) :
    base.pending path = some record ∧ today < record.expiryDate ∧ head.pending path = none := by
  have none_ := (validateProtectedBaseTransition_eq_ok_iff.mp accepted path
    (mem_waiverPaths.mpr (.inr (mem_of_active activated)))).1
  unfold activationIssues at none_
  rw [activated] at none_
  dsimp only at none_
  rw [if_neg (Ne.symm new)] at none_
  split at none_
  · simp at none_
  · next approved pending =>
      split_ifs at none_ with other expired consumed consumed
      all_goals simp at none_
      have same : record = approved := not_not.mp other
      subst same
      exact ⟨pending, not_le.mp expired, by simpa using consumed⟩

/-- A new approval comes alone. -/
theorem approval_spec
    (accepted : validateProtectedBaseTransition base head changedPaths waiverPath today = .ok ())
    (approved : head.pending path = some record) (new : base.pending path ≠ some record) :
    changedPaths = {waiverPath} := by
  have none_ := (validateProtectedBaseTransition_eq_ok_iff.mp accepted path
    (mem_waiverPaths.mpr (.inr (mem_of_pending approved)))).2
  unfold approvalIssues at none_
  by_contra others
  rw [if_pos ⟨by rw [approved]; rfl, by rw [approved]; exact Ne.symm new, others⟩] at none_
  cases none_

end AxiomEncode.Waivers
