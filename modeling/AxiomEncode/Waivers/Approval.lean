/-
# Waivers.Approval -- every activation of a run has an approval of its own

A run is a chain of accepted pull requests from a waiver set without records.  The
pending record that an activation consumes came about at a last step before it and
has stayed pending since; a consumed record is pending no more, so two activations
of one path never share that step.
-/
import AxiomEncode.Theory.Runs
import AxiomEncode.Waivers.Transition

namespace AxiomEncode.Waivers

open Theory

set_option autoImplicit false

structure PullRequest where
  head : ValidationWaiverSet
  changedPaths : Finset Text
  today : Date

/-- The waiver set after so many pull requests. -/
def stateAfter (initial : ValidationWaiverSet) (requests : List PullRequest) :
    Nat → ValidationWaiverSet
  | 0 => initial
  | count + 1 => (requests[count]?.map PullRequest.head).getD initial

/-- Pull requests merged one after another, each accepted against its base. -/
structure Run where
  waiverPath : Text
  initial : ValidationWaiverSet
  requests : List PullRequest
  empty : ∀ path, initial.active path = none ∧ initial.pending path = none
  accepted : ∀ i (inside : i < requests.length),
    validateProtectedBaseTransition (stateAfter initial requests i) requests[i].head
      requests[i].changedPaths waiverPath requests[i].today = .ok ()

namespace Run

variable (run : Run)

def state (count : Nat) : ValidationWaiverSet := stateAfter run.initial run.requests count

theorem state_succ {i : Nat} (inside : i < run.requests.length) :
    run.state (i + 1) = run.requests[i].head := by
  show (run.requests[i]?.map PullRequest.head).getD run.initial = _
  rw [List.getElem?_eq_getElem inside]
  rfl

/-- Pull request `i` makes a record the active one of a path. -/
def Activates (path : Text) (i : Nat) (record : WaiverMetadata) : Prop :=
  i < run.requests.length ∧ (run.state (i + 1)).active path = some record ∧
    (run.state i).active path ≠ some record

/-- Pull request `i` approves a record of a path, and changes the waiver file alone. -/
def Approves (path : Text) (i : Nat) (record : WaiverMetadata) : Prop :=
  (run.state (i + 1)).pending path = some record ∧ (run.state i).pending path ≠ some record ∧
    ∃ inside : i < run.requests.length, run.requests[i].changedPaths = {run.waiverPath}

variable {run} {path : Text} {i : Nat} {record : WaiverMetadata}

/-- What one activation does. -/
theorem Activates.consumes (activates : run.Activates path i record) :
    (run.state i).pending path = some record ∧ (run.state (i + 1)).pending path = none ∧
      ∃ inside : i < run.requests.length, run.requests[i].today < record.expiryDate := by
  obtain ⟨inside, activated, new⟩ := activates
  rw [run.state_succ inside] at activated ⊢
  obtain ⟨pending, early, consumed⟩ := activation_spec (run.accepted i inside) activated new
  exact ⟨pending, consumed, inside, early⟩

/-- A record that becomes pending is approved by a pull request of its own. -/
theorem approves_of_pending (inside : i < run.requests.length)
    (pending : (run.state (i + 1)).pending path = some record)
    (new : (run.state i).pending path ≠ some record) : run.Approves path i record := by
  refine ⟨pending, new, inside, ?_⟩
  rw [run.state_succ inside] at pending
  exact approval_spec (run.accepted i inside) pending new

/-- Before each activation its record was approved, and has been pending since. -/
theorem Activates.exists_approval (activates : run.Activates path i record) :
    ∃ step < i, run.Approves path step record ∧
      ∀ later, step < later → later ≤ i → (run.state later).pending path = some record := by
  have start : ¬ (run.state 0).pending path = some record := by
    rw [show (run.state 0).pending path = none from (run.empty path).2]
    exact nofun
  obtain ⟨step, early, new, since⟩ := exists_last_step run.state
    (fun waivers => waivers.pending path = some record) start activates.consumes.1
  exact ⟨step, early, approves_of_pending (by have := activates.1; omega)
    (since (step + 1) (by omega) (by omega)) new, since⟩

/-- **No waiver is activated without an approval of its own**: each activation consumes
a pending record that an earlier pull request introduced alone, before it expires, and
different activations of a path consume different approvals. -/
theorem activation_has_own_approval (run : Run) (path : Text) :
    ∃ approval : Nat → Nat,
      (∀ i record, run.Activates path i record →
        (run.state i).pending path = some record ∧ approval i < i ∧
          run.Approves path (approval i) record ∧
          (∃ inside : i < run.requests.length, run.requests[i].today < record.expiryDate) ∧
          (run.state (i + 1)).pending path = none) ∧
      ∀ i j, (∃ record, run.Activates path i record) → (∃ record, run.Activates path j record) →
        approval i = approval j → i = j := by
  have each : ∀ i, ∃ step, ∀ record, run.Activates path i record →
      step < i ∧ run.Approves path step record ∧
        ∀ later, step < later → later ≤ i → (run.state later).pending path = some record := by
    intro i
    by_cases active : ∃ record, run.Activates path i record
    · obtain ⟨record, activates⟩ := active
      obtain ⟨step, early, approves, since⟩ := activates.exists_approval
      refine ⟨step, fun other also => ?_⟩
      obtain rfl : record = other :=
        Option.some.inj (activates.2.1.symm.trans also.2.1)
      exact ⟨early, approves, since⟩
    · exact ⟨0, fun record activates => absurd ⟨record, activates⟩ active⟩
  choose approval spec using each
  -- between its approval and its activation a record is never consumed
  have later : ∀ i j, (∃ record, run.Activates path i record) →
      (∃ record, run.Activates path j record) → approval i = approval j → ¬ i < j := by
    rintro i j ⟨first, activates⟩ ⟨second, again⟩ same before
    have gone := activates.consumes.2.1
    have pending := (spec j second again).2.2 (i + 1)
      (by have := (spec i first activates).1; omega) (by omega)
    rw [gone] at pending
    cases pending
  refine ⟨approval, fun i record activates => ?_, fun i j first second same => ?_⟩
  · obtain ⟨pending, consumed, early⟩ := activates.consumes
    exact ⟨pending, (spec i record activates).1, (spec i record activates).2.1, early, consumed⟩
  · have := later i j first second same
    have := later j i second first same.symm
    omega

/-! ## A run of two pull requests -/

def sampleRecord : WaiverMetadata where
  fingerprint := "sha256:7".toList
  owner := "encoding".toList
  issue := "#12".toList
  expires := "2026-06-01".toList
  dated := by decide

def samplePath : Text := "us/statutes/7.yaml".toList

def noWaivers : ValidationWaiverSet := ⟨∅⟩

def oneWaiver (active pending : Option WaiverMetadata) : ValidationWaiverSet :=
  ⟨AList.singleton samplePath ⟨samplePath, active, pending⟩⟩

/-- The record is approved alone. -/
def approvingRequest : PullRequest :=
  ⟨oneWaiver none (some sampleRecord), {defaultWaiverPath}, ⟨2026, 5, 1, by decide, by decide, by decide⟩⟩

/-- The record is made active together with its module, before it expires. -/
def activatingRequest : PullRequest :=
  ⟨oneWaiver (some sampleRecord) none, {samplePath, defaultWaiverPath},
    ⟨2026, 5, 31, by decide, by decide, by decide⟩⟩

theorem approvingRequest_accepted :
    validateProtectedBaseTransition noWaivers approvingRequest.head approvingRequest.changedPaths
      defaultWaiverPath approvingRequest.today = .ok () :=
  validateProtectedBaseTransition_eq_ok_iff.mpr (by decide +kernel)

theorem activatingRequest_accepted :
    validateProtectedBaseTransition approvingRequest.head activatingRequest.head
      activatingRequest.changedPaths defaultWaiverPath activatingRequest.today = .ok () :=
  validateProtectedBaseTransition_eq_ok_iff.mpr (by decide +kernel)

def sampleRun : Run where
  waiverPath := defaultWaiverPath
  initial := noWaivers
  requests := [approvingRequest, activatingRequest]
  empty _ := ⟨rfl, rfl⟩
  accepted
    | 0, _ => approvingRequest_accepted
    | 1, _ => activatingRequest_accepted

/-- The second pull request activates the record that the first one approved. -/
theorem activation_has_own_approval_sample :
    sampleRun.Activates samplePath 1 sampleRecord ∧ sampleRun.Approves samplePath 0 sampleRecord := by
  have activates : sampleRun.Activates samplePath 1 sampleRecord := by
    refine ⟨?_, ?_, ?_⟩ <;> decide +kernel
  obtain ⟨approval, each, -⟩ := activation_has_own_approval sampleRun samplePath
  obtain ⟨-, before, approves, -⟩ := each 1 sampleRecord activates
  rw [Nat.lt_one_iff.mp before] at approves
  exact ⟨activates, approves⟩

end Run

end AxiomEncode.Waivers
