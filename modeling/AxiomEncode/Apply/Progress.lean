/-
# Apply.Progress -- how far a transaction has come, read off a run

No program sees the marks of its run.  `progress` folds them into what a property
of the run speaks of: the tree in which the transaction began, and whether a
committed journal was ever on disk.
-/
import AxiomEncode.Apply.JournalSpec
import AxiomEncode.Apply.Steps

namespace AxiomEncode.Apply

open Theory Crash

set_option autoImplicit false

/-- The step with which a transaction begins: no interrupted one is left. -/
def planStep : FileOp := .inspect "plan"

/-- The journal on disk says `committed`. -/
def Checkout.committed (checkout : Checkout) : Bool :=
  match checkout.node journalPath with
  | some (.file raw _) =>
    match (decodeUtf8 raw).bind Json.loads with
    | some (.obj members) =>
      (Json.get? members "state").bind Json.text? == some JournalState.committed.text
    | _ => false
  | _ => false

structure Progress where
  original : Checkout
  committed : Bool

def Progress.note (progress : Progress) (mark : Mark fileMachine) : Progress where
  original := progress.original
  committed := progress.committed || mark.after.committed

/-- A committed journal was on disk at some time. -/
def committedIn (log : List (Mark fileMachine)) : Bool := log.any fun mark => mark.after.committed

/-- The progress of the transaction that a run began, if it began one. -/
def progress : List (Mark fileMachine) → Option Progress
  | [] => none
  | mark :: earlier =>
    match progress earlier with
    | some found => some (found.note mark)
    | none =>
      if mark.op = planStep then
        some { original := mark.after, committed := committedIn (mark :: earlier) }
      else none

variable {log : List (Mark fileMachine)} {found : Progress}

theorem progress_cons (here : progress log = some found) (mark : Mark fileMachine) :
    progress (mark :: log) = some (found.note mark) := by
  rw [progress, here]

@[simp] theorem Progress.note_original (progress : Progress) (mark : Mark fileMachine) :
    (progress.note mark).original = progress.original := rfl

theorem progress_committed (here : progress log = some found) :
    found.committed = committedIn log := by
  induction log generalizing found with
  | nil => cases here
  | cons mark earlier ih =>
    rw [progress] at here
    split at here
    · next before known =>
        rw [← Option.some.inj here, committedIn, List.any_cons, Bool.or_comm]
        exact congrArg (· || _) (ih known)
    · split at here
      · rw [← Option.some.inj here]
      · cases here

theorem committed_journal {checkout : Checkout} {journal : Journal} {mode : Nat}
    (here : checkout.node journalPath = some (.file journal.bytes mode)) :
    checkout.committed = true ↔ journal.state = .committed := by
  unfold Checkout.committed
  rw [here]
  dsimp only
  unfold Journal.bytes
  rw [decodeUtf8_utf8, Option.bind_some, Json.loads_dumps journal.json (isPlain_journal journal)]
  unfold Journal.json
  dsimp only
  rw [get_state]
  cases journal.state <;> decide

theorem committed_missing {checkout : Checkout} (missing : checkout.node journalPath = none) :
    checkout.committed = false := by
  unfold Checkout.committed
  rw [missing]

end AxiomEncode.Apply
