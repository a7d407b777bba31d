/-
# Queue.AttemptBudget -- how often an encoding may fail

`evaluateAttemptBudget` counts the failed runs of a citation back to its newest success.
A run counts on either side only if it reached the model, and a classifier decides that.
`makeEncodeJobChecker` is the classifier of the guard: it looks up the jobs of a run, a
bounded number of times, and takes a run it could not look up for a failure that counts
and for a success that does not.
-/
import AxiomEncode.Queue.Evidence

namespace AxiomEncode.Queue

open Theory
open Theory.Json (value same)

set_option autoImplicit false

/-! ## Runs -/

/-- `FAILURE_CONCLUSIONS` -/
def failureConclusions : List String := ["failure", "timed_out"]

/-- `NEUTRAL_CONCLUSIONS` -/
def neutralConclusions : List String :=
  ["cancelled", "skipped", "neutral", "action_required", "startup_failure", "stale"]

/-- `ENCODE_JOB_NAME` -/
def encodeJobName : String := "Queue protected signed RuleSpec re-encode"

/-- `ENCODE_STEP_NAME` -/
def encodeStepName : String := "Encode, review, validate, and apply"

/-- `MAX_JOB_LOOKUPS` -/
def maxJobLookups : Int := 10

/-- `run_citation`: the text after the last `"] "` of the name. -/
def runCitation (runName : Json) : Option Text :=
  match runName with
  | .str name =>
    ((name.tails.filter ("] ".toList.isPrefixOf ·)).getLast?).map fun part => part.drop 2
  | _ => none

/-- `str(run.get("created_at") or "")` -/
def createdAt (host : Host) (run : Record) : Text := host.strOr (value run "created_at") ""

/-- A completed run of the citation, other than the current one. -/
def isMatching (citation : Text) (currentRunId : Int) (run : Record) : Bool :=
  runCitation (value run "name") == some citation &&
    !same (value run "id") (.int currentRunId) &&
    same (value run "status") (Queue.str "completed")

def isSuccess (run : Record) : Bool := same (value run "conclusion") (Queue.str "success")

/-! ## The streak -/

/-- What is kept of a counted run. -/
def countedRun (run : Record) : Record :=
  [("id".toList, value run "id"), ("created_at".toList, value run "created_at"),
    ("conclusion".toList, value run "conclusion"), ("html_url".toList, value run "html_url")]

structure Decision where
  streak : Nat
  budget : Int
  countedRuns : List Record

/-- `Decision.exhausted` -/
def Decision.exhausted (decision : Decision) : Prop := decision.budget ≤ decision.streak

def Decision.count (decision : Decision) (run : Record) : Decision :=
  { decision with
    streak := decision.streak + 1
    countedRuns := decision.countedRuns ++ [countedRun run] }

/-- A classifier with a state of its own: did the run reach the model? -/
abbrev Classifier (σ : Type) := σ → Record → Except QueueError (Bool × σ)

/-- No classifier: every run counts. -/
def everyRun : Classifier Unit := fun state _ => .ok (true, state)

section

variable {σ : Type}

/-- The loop over the matching runs, newest first. -/
def countFailures (spentModelTokens : Classifier σ) :
    σ → Decision → List Record → Except QueueError Decision
  | _, decision, [] => .ok decision
  | state, decision, run :: rest =>
    if isSuccess run then do
      let (spent, state) ← spentModelTokens state run
      if spent then pure decision else countFailures spentModelTokens state decision rest
    else do
      let neutral ← isOneOf (value run "conclusion") neutralConclusions
      if neutral then countFailures spentModelTokens state decision rest
      else do
        let failed ← isOneOf (value run "conclusion") failureConclusions
        if failed then do
          let (spent, state) ← spentModelTokens state run
          countFailures spentModelTokens state (if spent then decision.count run else decision)
            rest
        -- An unknown conclusion is neutral.
        else countFailures spentModelTokens state decision rest

/-- `evaluate_attempt_budget`, the classifier in the state it starts in. -/
def evaluateAttemptBudget (host : Host) (spentModelTokens : Classifier σ) (state : σ)
    (runs : List Record) (citation : Text) (budget currentRunId : Int) :
    Except QueueError Decision :=
  countFailures spentModelTokens state ⟨0, budget, []⟩
    (newestFirst host "created_at" (runs.filter (isMatching citation currentRunId)))

end

/-! ## The classifier of the guard -/

/-- `isinstance(raw, int)`; a truth value is one too. -/
def isInt (raw : Json) : Bool :=
  match raw with
  | .int _ => true
  | .bool _ => true
  | _ => false

/-- `job.get("steps") or []`, what iterating it gives.  Of a text or an object that are
texts, which are no steps. -/
def stepsOf (raw : Json) : Except QueueError (List Json) :=
  if isTruthy raw then
    match raw with
    | .arr items => .ok items
    | .str _ => .ok []
    | .obj _ => .ok []
    | _ => .error .type
  else .ok []

/-- The dictionaries of a list that have a name. -/
def recordsNamed (name : String) (items : List Json) : List Record :=
  (items.filterMap fun item =>
    match item with
    | .obj members => some members
    | _ => none).filter fun record => same (value record "name") (Queue.str name)

/-- The jobs have the encode job with the encode step, and it was not skipped. -/
def ranEncodeStep (jobName stepName : String) (jobs : List Json) : Except QueueError Bool := do
  let steps ← (recordsNamed jobName jobs).mapM fun job => stepsOf (value job "steps")
  pure ((recordsNamed stepName steps.flatten).any fun step =>
    !same (value step "conclusion") (Queue.str "skipped"))

/-- `make_encode_job_checker`, with the number of lookups so far.  `fetchJobs` is none on
a run it raises for. -/
def makeEncodeJobChecker (fetchJobs : Json → Option (List Json)) (maxLookups : Int)
    (jobName stepName : String) : Classifier Nat := fun lookups run =>
  let unverified := !isSuccess run
  let runId := value run "id"
  if !isInt runId || maxLookups ≤ lookups then .ok (unverified, lookups)
  else
    match fetchJobs runId with
    | none => .ok (unverified, lookups + 1)
    | some jobs => do
      let ran ← ranEncodeStep jobName stepName jobs
      pure (ran, lookups + 1)

/-- The classifier that answers from the jobs of every run. -/
def oracleChecker (jobsOf : Record → List Json) (jobName stepName : String) : Classifier Unit :=
  fun state run => do
    let ran ← ranEncodeStep jobName stepName (jobsOf run)
    pure (ran, state)

end AxiomEncode.Queue
