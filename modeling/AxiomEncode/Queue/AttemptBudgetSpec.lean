/-
# Queue.AttemptBudgetSpec -- the capped budget errs toward blocking

A classifier that answers truly, or else takes a failure for spent and a success for not
spent, gives a streak no shorter than the true one (`streak_le_of_conservative`).  The
true streak is the number of spent failures newer than every spent success
(`streak_eq_countP`), and the order in which the runs arrive plays no part
(`evaluateAttemptBudget_perm`).
-/
import AxiomEncode.Queue.AttemptBudget
import AxiomEncode.Queue.FinalizeSpec

namespace AxiomEncode.Queue

open Theory
open Theory.Json (value same)

set_option autoImplicit false

/-! ## Failures -/

/-- The conclusion is one that counts against the budget. -/
def isFailure (run : Record) : Bool :=
  match isOneOf (value run "conclusion") failureConclusions with
  | .ok failed => failed
  | .error _ => false

/-- `conclusion in {…}` does not raise. -/
def isHashable (raw : Json) : Bool :=
  match raw with
  | .arr _ => false
  | .obj _ => false
  | _ => true

/-- No conclusion is of two kinds. -/
theorem apart_of_isFailure {run : Record} (failure : isFailure run = true) :
    isSuccess run = false ∧ isOneOf (value run "conclusion") neutralConclusions = .ok false := by
  unfold isFailure at failure
  unfold isSuccess
  cases held : value run "conclusion" with
  | str text =>
    rw [held] at failure
    simp only [isOneOf, failureConclusions, List.any_cons, List.any_nil, Bool.or_false,
      Bool.or_eq_true, beq_iff_eq] at failure
    rcases failure with rfl | rfl <;> decide
  | _ => rw [held] at failure; cases failure

theorem not_isFailure_of_isSuccess {run : Record} (success : isSuccess run = true) :
    isFailure run = false := by
  by_contra failure
  rw [Bool.not_eq_false] at failure
  have := (apart_of_isFailure failure).1
  rw [success] at this
  cases this

/-! ## One run at a time -/

variable {runs : List Record} {exact : Decision} {citation : Text} {budget currentRunId : Int}

section

variable {σ : Type} {spentModelTokens : Classifier σ} {state : σ} {decision : Decision}
  {run : Record} {rest : List Record}

theorem countFailures_success (success : isSuccess run = true) :
    countFailures spentModelTokens state decision (run :: rest) = (do
      let (spent, state) ← spentModelTokens state run
      if spent then pure decision else countFailures spentModelTokens state decision rest) := by
  rw [countFailures, if_pos success]

theorem countFailures_failure (failure : isFailure run = true) :
    countFailures spentModelTokens state decision (run :: rest) = (do
      let (spent, state) ← spentModelTokens state run
      countFailures spentModelTokens state (if spent then decision.count run else decision)
        rest) := by
  obtain ⟨noSuccess, notNeutral⟩ := apart_of_isFailure failure
  have failed : isOneOf (value run "conclusion") failureConclusions = .ok true := by
    unfold isFailure at failure
    split at failure
    · next held => rw [held, failure]
    · cases failure
  rw [countFailures, noSuccess, notNeutral, failed]
  rfl

/-- A run of any other conclusion is passed over, unless it cannot be compared. -/
theorem countFailures_other (noSuccess : isSuccess run = false) (noFailure : isFailure run = false) :
    countFailures spentModelTokens state decision (run :: rest) =
      if isHashable (value run "conclusion") then
        countFailures spentModelTokens state decision rest
      else .error .type := by
  unfold isFailure at noFailure
  rw [countFailures, if_neg (by rw [noSuccess]; exact Bool.false_ne_true)]
  cases held : value run "conclusion" with
  | str text =>
    rw [held] at noFailure
    have notFailed : isOneOf (.str text) failureConclusions = .ok false := by
      simpa [isOneOf] using noFailure
    rw [notFailed]
    simp only [isOneOf, isHashable, bind, Except.bind]
    split <;> rfl
  | _ => rfl

/-- The streak never gets shorter. -/
theorem streak_le_of_countFailures {state : σ} {decision last : Decision}
    (ok : countFailures spentModelTokens state decision runs = .ok last) :
    decision.streak ≤ last.streak ∧ decision.budget = last.budget := by
  induction runs generalizing state decision with
  | nil =>
    cases ok
    exact ⟨le_refl _, rfl⟩
  | cons run rest ih =>
    cases success : isSuccess run with
    | true =>
      rw [countFailures_success success, bind_eq_ok_iff] at ok
      obtain ⟨⟨spent, state'⟩, -, ok⟩ := ok
      cases spent with
      | true =>
        cases ok
        exact ⟨le_refl _, rfl⟩
      | false => exact ih ok
    | false =>
      cases failure : isFailure run with
      | true =>
        rw [countFailures_failure failure, bind_eq_ok_iff] at ok
        obtain ⟨⟨spent, state'⟩, -, ok⟩ := ok
        obtain ⟨longer, budget⟩ := ih ok
        cases spent with
        | true => exact ⟨(Nat.le_succ _).trans longer, budget⟩
        | false => exact ⟨longer, budget⟩
      | false =>
        rw [countFailures_other success failure] at ok
        split at ok
        · exact ih ok
        · cases ok

end

/-! ## A conservative classifier -/

/-- Every answer is the true one, or the one that takes the run against the citation. -/
def IsConservative {σ : Type} (answer : Record → Except QueueError Bool)
    (spentModelTokens : Classifier σ) : Prop :=
  ∀ state run spent state', spentModelTokens state run = .ok (spent, state') →
    spent = !isSuccess run ∨ answer run = .ok spent

/-- A classifier without a state. -/
def answering (answer : Record → Except QueueError Bool) : Classifier Unit :=
  fun state run => do
    let spent ← answer run
    pure (spent, state)

theorem answering_eq_ok_iff {answer : Record → Except QueueError Bool} {run : Record}
    {state state' : Unit} {spent : Bool} :
    answering answer state run = .ok (spent, state') ↔ answer run = .ok spent := by
  simp [answering, pure, Except.pure]

/-- **One more run never lets the true streak overtake the conservative one.**  A success
that stops the conservative count stops the true one; a failure that the true count takes
is taken by the conservative one. -/
theorem streak_le_of_conservative {σ : Type} {answer : Record → Except QueueError Bool}
    {spentModelTokens : Classifier σ} (conservative : IsConservative answer spentModelTokens)
    {state : σ} {first second capped : Decision} (behind : first.streak ≤ second.streak)
    (exactOk : countFailures (answering answer) () first runs = .ok exact)
    (cappedOk : countFailures spentModelTokens state second runs = .ok capped) :
    exact.streak ≤ capped.streak := by
  induction runs generalizing state first second with
  | nil =>
    cases exactOk
    cases cappedOk
    exact behind
  | cons run rest ih =>
    cases success : isSuccess run with
    | true =>
      rw [countFailures_success success, bind_eq_ok_iff] at exactOk cappedOk
      obtain ⟨⟨truth, _⟩, truly, exactOk⟩ := exactOk
      obtain ⟨⟨spent, state'⟩, answered, cappedOk⟩ := cappedOk
      rw [answering_eq_ok_iff] at truly
      cases truth with
      | true =>
        cases exactOk
        have longer : second.streak ≤ capped.streak := by
          cases spent with
          | true =>
            cases cappedOk
            exact le_refl _
          | false => exact (streak_le_of_countFailures cappedOk).1
        exact behind.trans longer
      | false =>
        -- The conservative classifier calls no success spent that is not.
        have unspent : spent = false := by
          rcases conservative state run spent state' answered with against | true_
          · rw [against, success]
            rfl
          · rw [truly] at true_
            exact (Except.ok.inj true_).symm
        subst unspent
        exact ih behind exactOk cappedOk
    | false =>
      cases failure : isFailure run with
      | true =>
        rw [countFailures_failure failure, bind_eq_ok_iff] at exactOk cappedOk
        obtain ⟨⟨truth, _⟩, truly, exactOk⟩ := exactOk
        obtain ⟨⟨spent, state'⟩, answered, cappedOk⟩ := cappedOk
        rw [answering_eq_ok_iff] at truly
        have counted : truth = true → spent = true := by
          intro isTrue
          rcases conservative state run spent state' answered with against | true_
          · rw [against, success]
            rfl
          · rw [truly, isTrue] at true_
            exact (Except.ok.inj true_).symm
        refine ih ?_ exactOk cappedOk
        cases truth with
        | true =>
          rw [counted rfl]
          exact Nat.succ_le_succ behind
        | false =>
          cases spent with
          | true => exact behind.trans (Nat.le_succ _)
          | false => exact behind
      | false =>
        rw [countFailures_other success failure] at exactOk cappedOk
        split at exactOk
        · next hashable =>
            rw [if_pos hashable] at cappedOk
            exact ih behind exactOk cappedOk
        · cases exactOk

/-! ## The true streak -/

/-- The run reached the model, by the answers of a classifier. -/
def isSpent (answer : Record → Except QueueError Bool) (run : Record) : Bool :=
  match answer run with
  | .ok spent => spent
  | .error _ => false

/-- No spent success among the runs is as new as this run. -/
def outlasts (host : Host) (answer : Record → Except QueueError Bool) (runs : List Record)
    (run : Record) : Bool :=
  runs.all fun other =>
    !(isSuccess other && isSpent answer other) || decide (createdAt host other < createdAt host run)

/-- A spent failure after the newest spent success. -/
def isCounted (host : Host) (answer : Record → Except QueueError Bool) (runs : List Record)
    (run : Record) : Bool :=
  isFailure run && isSpent answer run && outlasts host answer runs run

section

variable {host : Host} {answer : Record → Except QueueError Bool} {run : Record}
  {rest : List Record}

/-- A run that is no spent success hides no other run. -/
theorem outlasts_cons_of_not (harmless : (isSuccess run && isSpent answer run) = false)
    (other : Record) :
    outlasts host answer (run :: rest) other = outlasts host answer rest other := by
  rw [outlasts, List.all_cons, harmless]
  rfl

/-- Nothing older than a spent success is counted. -/
theorem countP_isCounted_success (success : isSuccess run = true)
    (spent : isSpent answer run = true)
    (newest : ∀ other ∈ rest, createdAt host other < createdAt host run) :
    (run :: rest).countP (isCounted host answer (run :: rest)) = 0 := by
  rw [List.countP_eq_zero]
  intro other member
  rw [isCounted, outlasts, List.all_cons, success, spent]
  rcases List.mem_cons.mp member with rfl | older
  · rw [not_isFailure_of_isSuccess success]
    simp
  · have := newest other older
    simp [not_lt_of_gt this]

/-- The newest run of all outlasts the others, as long as it is no success itself. -/
theorem outlasts_cons_self (noSuccess : isSuccess run = false)
    (newest : ∀ other ∈ rest, createdAt host other < createdAt host run) :
    outlasts host answer (run :: rest) run = true := by
  rw [outlasts, List.all_cons, noSuccess]
  simp only [Bool.false_and, Bool.not_false, Bool.true_or, Bool.true_and, List.all_eq_true,
    Bool.or_eq_true, decide_eq_true_eq]
  exact fun other older => .inr (newest other older)

theorem countP_isCounted_harmless (harmless : (isSuccess run && isSpent answer run) = false) :
    (run :: rest).countP (isCounted host answer (run :: rest)) =
      rest.countP (isCounted host answer rest) +
        if isCounted host answer (run :: rest) run then 1 else 0 := by
  have same : isCounted host answer (run :: rest) = isCounted host answer rest := by
    funext other
    rw [isCounted, isCounted, outlasts_cons_of_not harmless]
  rw [List.countP_cons, same]

end

/-- The count over runs in order, newest first. -/
theorem streak_eq_of_sorted {host : Host} {answer : Record → Except QueueError Bool}
    {decision : Decision} (sorted : runs.Pairwise fun a b => createdAt host b < createdAt host a)
    (ok : countFailures (answering answer) () decision runs = .ok exact) :
    exact.streak = decision.streak + runs.countP (isCounted host answer runs) := by
  induction runs generalizing decision with
  | nil =>
    cases ok
    rfl
  | cons run rest ih =>
    obtain ⟨newest, sorted⟩ := List.pairwise_cons.mp sorted
    cases success : isSuccess run with
    | true =>
      rw [countFailures_success success, bind_eq_ok_iff] at ok
      obtain ⟨⟨spent, _⟩, answered, ok⟩ := ok
      rw [answering_eq_ok_iff] at answered
      have known : isSpent answer run = spent := by rw [isSpent, answered]
      cases spent with
      | true =>
        cases ok
        rw [countP_isCounted_success success known newest, Nat.add_zero]
      | false =>
        have harmless : (isSuccess run && isSpent answer run) = false := by
          rw [known, Bool.and_false]
        have uncounted : isCounted host answer (run :: rest) run = false := by
          rw [isCounted, not_isFailure_of_isSuccess success]
          rfl
        rw [countP_isCounted_harmless harmless, uncounted]
        exact ih sorted ok
    | false =>
      have harmless : (isSuccess run && isSpent answer run) = false := by
        rw [success, Bool.false_and]
      rw [countP_isCounted_harmless harmless, isCounted, outlasts_cons_self success newest,
        Bool.and_true]
      cases failure : isFailure run with
      | true =>
        rw [countFailures_failure failure, bind_eq_ok_iff] at ok
        obtain ⟨⟨spent, _⟩, answered, ok⟩ := ok
        rw [answering_eq_ok_iff] at answered
        have known : isSpent answer run = spent := by rw [isSpent, answered]
        rw [ih sorted ok, known, Bool.true_and]
        cases spent with
        | true =>
          simp only [Decision.count, if_true]
          omega
        | false => simp
      | false =>
        rw [countFailures_other success failure] at ok
        split at ok
        · rw [ih sorted ok]
          simp
        · cases ok

/-! ## The order of the runs -/

section

variable {host : Host}

instance : Std.Total fun a b : Record => createdAt host b ≤ createdAt host a :=
  ⟨fun a b => le_total (createdAt host b) (createdAt host a)⟩

instance : IsTrans Record fun a b => createdAt host b ≤ createdAt host a :=
  ⟨fun _ _ _ first second => second.trans first⟩

theorem sorted_newestFirst (runs : List Record) :
    (newestFirst host "created_at" runs).Pairwise fun a b => createdAt host b ≤ createdAt host a :=
  List.pairwise_insertionSort (fun a b : Record => createdAt host b ≤ createdAt host a) runs

/-- Runs with different times are told by their times. -/
theorem eq_of_createdAt (distinct : (runs.map (createdAt host)).Nodup) {a b : Record}
    (here : a ∈ runs) (there : b ∈ runs) (equal : createdAt host a = createdAt host b) : a = b :=
  List.inj_on_of_nodup_map distinct here there equal

variable {runs' : List Record}

theorem newestFirst_eq_of_perm (perm : runs'.Perm runs)
    (distinct : (runs.map (createdAt host)).Nodup) :
    newestFirst host "created_at" runs' = newestFirst host "created_at" runs := by
  refine List.Perm.eq_of_pairwise ?_ (sorted_newestFirst runs') (sorted_newestFirst runs)
    ((newestFirst_perm _ runs').trans (perm.trans (newestFirst_perm _ runs).symm))
  intro a b here there later earlier
  have inRuns : a ∈ runs := perm.mem_iff.mp ((newestFirst_perm _ runs').mem_iff.mp here)
  exact eq_of_createdAt distinct inRuns ((newestFirst_perm _ runs).mem_iff.mp there)
    (le_antisymm earlier later)

theorem distinct_filter (distinct : (runs.map (createdAt host)).Nodup) (p : Record → Bool) :
    ((runs.filter p).map (createdAt host)).Nodup :=
  distinct.sublist (List.filter_sublist.map _)

/-- With different times the order is strict. -/
theorem strict_newestFirst (distinct : (runs.map (createdAt host)).Nodup) :
    (newestFirst host "created_at" runs).Pairwise fun a b =>
      createdAt host b < createdAt host a := by
  have apart : (newestFirst host "created_at" runs).Pairwise fun a b =>
      createdAt host a ≠ createdAt host b :=
    List.pairwise_map.mp (((newestFirst_perm _ runs).map _).nodup_iff.mpr distinct)
  refine (List.Pairwise.and (sorted_newestFirst runs) apart).imp ?_
  rintro a b ⟨later, different⟩
  exact lt_of_le_of_ne later different.symm

/-- The decision does not depend on the order in which the runs arrive. -/
theorem evaluateAttemptBudget_perm {σ : Type} (spentModelTokens : Classifier σ) (state : σ)
    (perm : runs'.Perm runs) (distinct : (runs.map (createdAt host)).Nodup) (citation : Text)
    (budget currentRunId : Int) :
    evaluateAttemptBudget host spentModelTokens state runs' citation budget currentRunId =
      evaluateAttemptBudget host spentModelTokens state runs citation budget currentRunId := by
  rw [evaluateAttemptBudget, evaluateAttemptBudget,
    newestFirst_eq_of_perm (perm.filter _) (distinct_filter distinct _)]

theorem isCounted_eq_of_perm {answer : Record → Except QueueError Bool} (perm : runs'.Perm runs) :
    isCounted host answer runs' = isCounted host answer runs := by
  funext run
  rw [isCounted, isCounted, outlasts, outlasts, perm.all_eq]

/-- The true streak, over the matching runs in whatever order. -/
theorem streak_eq_countP {answer : Record → Except QueueError Bool}
    (distinct : (runs.map (createdAt host)).Nodup)
    (ok : evaluateAttemptBudget host (answering answer) () runs citation budget currentRunId =
      .ok exact) :
    exact.streak = (runs.filter (isMatching citation currentRunId)).countP
      (isCounted host answer (runs.filter (isMatching citation currentRunId))) := by
  rw [streak_eq_of_sorted (strict_newestFirst (distinct_filter distinct _)) ok,
    isCounted_eq_of_perm (newestFirst_perm _ _), (newestFirst_perm _ _).countP_eq]
  exact Nat.zero_add _

end

/-! ## The classifier of the guard -/

section

variable {fetchJobs : Json → Option (List Json)} {jobsOf : Record → List Json} {maxLookups : Int}
  {jobName stepName : String}

/-- What the guard could not look up it takes against the citation. -/
theorem isConservative_makeEncodeJobChecker
    (agrees : ∀ run jobs, isInt (value run "id") = true → fetchJobs (value run "id") = some jobs →
      jobsOf run = jobs) :
    IsConservative (fun run => ranEncodeStep jobName stepName (jobsOf run))
      (makeEncodeJobChecker fetchJobs maxLookups jobName stepName) := by
  intro lookups run spent lookups' answered
  simp only [makeEncodeJobChecker] at answered
  split at answered
  · left
    exact (Prod.mk.inj (Except.ok.inj answered)).1.symm
  · next looked =>
      simp only [Bool.or_eq_true, Bool.not_eq_true', not_or, Bool.not_eq_false] at looked
      split at answered
      · left
        exact (Prod.mk.inj (Except.ok.inj answered)).1.symm
      · next jobs fetched =>
          right
          rw [bind_eq_ok_iff] at answered
          obtain ⟨ran, isRan, answered⟩ := answered
          show ranEncodeStep jobName stepName (jobsOf run) = .ok spent
          rw [agrees run jobs looked.1 fetched, isRan, (Prod.mk.inj (Except.ok.inj answered)).1]

end

/-! ## Nothing raises -/

/-- The steps of every encode job can be iterated. -/
def HasSteps (jobName : String) (jobs : List Json) : Prop :=
  ∀ job ∈ recordsNamed jobName jobs, ∃ steps, stepsOf (value job "steps") = .ok steps

theorem ranEncodeStep_returns {jobName stepName : String} {jobs : List Json}
    (steps : HasSteps jobName jobs) : ∃ ran, ranEncodeStep jobName stepName jobs = .ok ran := by
  obtain ⟨found, ok⟩ := exists_mapM_eq_ok steps
  rw [ranEncodeStep, ok]
  exact ⟨_, rfl⟩

theorem countFailures_returns {σ : Type} {spentModelTokens : Classifier σ} {state : σ}
    {decision : Decision}
    (answers : ∀ run ∈ runs, ∀ state, ∃ answer, spentModelTokens state run = .ok answer)
    (hashable : ∀ run ∈ runs, isHashable (value run "conclusion") = true) :
    ∃ last, countFailures spentModelTokens state decision runs = .ok last := by
  induction runs generalizing state decision with
  | nil => exact ⟨decision, rfl⟩
  | cons run rest ih =>
    rw [List.forall_mem_cons] at answers hashable
    obtain ⟨⟨spent, state'⟩, answered⟩ := answers.1 state
    cases success : isSuccess run with
    | true =>
      rw [countFailures_success success, answered]
      cases spent with
      | true => exact ⟨decision, rfl⟩
      | false => exact ih answers.2 hashable.2
    | false =>
      cases failure : isFailure run with
      | true =>
        rw [countFailures_failure failure, answered]
        exact ih answers.2 hashable.2
      | false =>
        rw [countFailures_other success failure, if_pos hashable.1]
        exact ih answers.2 hashable.2

theorem evaluateAttemptBudget_returns {host : Host} {σ : Type} {spentModelTokens : Classifier σ}
    {state : σ}
    (answers : ∀ run ∈ runs, ∀ state, ∃ answer, spentModelTokens state run = .ok answer)
    (hashable : ∀ run ∈ runs, isHashable (value run "conclusion") = true) :
    ∃ decision, evaluateAttemptBudget host spentModelTokens state runs citation budget
      currentRunId = .ok decision := by
  have mem_runs : ∀ run ∈ newestFirst host "created_at"
      (runs.filter (isMatching citation currentRunId)), run ∈ runs := fun run member =>
    (List.mem_filter.mp ((newestFirst_perm _ _).mem_iff.mp member)).1
  exact countFailures_returns (fun run member => answers run (mem_runs run member))
    fun run member => hashable run (mem_runs run member)

theorem makeEncodeJobChecker_returns {fetchJobs : Json → Option (List Json)} {maxLookups : Int}
    {jobName stepName : String} {run : Record}
    (steps : ∀ jobs, fetchJobs (value run "id") = some jobs → HasSteps jobName jobs)
    (lookups : Nat) :
    ∃ answer, makeEncodeJobChecker fetchJobs maxLookups jobName stepName lookups run =
      .ok answer := by
  simp only [makeEncodeJobChecker]
  split
  · exact ⟨_, rfl⟩
  · split
    · exact ⟨_, rfl⟩
    · next jobs fetched =>
        obtain ⟨ran, ok⟩ := @ranEncodeStep_returns _ stepName _ (steps jobs fetched)
        rw [ok]
        exact ⟨_, rfl⟩

/-- **The capped budget is conservative.**  Against the answers of any jobs that agree with
what can be fetched, the capped streak is never shorter, so no exhausted budget looks
available.  The true streak is the number of spent failures newer than the newest spent
success.  Neither decision depends on the order of the runs, and both are made whenever the
conclusions can be compared and the steps iterated. -/
theorem cappedBudget_conservative (host : Host) (fetchJobs : Json → Option (List Json))
    (jobsOf : Record → List Json)
    (agrees : ∀ run jobs, isInt (value run "id") = true → fetchJobs (value run "id") = some jobs →
      jobsOf run = jobs) (runs : List Record) (distinct : (runs.map (createdAt host)).Nodup)
    (citation : Text) (budget currentRunId maxLookups : Int) (jobName stepName : String) :
    let exact := fun runs => evaluateAttemptBudget host (oracleChecker jobsOf jobName stepName) ()
      runs citation budget currentRunId
    let capped := fun runs => evaluateAttemptBudget host
      (makeEncodeJobChecker fetchJobs maxLookups jobName stepName) 0 runs citation budget
      currentRunId
    (∀ e c, exact runs = .ok e → capped runs = .ok c →
      e.streak ≤ c.streak ∧ (e.exhausted → c.exhausted)) ∧
    (∀ e, exact runs = .ok e → e.streak = (runs.filter (isMatching citation currentRunId)).countP
      (isCounted host (fun run => ranEncodeStep jobName stepName (jobsOf run))
        (runs.filter (isMatching citation currentRunId)))) ∧
    (∀ runs', runs'.Perm runs → exact runs' = exact runs ∧ capped runs' = capped runs) ∧
    ((∀ run ∈ runs, isHashable (value run "conclusion") = true) →
      (∀ run ∈ runs, HasSteps jobName (jobsOf run)) →
      (∀ run ∈ runs, ∀ jobs, fetchJobs (value run "id") = some jobs → HasSteps jobName jobs) →
      (∃ e, exact runs = .ok e) ∧ ∃ c, capped runs = .ok c) := by
  intro exact capped
  refine ⟨?_, fun e ok => streak_eq_countP distinct ok, fun runs' perm => ?_, ?_⟩
  · intro e c exactOk cappedOk
    have longer : e.streak ≤ c.streak :=
      streak_le_of_conservative (isConservative_makeEncodeJobChecker agrees) (le_refl 0) exactOk
        cappedOk
    have sameBudget : e.budget = c.budget :=
      (streak_le_of_countFailures exactOk).2.symm.trans (streak_le_of_countFailures cappedOk).2
    refine ⟨longer, fun exhausted => ?_⟩
    rw [Decision.exhausted] at exhausted ⊢
    omega
  · exact ⟨evaluateAttemptBudget_perm _ _ perm distinct _ _ _,
      evaluateAttemptBudget_perm _ _ perm distinct _ _ _⟩
  · intro hashable oracleSteps fetchedSteps
    refine ⟨evaluateAttemptBudget_returns (fun run member state => ?_) hashable,
      evaluateAttemptBudget_returns (fun run member lookups => ?_) hashable⟩
    · obtain ⟨ran, ok⟩ := @ranEncodeStep_returns _ stepName _ (oracleSteps run member)
      rw [oracleChecker, ok]
      exact ⟨_, rfl⟩
    · exact makeEncodeJobChecker_returns (fetchedSteps run member) lookups

/-- A run of the citation `us/statutes/x`. -/
def citationRun (id : Int) (createdAt conclusion : String) : Record :=
  [("id".toList, .int id), ("name".toList, str "Targeted re-encode [q:i:g] us/statutes/x"),
    ("status".toList, str "completed"), ("created_at".toList, str createdAt),
    ("conclusion".toList, str conclusion)]

/-- An encode job whose encode step ended so. -/
def encodeJobs (conclusion : String) : List Json :=
  [.obj [("name".toList, str encodeJobName), ("steps".toList, .arr [.obj
    [("name".toList, str encodeStepName), ("conclusion".toList, str conclusion)]])]]

/-- The newest run is a success whose jobs cannot be fetched: the two failures before it
count. -/
theorem cappedBudget_conservative_lookupError :
    let runs := [citationRun 1 "2026-01-01" "failure", citationRun 3 "2026-01-03" "success",
      citationRun 2 "2026-01-02" "timed_out"]
    let host : Host := ⟨fun _ => [], fun _ => []⟩
    let fetchJobs : Json → Option (List Json) := fun id =>
      if id = .int 3 then none else some (encodeJobs "failure")
    ∃ e c,
      evaluateAttemptBudget host (oracleChecker (fun _ => encodeJobs "failure") encodeJobName
        encodeStepName) () runs "us/statutes/x".toList 2 9 = .ok e ∧
      evaluateAttemptBudget host (makeEncodeJobChecker fetchJobs maxJobLookups encodeJobName
        encodeStepName) 0 runs "us/statutes/x".toList 2 9 = .ok c ∧
      e.streak = 0 ∧ c.streak = 2 ∧ e.streak ≤ c.streak := by
  intro runs host fetchJobs
  have conservative := cappedBudget_conservative host fetchJobs (fun _ => encodeJobs "failure")
    (by
      intro run jobs _ fetched
      simp only [fetchJobs] at fetched
      split at fetched
      · cases fetched
      · exact Option.some.inj fetched)
    runs (by decide) "us/statutes/x".toList 2 9 maxJobLookups encodeJobName encodeStepName
  refine ⟨_, _, rfl, rfl, rfl, rfl, (conservative.1 _ _ rfl rfl).1⟩

end AxiomEncode.Queue
