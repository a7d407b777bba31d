/-
# Runner.OneEval -- one evaluation at a time

While an evaluation runs, the queue runner is to leave the queue alone: no running
item becomes retryable, nothing is launched.  Both follow once the poll reports the
evaluation (`iterate_waits`), and the poll reports exactly the readable lines
(`Runner.Processes`), so a run is safe iff every evaluation in each of its process
tables has a readable line (`oneEval_iff`).  The patterns ask for a backslash where
the command line has a blank: of the lines without a backslash only the bare command
is readable (`isReadable_iff_of_plain`), and an evaluation with arguments is
overlooked (`eval_with_arguments_overlooked`).
-/
import AxiomEncode.Runner.Queue

namespace AxiomEncode.Runner

open Theory

set_option autoImplicit false

/-- What one iteration owes to the evaluations in its process table: each is reported,
and if there is one, no running item is marked retryable and nothing is launched. -/
structure Respects (iteration : Iteration) : Prop where
  reported : ∀ line ∈ processLines iteration.turn.stdout, IsEvalLine line →
    line ∈ iteration.active
  kept : (∃ line ∈ processLines iteration.turn.stdout, IsEvalLine line) →
    ∀ (place : Nat) (item : QueueItem), iteration.polled[place]? = some item →
      item.status = .running →
      (iteration.reconciled[place]?).map QueueItem.status ≠ some .retryable
  alone : (∃ line ∈ processLines iteration.turn.stdout, IsEvalLine line) →
    iteration.ending.launch? = none

/-- Every evaluation in the process table has a line the patterns can read. -/
def EvalsReadable (stdout : Text) : Prop :=
  ∀ line ∈ processLines stdout, IsEvalLine line → IsReadable line

section Iterations

variable {host : Host} {turn : Turn} {turns : List Turn} {before : List QueueItem} {state : State}
  {iteration : Iteration}

/-! ### The rule of runs -/

variable {P : Iteration → Prop}

theorem forall_processTurns
    (later : ∀ (turn : Turn) (state : State), P (iterate host turn state.items
      { state with items := syncQueueWithManifests turn.sources turn.now state.items }).1) :
    ∀ iteration ∈ processTurns host state turns, P iteration := by
  induction turns generalizing state with
  | nil =>
    intro iteration here
    exact nomatch here
  | cons turn rest ih =>
    intro iteration here
    rw [processTurns, List.mem_cons] at here
    rcases here with rfl | behind
    · exact later turn state
    · cases next : (iterate host turn state.items
          { state with items := syncQueueWithManifests turn.sources turn.now state.items }).2 with
      | none =>
        rw [next] at behind
        exact nomatch behind
      | some state =>
        rw [next] at behind
        exact ih iteration behind

/-- What holds of an iteration behind the first sync, and of an iteration behind any later
one, holds of every iteration of a run. -/
theorem forall_processQueue
    (first : ∀ (turn : Turn) (state filled : State),
      backfillRunLedger host turn.sources { state with
        items := reconcileReadyOutputItems turn.allReady turn.now
          (syncQueueWithManifests turn.sources turn.now state.items) } = some filled →
      P (iterate host turn state.items filled).1)
    (later : ∀ (turn : Turn) (state : State), P (iterate host turn state.items
      { state with items := syncQueueWithManifests turn.sources turn.now state.items }).1) :
    ∀ iteration ∈ processQueue host state turns, P iteration := by
  intro iteration here
  cases turns with
  | nil => exact nomatch here
  | cons turn rest =>
    rw [processQueue] at here
    split at here
    · exact nomatch here
    · rename_i filled backfilled
      rw [List.mem_cons] at here
      rcases here with rfl | behind
      · exact first turn state filled backfilled
      · cases next : (iterate host turn state.items filled).2 with
        | none =>
          rw [next] at behind
          exact nomatch behind
        | some state =>
          rw [next] at behind
          exact forall_processTurns later iteration behind

/-! ### One iteration -/

/-- A poll that reports a process leaves the queue as it is and waits. -/
theorem iterate_waits (busy : (iterate host turn before state).1.active ≠ []) :
    (iterate host turn before state).1.reconciled = (iterate host turn before state).1.polled ∧
      (iterate host turn before state).1.ending = .waits := by
  have active : findActiveEvalProcesses turn.stdout ≠ [] := busy
  unfold iterate reconcileStaleRunningItems
  simp only [if_pos active, and_self]

theorem mem_active {line : Text} :
    line ∈ (iterate host turn before state).1.active ↔
      line ∈ processLines turn.stdout ∧ IsReadable line :=
  mem_findActiveEvalProcesses

/-- **One iteration** respects the running evaluations iff it can read them. -/
theorem respects_iterate_iff :
    Respects (iterate host turn before state).1 ↔ EvalsReadable turn.stdout := by
  constructor
  · intro respects line listed eval
    exact (mem_active.mp (respects.reported line listed eval)).2
  · intro readable
    have reported : ∀ line ∈ processLines turn.stdout, IsEvalLine line →
        line ∈ (iterate host turn before state).1.active :=
      fun line listed eval => mem_active.mpr ⟨listed, readable line listed eval⟩
    have busy : (∃ line ∈ processLines turn.stdout, IsEvalLine line) →
        (iterate host turn before state).1.active ≠ [] := by
      rintro ⟨line, listed, eval⟩
      exact List.ne_nil_of_mem (reported line listed eval)
    refine ⟨reported, fun running place item held itemRunning => ?_, fun running => ?_⟩
    · rw [(iterate_waits (busy running)).1, held]
      simp [itemRunning]
    · rw [(iterate_waits (busy running)).2]
      rfl

/-- **A run of the queue runner** respects the running evaluations iff the patterns
can read every one of them, in every process table it polls. -/
theorem oneEval_iff (host : Host) (state : State) (turns : List Turn) :
    (∀ iteration ∈ processQueue host state turns, Respects iteration) ↔
      ∀ iteration ∈ processQueue host state turns, EvalsReadable iteration.turn.stdout := by
  have each : ∀ iteration ∈ processQueue host state turns,
      (Respects iteration ↔ EvalsReadable iteration.turn.stdout) :=
    forall_processQueue (fun _ _ _ _ => respects_iterate_iff) fun _ _ => respects_iterate_iff
  exact forall₂_congr each

end Iterations

/-! ## Which lines are readable -/

section Lines

variable {pid command : Text}

theorem commandOf_line (digits : pid.all Char.isDigit = true)
    (opens : ∀ c ∈ command.head?, isSpace c = false) :
    commandOf (pid ++ ' ' :: command) = command := by
  have skipped : ∀ c ∈ pid, (!isSpace c) = true := by
    intro c inside
    have digit := List.all_eq_true.mp digits c inside
    simp only [Char.isDigit, Bool.and_eq_true, decide_eq_true_eq, UInt32.le_iff_toNat_le] at digit
    have low : 48 ≤ c.toNat := digit.1
    have high : c.toNat ≤ 57 := digit.2
    simp only [isSpace, Bool.not_eq_true', Bool.or_eq_false_iff, Bool.and_eq_false_iff,
      decide_eq_false_iff_not, beq_eq_false_iff_ne]
    omega
  have blank : isSpace ' ' = true := by decide
  have kept : command.dropWhile isSpace = command := by
    cases command with
    | nil => rfl
    | cons c rest => rw [List.dropWhile_cons_of_neg (by simp [opens c rfl])]
  unfold commandOf
  rw [if_pos (List.mem_append_right _ List.mem_cons_self), List.dropWhile_append_of_pos skipped,
    List.dropWhile_cons_of_neg (by simp [blank]), List.dropWhile_cons_of_pos blank, kept]

/-- Of the evaluations whose command has no backslash, the patterns read the bare
`uv run axiom-encode eval-suite` and no other: not a command with arguments, not a
program with a path. -/
theorem isReadable_iff_of_plain (digits : pid.all Char.isDigit = true)
    (eval : IsEvalCommand command) (plain : '\\' ∉ command) (single : '\n' ∉ command) :
    IsReadable (pid ++ ' ' :: command) ↔
      ¬ ownScript <:+: pid ++ ' ' :: command ∧ command = uvPhrase := by
  have own := commandOf_line digits eval.opens
  constructor
  · rintro ⟨foreign, passed, phrase, rest, split, opens, spelled, closes⟩
    rw [own] at split
    subst split
    simp only [List.mem_append, not_or] at plain single
    refine ⟨foreign, ?_⟩
    have unslashed : ∀ text : Text, ['\\', 's'] <:+: text → '\\' ∈ text :=
      fun text inside => inside.subset List.mem_cons_self
    rcases opens with rfl | slashed
    swap
    · exact absurd (unslashed _ slashed.isInfix) plain.1.1
    rcases closes with rfl | rfl | slashed
    · rcases spelled with rfl | ⟨run, -, -, rfl⟩
      · simp
      · exact absurd List.mem_cons_self plain.1.2
    · exact absurd List.mem_cons_self single.2
    · exact absurd (unslashed _ slashed.isInfix) plain.2
  · rintro ⟨foreign, bare⟩
    refine ⟨foreign, [], uvPhrase, [], ?_, Or.inl rfl, Or.inl rfl, Or.inl rfl⟩
    rw [own, bare]
    simp

end Lines

/-! ## An evaluation with arguments -/

/-- Nothing is on disk, and no manifest is known. -/
def bareSources : Sources :=
  { candidates := [], sha256File := fun _ => none, fileExists := fun _ => true }

/-- One queued item. -/
def sampleQueue : List QueueItem :=
  [{ name := some ['s'], status := .queued, manifest := some ['m'], corpusCitationPath := none,
     manifestSha256 := none, corpusSourceSha256 := none, sourceTrackingVersion := none,
     startedAt := none, finishedAt := none, outputDir := none, archivePath := none,
     note := none }]

def sampleHost : Host := { sha256Head := id }

/-- A process table with one evaluation, of a manifest `m`. -/
def sampleTurn : Turn :=
  { sources := bareSources, stdout := "  12 uv run axiom-encode eval-suite m\n".toList,
    allReady := fun _ => false, now := ['0'], startedAt := ['1'], finishedAt := ['2'],
    outputDir := ['o'], outcome := ⟨0, true, [], none⟩ }

/-- **The queued item is launched beside a running evaluation** -/
theorem eval_with_arguments_overlooked :
    ∃ iteration ∈ processQueue sampleHost ⟨sampleQueue, [], []⟩ [sampleTurn],
      (∃ line ∈ processLines iteration.turn.stdout, IsEvalLine line) ∧
        iteration.active = [] ∧ iteration.ending.launch?.isSome = true ∧
        ¬ Respects iteration := by
  have running : ∃ line ∈ processLines sampleTurn.stdout, IsEvalLine line := by
    refine ⟨"12 uv run axiom-encode eval-suite m".toList, by decide +kernel, ['1', '2'],
      "uv run axiom-encode eval-suite m".toList, by decide, by decide, by decide +kernel, ?_⟩
    refine ⟨?_, [' ', 'm'], Or.inr rfl, Or.inl (by decide +kernel)⟩
    have first : "uv run axiom-encode eval-suite m".toList.head? = some 'u' := by decide +kernel
    rw [first]
    rintro c ⟨⟩
    decide
  have launched : ∃ iteration ∈ processQueue sampleHost ⟨sampleQueue, [], []⟩ [sampleTurn],
      iteration.turn = sampleTurn ∧ iteration.active = [] ∧
        iteration.ending.launch?.isSome = true :=
    ⟨_, List.mem_cons_self, rfl, by decide +kernel, by decide +kernel⟩
  obtain ⟨iteration, here, turn, idle, launch⟩ := launched
  rw [← turn] at running
  refine ⟨iteration, here, running, idle, launch, fun respects => ?_⟩
  rw [respects.alone running] at launch
  exact nomatch launch

end AxiomEncode.Runner
