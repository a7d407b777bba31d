/-
# Theory.Crash -- programs that can be killed and can fail at every step

A program is a sequence of atomic steps on a machine.  Before each step the
environment decides (`Event`): the step goes, under the environment's choice of
whatever the machine leaves open; it raises instead of acting; or the process is
killed.  A kill ends the program at once, past every handler.  Handlers see
raised errors only.

Every step that was reached is marked in a log that no program can read
(`Mark`), so a property of a run can speak of what the run went through.

`Triple allow P p Q E K` is the logic: from a world in `P`, under every schedule
whose events `allow` admits, the program returns in `Q`, or raises in `E`, or is
killed in `K`.  With kills and faults left out of `allow` and nothing in `E` a
triple is total correctness.
-/
import Mathlib.Tactic.Common

namespace AxiomEncode.Theory

set_option autoImplicit false

/-- Atomic steps on a state, with the choices they leave open. -/
structure Machine where
  State : Type
  Op : Type
  Res : Type
  Choice : Type
  Err : Type
  /-- The choice made once a schedule is used up. -/
  idle : Choice
  /-- The error of a step that the environment made fail. -/
  injected : Op → Err
  act : Op → Choice → State → Except Err (Res × State)

inductive Event (Choice : Type) where
  | go (choice : Choice)
  | fault
  | kill

inductive Outcome (Err α : Type) where
  | done (value : α)
  | raised (error : Err)
  | killed
  deriving DecidableEq

namespace Crash

variable {M : Machine} {α β : Type}

/-- One step that was reached: whether the environment made it fail, and the
state after it. -/
structure Mark (M : Machine) where
  op : M.Op
  faulted : Bool
  after : M.State

/-- The state, and the marks of the run so far, latest first. -/
structure World (M : Machine) where
  state : M.State
  log : List (Mark M)

abbrev Schedule (M : Machine) := List (Event M.Choice)

/-- A program, run under a schedule; what is left of the schedule is returned. -/
def Prog (M : Machine) (α : Type) :=
  Schedule M → World M → Outcome M.Err α × Schedule M × World M

/-- The world once a step was reached. -/
def World.mark (world : World M) (op : M.Op) (faulted : Bool) (after : M.State) : World M :=
  ⟨after, ⟨op, faulted, after⟩ :: world.log⟩

@[simp] theorem World.mark_state (world : World M) (op : M.Op) (faulted : Bool)
    (after : M.State) : (world.mark op faulted after).state = after := rfl

@[simp] theorem World.mark_log (world : World M) (op : M.Op) (faulted : Bool) (after : M.State) :
    (world.mark op faulted after).log = ⟨op, faulted, after⟩ :: world.log := rfl

namespace Prog

def pure (value : α) : Prog M α := fun schedule world => (.done value, schedule, world)

def raise (error : M.Err) : Prog M α := fun schedule world => (.raised error, schedule, world)

def bind (p : Prog M α) (next : α → Prog M β) : Prog M β := fun schedule world =>
  match p schedule world with
  | (.done value, schedule, world) => next value schedule world
  | (.raised error, schedule, world) => (.raised error, schedule, world)
  | (.killed, schedule, world) => (.killed, schedule, world)

instance : Monad (Prog M) where
  pure := pure
  bind := bind

/-- `try: p` with a handler for what it raises. -/
def tryCatch (p : Prog M α) (handler : M.Err → Prog M α) : Prog M α := fun schedule world =>
  match p schedule world with
  | (.done value, schedule, world) => (.done value, schedule, world)
  | (.raised error, schedule, world) => handler error schedule world
  | (.killed, schedule, world) => (.killed, schedule, world)

/-- `try: p finally: last`.  An error of `last` replaces the one `p` raised. -/
def tryFinally (p : Prog M α) (last : Prog M Unit) : Prog M α := do
  let value ← tryCatch p fun error => bind last fun _ => raise error
  last
  pure value

/-- One step, acting under a choice. -/
def acting (op : M.Op) (choice : M.Choice) (rest : Schedule M) (world : World M) :
    Outcome M.Err M.Res × Schedule M × World M :=
  match M.act op choice world.state with
  | .ok (res, after) => (.done res, rest, world.mark op false after)
  | .error error => (.raised error, rest, world.mark op false world.state)

/-- One step of the machine. -/
def perform (op : M.Op) : Prog M M.Res := fun schedule world =>
  match schedule with
  | [] => acting op M.idle [] world
  | .go choice :: rest => acting op choice rest world
  | .fault :: rest => (.raised (M.injected op), rest, world.mark op true world.state)
  | .kill :: rest => (.killed, rest, world)

/-- Run over a list in order. -/
def forEach (xs : List β) (body : β → Prog M Unit) : Prog M Unit :=
  match xs with
  | [] => pure ()
  | x :: rest => bind (body x) fun _ => forEach rest body

theorem forEach_map {γ : Type} (f : γ → β) (xs : List γ) (body : β → Prog M Unit) :
    forEach (xs.map f) body = forEach xs fun x => body (f x) := by
  induction xs with
  | nil => rfl
  | cons x rest ih => rw [List.map_cons, forEach, ih, forEach]

end Prog

open Prog

/-! ## Crash triples -/

/-- What holds of the three ways a run can end.  The rest of the schedule holds
nothing but admitted events. -/
def Ends (allow : Event M.Choice → Prop) (Q : α → World M → Prop) (E : M.Err → World M → Prop)
    (K : World M → Prop) (result : Outcome M.Err α × Schedule M × World M) : Prop :=
  (∀ event ∈ result.2.1, allow event) ∧
    match result.1 with
    | .done value => Q value result.2.2
    | .raised error => E error result.2.2
    | .killed => K result.2.2

/-- From a world in `P` the program returns in `Q`, raises in `E` or is killed in
`K`, under every admitted schedule. -/
def Triple (allow : Event M.Choice → Prop) (P : World M → Prop) (p : Prog M α)
    (Q : α → World M → Prop) (E : M.Err → World M → Prop) (K : World M → Prop) : Prop :=
  ∀ schedule world, (∀ event ∈ schedule, allow event) → P world →
    Ends allow Q E K (p schedule world)

variable {allow : Event M.Choice → Prop} {P P' : World M → Prop} {Q S : α → World M → Prop}
  {R : β → World M → Prop} {E F : M.Err → World M → Prop} {K K' : World M → Prop} {p : Prog M α}
variable {result : Outcome M.Err α × Schedule M × World M}

theorem Ends.mono (ends : Ends allow Q E K result)
    (post : ∀ value world, Q value world → S value world)
    (raised : ∀ error world, E error world → F error world) (killed : ∀ world, K world → K' world) :
    Ends allow S F K' result := by
  refine ⟨ends.1, ?_⟩
  match result, ends.2 with
  | (.done value, _, world), h => exact post value world h
  | (.raised error, _, world), h => exact raised error world h
  | (.killed, _, world), h => exact killed world h

/-- What holds however the run ended. -/
theorem Ends.reached {X : World M → Prop} (ends : Ends allow Q E K result)
    (answered : ∀ value world, Q value world → X world)
    (raised : ∀ error world, E error world → X world) (killed : ∀ world, K world → X world) :
    X result.2.2 := by
  obtain ⟨outcome, rest, world⟩ := result
  cases outcome with
  | done value => exact answered value world ends.2
  | raised error => exact raised error world ends.2
  | killed => exact killed world ends.2

/-- Consequence. -/
theorem Triple.mono (triple : Triple allow P p Q E K) (pre : ∀ world, P' world → P world)
    (post : ∀ value world, Q value world → S value world)
    (raised : ∀ error world, E error world → F error world)
    (killed : ∀ world, K world → K' world) : Triple allow P' p S F K' :=
  fun schedule world admitted holds =>
    (triple schedule world admitted (pre world holds)).mono post raised killed

theorem Triple.pre (triple : Triple allow P p Q E K) (pre : ∀ world, P' world → P world) :
    Triple allow P' p Q E K :=
  triple.mono pre (fun _ _ h => h) (fun _ _ h => h) (fun _ h => h)

theorem Triple.post (triple : Triple allow P p Q E K)
    (post : ∀ value world, Q value world → S value world) : Triple allow P p S E K :=
  triple.mono (fun _ h => h) post (fun _ _ h => h) (fun _ h => h)

/-- A fact that does not speak of the world moves out of the precondition. -/
theorem Triple.of_fact {φ : Prop} (triple : φ → Triple allow P p Q E K) :
    Triple allow (fun world => φ ∧ P world) p Q E K :=
  fun schedule world admitted holds => triple holds.1 schedule world admitted holds.2

theorem Triple.of_exists {ι : Sort*} {P : ι → World M → Prop}
    (triple : ∀ i, Triple allow (P i) p Q E K) :
    Triple allow (fun world => ∃ i, P i world) p Q E K :=
  fun schedule world admitted ⟨i, holds⟩ => triple i schedule world admitted holds

theorem Triple.of_or {P P' : World M → Prop} (left : Triple allow P p Q E K)
    (right : Triple allow P' p Q E K) : Triple allow (fun world => P world ∨ P' world) p Q E K :=
  fun schedule world admitted holds =>
    holds.elim (fun h => left schedule world admitted h) (fun h => right schedule world admitted h)

theorem triple_pure {value : α} (holds : ∀ world, P world → Q value world) :
    Triple allow P (Prog.pure value) Q E K :=
  fun _ world admitted h => ⟨admitted, holds world h⟩

theorem triple_raise {error : M.Err} (holds : ∀ world, P world → E error world) :
    Triple allow P (Prog.raise error : Prog M α) Q E K :=
  fun _ world admitted h => ⟨admitted, holds world h⟩

/-- Sequencing: the first program's answer is the second one's precondition. -/
theorem triple_bind {next : α → Prog M β} (first : Triple allow P p Q E K)
    (then_ : ∀ value, Triple allow (Q value) (next value) R E K) :
    Triple allow P (Prog.bind p next) R E K := by
  intro schedule world admitted holds
  have ends := first schedule world admitted holds
  unfold Prog.bind
  match p schedule world, ends with
  | (.done value, rest, after), h => exact then_ value rest after h.1 h.2
  | (.raised _, _, _), h => exact h
  | (.killed, _, _), h => exact h

theorem triple_tryCatch {handler : M.Err → Prog M α} (body : Triple allow P p Q F K)
    (handle : ∀ error, Triple allow (F error) (handler error) Q E K) :
    Triple allow P (Prog.tryCatch p handler) Q E K := by
  intro schedule world admitted holds
  have ends := body schedule world admitted holds
  unfold Prog.tryCatch
  match p schedule world, ends with
  | (.done _, _, _), h => exact h
  | (.raised error, rest, after), h => exact handle error rest after h.1 h.2
  | (.killed, _, _), h => exact h

/-- The last steps of a `finally` run after an answer and after an error. -/
theorem triple_tryFinally {last : Prog M Unit} (body : Triple allow P p S F K)
    (answered : ∀ value, Triple allow (S value) last (fun _ => Q value) E K)
    (failed : ∀ error, Triple allow (F error) last (fun _ => E error) E K) :
    Triple allow P (Prog.tryFinally p last) Q E K := by
  refine triple_bind (Q := S) (triple_tryCatch body fun error => ?_) fun value => ?_
  · exact triple_bind (failed error) fun _ => triple_raise fun _ h => h
  · exact triple_bind (answered value) fun _ => triple_pure fun _ h => h

/-- A step: what must hold if it is killed before it, made to fail, fails by
itself, or acts. -/
theorem triple_perform {op : M.Op} {Q : M.Res → World M → Prop}
    (killed : allow .kill → ∀ world, P world → K world)
    (faulted : allow .fault → ∀ world, P world →
      E (M.injected op) (world.mark op true world.state))
    (failed : ∀ world choice error, P world → M.act op choice world.state = .error error →
      E error (world.mark op false world.state))
    (acted : ∀ world choice res after, P world →
      M.act op choice world.state = .ok (res, after) → Q res (world.mark op false after)) :
    Triple allow P (Prog.perform op) Q E K := by
  intro schedule world admitted holds
  have one : ∀ choice rest, (∀ event ∈ rest, allow event) →
      Ends allow Q E K (Prog.acting op choice rest world) := by
    intro choice rest admitted
    unfold Prog.acting
    cases result : M.act op choice world.state with
    | error error => exact ⟨admitted, failed world choice error holds result⟩
    | ok answer => exact ⟨admitted, acted world choice answer.1 answer.2 holds result⟩
  match schedule, admitted with
  | [], admitted => exact one _ _ admitted
  | .go choice :: rest, admitted =>
    exact one choice rest fun event member => admitted event (List.mem_cons_of_mem _ member)
  | .fault :: rest, admitted =>
    exact ⟨fun event member => admitted event (List.mem_cons_of_mem _ member),
      faulted (admitted .fault List.mem_cons_self) world holds⟩
  | .kill :: rest, admitted =>
    exact ⟨fun event member => admitted event (List.mem_cons_of_mem _ member),
      killed (admitted .kill List.mem_cons_self) world holds⟩

/-- A loop: the invariant of the elements still to come. -/
theorem triple_forEach {body : β → Prog M Unit} {I : List β → World M → Prop} (xs : List β)
    (turn : ∀ x rest, x :: rest <:+ xs →
      Triple allow (I (x :: rest)) (body x) (fun _ => I rest) E K) :
    Triple allow (I xs) (Prog.forEach xs body) (fun _ => I []) E K := by
  induction xs with
  | nil => exact triple_pure fun _ h => h
  | cons x rest ih =>
    refine triple_bind (turn x rest List.suffix_rfl) fun _ => ih fun y more suffix => ?_
    exact turn y more (suffix.trans (List.suffix_cons x rest))

end Crash

end AxiomEncode.Theory
