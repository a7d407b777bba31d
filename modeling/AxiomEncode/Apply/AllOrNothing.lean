/-
# Apply.AllOrNothing -- a transaction happens, or it did not

A run is an installation and recoveries after it, each under a schedule of its own in
which any step can be made to fail and the process can be killed before any step.
However often that happened, a recovery that answers leaves the tree as it was before
the installation, or as it was planned; it is the second exactly if a committed journal
was ever on disk.  The installation itself leaves the planned tree when it answers, and
when it raises without naming a failed recovery one of the two.

Temporary files of a run that was cut short may be left over.
-/
import AxiomEncode.Apply.Install

namespace AxiomEncode.Apply

open Theory Crash

set_option autoImplicit false

/-! ## What is promised -/

/-- The mode of a target, before and after. -/
def targetMode : Option Node → Nat
  | some (.file _ mode) => mode
  | _ => 0o644

/-- What a target is to become. -/
def plannedNode (before : Checkout) (file : Path × Option Bytes) : Option Node :=
  file.2.map fun raw => .file raw (targetMode (before.node file.1))

/-- Nothing was done. -/
structure AsBefore (before : Checkout) (files : List (Path × Option Bytes)) (after : Checkout) :
    Prop where
  targets : ∀ file ∈ files, after.node file.1 = before.node file.1
  others : ∀ path, ¬ IsTemporary path → path ≠ axiomDirectory →
    after.node path = before.node path

/-- Everything was done, and nothing else: beside the targets only directories for them
are new. -/
structure AsPlanned (before : Checkout) (files : List (Path × Option Bytes)) (after : Checkout) :
    Prop where
  targets : ∀ file ∈ files, after.node file.1 = plannedNode before file
  others : ∀ path, ¬ IsTemporary path → path ≠ axiomDirectory → path ∉ files.map Prod.fst →
    after.node path = before.node path ∨ (before.node path = none ∧
      after.node path = some (.directory 0o755) ∧ ∃ file ∈ files, path <+: file.1.dropLast)

/-- The transaction is done with: it happened exactly if it was committed. -/
def AllOrNothing (before : Checkout) (files : List (Path × Option Bytes))
    (world : World fileMachine) : Prop :=
  world.state.node transactionDirectory = none ∧
    if committedIn world.log then AsPlanned before files world.state
    else AsBefore before files world.state

/-- No planned content has the digest of another content that its target has. -/
def NoCollision (host : Host) (before : Checkout) (files : List (Path × Option Bytes)) : Prop :=
  ∀ file ∈ files, ∀ new ∈ file.2, ∀ raw mode, before.node file.1 = some (.file raw mode) →
    host.sha256 raw = host.sha256 new → raw = new

/-- The worlds that an installation, and then recoveries, were cut short in or ended in. -/
inductive Attempted (host : Host) (request : Request) (before : Checkout) :
    World fileMachine → Prop
  | install (schedule : Schedule fileMachine) : Attempted host request before
      (installApplyTransaction host request schedule ⟨before, []⟩).2.2
  | recover {world : World fileMachine} (earlier : Attempted host request before world)
      (schedule : Schedule fileMachine) : Attempted host request before
        (recoverApplyTransaction host schedule world).2.2

/-! ## Before the transaction begins -/

/-- Nothing but the directory of the transaction directory is new. -/
structure Untouched (before checkout : Checkout) : Prop where
  same : ∀ path, path ≠ axiomDirectory → checkout.node path = before.node path
  anchor : checkout.node axiomDirectory = before.node axiomDirectory ∨
    before.node axiomDirectory = none ∧
      checkout.node axiomDirectory = some (.directory 0o755)

/-- No transaction was begun, or none can be while `fresh` is false; and `A`. -/
structure Idle (before : Checkout) (fresh : Prop) (A : Checkout → Prop)
    (world : World fileMachine) : Prop where
  progress : fresh → progress world.log = none
  uncommitted : committedIn world.log = false
  untouched : Untouched before world.state
  also : A world.state

variable {op : FileOp} {after : Checkout} {what : String} {outcome : Outcome ApplyError Unit}

section Idle

variable {before checkout : Checkout} {fresh : Prop} {A B : Checkout → Prop}
  {world : World fileMachine} {allow : Event FileChoice → Prop}

theorem untouched_refl (before : Checkout) : Untouched before before := ⟨fun _ _ => rfl, .inl rfl⟩

theorem Untouched.quiet (untouched : Untouched before checkout)
    (quiet : before.node transactionDirectory = none) :
    checkout.node transactionDirectory = none :=
  (untouched.same _ (by decide)).trans quiet

theorem Idle.mono {fresh' : Prop} (idle : Idle before fresh A world) (weaker : fresh' → fresh)
    (also : A world.state → B world.state) : Idle before fresh' B world :=
  ⟨fun here => idle.progress (weaker here), idle.uncommitted, idle.untouched, also idle.also⟩

variable {faulted : Bool}

/-- A step before the transaction begins. -/
theorem Idle.mark (idle : Idle before fresh A world) (other : fresh → op ≠ planStep)
    (quiet : before.node transactionDirectory = none) (untouched : Untouched before after)
    (also : B after) : Idle before fresh B (world.mark op faulted after) where
  progress here := by
    rw [World.mark_log, Apply.progress, idle.progress here]
    exact if_neg (other here)
  uncommitted := by
    rw [World.mark_log, committedIn, List.any_cons,
      committed_missing (Plan.journal_missing (untouched.quiet quiet)), Bool.false_or]
    exact idle.uncommitted
  untouched := untouched
  also := also

/-- A mark of a step that changed nothing. -/
theorem Idle.note (idle : Idle before fresh A world) (other : fresh → op ≠ planStep)
    (quiet : before.node transactionDirectory = none) :
    Idle before fresh A (world.mark op faulted world.state) :=
  idle.mark other quiet idle.untouched idle.also

variable (before) in
/-- Nothing was done, whatever has been looked at. -/
abbrev Rested : World fileMachine → Prop := Idle before False fun _ => True

theorem Idle.rested (idle : Idle before fresh A world) : Rested before world :=
  idle.mono False.elim fun _ => trivial

theorem idle_step (quiet : before.node transactionDirectory = none)
    (other : fresh → op ≠ planStep)
    (acted : ∀ (checkout after : Checkout) choice res, Untouched before checkout → A checkout →
      fileAct op choice checkout = .ok (res, after) → Untouched before after ∧ B after) :
    Triple allow (Idle before fresh A) (step op) (fun _ => Idle before fresh B)
      (fun _ => Idle before fresh fun _ => True) (Rested before) := by
  refine triple_bind (Q := fun _ => Idle before fresh B) (triple_perform ?_ ?_ ?_ ?_) fun _ =>
    triple_pure fun _ idle => idle
  · exact fun _ _ idle => idle.rested
  · exact fun _ _ idle => (idle.note other quiet).mono id fun _ => trivial
  · exact fun _ _ _ idle _ => (idle.note other quiet).mono id fun _ => trivial
  · intro world choice res after idle done
    obtain ⟨untouched, also⟩ := acted _ _ choice res idle.untouched idle.also done
    exact idle.mark other quiet untouched also

theorem idle_reading {α : Type} {read : Checkout → Except ApplyError α}
    (quiet : before.node transactionDirectory = none)
    (other : fresh → FileOp.inspect what ≠ planStep) :
    Triple allow (Idle before fresh A) (reading what read)
      (fun value => Idle before fresh fun checkout => A checkout ∧ read checkout = .ok value)
      (fun _ => Rested before) (Rested before) := by
  refine triple_bind (Q := fun (res : FileRes) => Idle before fresh fun checkout =>
    A checkout ∧ res.seen = checkout) (triple_perform ?_ ?_ ?_ ?_) fun res => ?_
  · exact fun _ _ idle => idle.rested
  · exact fun _ _ idle => (idle.note other quiet).rested
  · exact fun _ _ _ idle _ => (idle.note other quiet).rested
  · intro world choice res after idle done
    cases done
    exact idle.mark other quiet idle.untouched ⟨idle.also, rfl⟩
  · dsimp only
    cases result : read res.seen with
    | ok value =>
      exact triple_pure fun world idle => idle.mono id fun also =>
        ⟨also.1, also.2 ▸ result⟩
    | error error => exact triple_raise fun world idle => idle.rested

end Idle

/-! ## The lock -/

section Lock

variable {before : Checkout} {fresh : Prop} {A : Checkout → Prop}
  {allow : Event FileChoice → Prop}

/-- What is missing of the directory of the transaction directory. -/
theorem missing_axiomDirectory {checkout : Checkout} {complaint : String} {missing : List Path}
    (read : missingDirectories complaint axiomDirectory checkout = .ok missing) :
    missing = [] ∧ checkout.isDirectory axiomDirectory = true ∨
      missing = [axiomDirectory] ∧ checkout.node axiomDirectory = none := by
  have nonempty : axiomDirectory ≠ [] := List.cons_ne_nil _ _
  change missingFrom complaint checkout [".axiom".toList] = _ at read
  rw [missingFrom] at read
  split at read
  · cases read
  · next looked =>
      cases read
      exact .inr ⟨rfl, Checkout.node_of_lookup nonempty looked⟩
  · next looked =>
      cases read
      exact .inl ⟨rfl, Checkout.isDirectory_iff.mpr
        (.inr ⟨_, Checkout.node_of_lookup nonempty looked⟩)⟩
  · cases read

theorem inspect_ne_planStep (other : what ≠ "plan") :
    FileOp.inspect what ≠ planStep := fun same => other (FileOp.inspect.inj same)

/-- A directory that is made in the root. -/
theorem untouched_mkdir {checkout : Checkout} {choice : FileChoice} {res : FileRes}
    (untouched : Untouched before checkout)
    (done : fileAct (.mkdir axiomDirectory 0o755) choice checkout = .ok (res, after)) :
    Untouched before after ∧ after.isDirectory axiomDirectory = true := by
  obtain ⟨-, missing, -, same⟩ := act_mkdir done
  have here : after.node axiomDirectory = some (.directory 0o755) := by
    rw [same, Function.update_self]
  refine ⟨⟨fun path apart => ?_, .inr ⟨?_, here⟩⟩,
    Checkout.isDirectory_iff.mpr (.inr ⟨_, here⟩)⟩
  · rw [same, Function.update_of_ne apart]
    exact untouched.same path apart
  · rcases untouched.anchor with same | ⟨absent, -⟩
    · rw [← same, missing]
    · exact absent

variable (quiet : before.node transactionDirectory = none)

include quiet

/-- A step that keeps the directory. -/
theorem idle_still (other : fresh → op ≠ planStep)
    (still : ∀ checkout after choice res, fileAct op choice checkout = .ok (res, after) →
      checkout = after) :
    Triple allow (Idle before fresh A) (step op) (fun _ => Idle before fresh A)
      (fun _ => Rested before) (Rested before) :=
  (idle_step quiet other fun checkout after choice res untouched also done => by
    rw [← still _ _ _ _ done]
    exact ⟨untouched, also⟩).mono (fun _ h => h) (fun _ _ h => h) (fun _ _ idle => idle.rested)
      fun _ h => h

theorem idle_ensureDirectory :
    Triple allow (Idle before fresh fun _ => True) (ensureDirectory 0o755 axiomDirectory)
      (fun _ => Idle before fresh fun checkout => checkout.isDirectory axiomDirectory = true)
      (fun _ => Rested before) (Rested before) := by
  refine triple_bind (Q := fun _ => Idle before fresh fun checkout =>
    checkout.isDirectory axiomDirectory = true) ?_ fun created => ?_
  · refine triple_tryCatch (F := fun _ => Idle before fresh fun _ => True)
      (triple_bind (idle_step quiet (fun _ => FileOp.noConfusion)
        fun checkout after choice res untouched _ done => untouched_mkdir untouched done)
          fun _ => triple_pure fun _ idle => idle) fun error => ?_
    split
    · refine triple_bind (idle_reading quiet fun _ => inspect_ne_planStep (by decide)) fun _ =>
        triple_pure fun _ idle => idle.mono id fun also => require_eq_ok_iff.mp also.2
    · exact triple_raise fun _ idle => idle.rested
  · cases created with
    | true =>
      exact idle_still quiet (fun _ => FileOp.noConfusion) fun _ _ _ _ done =>
        act_fsyncDirectory_same done
    | false => exact triple_pure fun _ idle => idle

/-- The directory of the transaction directory is made where it is missing. -/
theorem idle_ensureDurableDirectory :
    Triple allow (Idle before fresh fun _ => True) (ensureDurableDirectory axiomDirectory 0o755)
      (fun _ => Idle before fresh fun checkout => checkout.isDirectory axiomDirectory = true)
      (fun _ => Rested before) (Rested before) := by
  refine triple_bind (idle_reading quiet fun _ => inspect_ne_planStep (by decide)) fun missing => ?_
  refine Triple.pre (P := fun world => (missing = [] ∧ Idle before fresh
    (fun checkout => checkout.isDirectory axiomDirectory = true) world) ∨
      (missing = [axiomDirectory] ∧ Idle before fresh (fun _ => True) world))
    (Triple.of_or (Triple.of_fact ?_) (Triple.of_fact ?_)) fun world idle => ?_
  · rintro rfl
    exact triple_pure fun _ idle => idle
  · rintro rfl
    exact triple_bind (idle_ensureDirectory quiet) fun _ => triple_pure fun _ idle => idle
  · exact (missing_axiomDirectory idle.also.2).imp
      (fun here => ⟨here.1, idle.mono id fun _ => here.2⟩)
      fun here => ⟨here.1, idle.mono id fun _ => trivial⟩

end Lock

/-! ## Recoveries -/

namespace Plan

variable {host : Host} {plan : Plan host} {tree : Tree} {found : Progress}
  {allow : Event FileChoice → Prop}

theorem Safe.anchor (safe : plan.Safe tree found) : tree.IsDirectory axiomDirectory := by
  rcases safe with ⟨_, pending⟩ | settled
  · exact pending.live.doing.anchor
  · exact settled.done.1.anchor

/-- Taking the lock, or giving it back. -/
theorem spec_looks {A : Assertion} {Φ : ApplyError → Prop} (looks : op.Looks) (stable : Stable A)
    (weaker : A.Entails plan.Safe) (injected : Φ .injected) :
    Spec allow A (step op) (fun _ => A) (fun error tree found => Φ error ∧ plan.Safe tree found)
      plan.Safe := by
  refine Spec.changeAs stable weaker injected (fun choice checkout error failed => ?_)
    fun checkout mark found choice res said done => ?_
  · rw [act_looks looks] at failed
    cases failed
  · rw [act_looks looks] at done
    have same : checkout = mark.after := (Prod.mk.inj (Except.ok.inj done)).2
    have kept := stable _ _ mark said (same ▸ Agree.refl _)
    rwa [same] at kept

theorem spec_recoverApplyTransaction (apart : plan.Collisionless) :
    Spec allow plan.Safe (recoverApplyTransaction host) (fun _ => plan.Cleared)
      (fun _ => plan.Safe) plan.Safe := by
  have looks : ∀ {A : Assertion} {op : FileOp}, op.Looks → Stable A →
      A.Entails plan.Safe →
        Spec allow A (step op) (fun _ => A) (fun _ => plan.Safe) plan.Safe :=
    fun here stable weaker => (spec_looks (Φ := fun _ => True) here stable weaker trivial).mono
      (fun _ _ h => h) (fun _ _ _ h => h) (fun _ _ _ h => h.2) fun _ _ h => h
  refine Spec.bind (Spec.ensureDurableDirectory stable_safe (fun _ _ safe => safe.anchor)
    (fun _ _ _ safe => safe) fun _ _ _ _ safe => stable_safe _ _ _ safe (Agree.refl _)) fun _ => ?_
  refine Spec.bind (looks trivial stable_safe fun _ _ safe => safe) fun _ => ?_
  exact Spec.tryFinally (spec_recoverApplyTransactionLocked apart)
    (fun _ => looks trivial stable_cleared fun _ _ cleared => cleared.safe)
    fun _ => looks trivial stable_safe fun _ _ safe => safe

end Plan

section Runs

variable {host : Host} {before : Checkout} {files : List (Path × Option Bytes)}
  {allow : Event FileChoice → Prop}

/-- The plan is for these files, from a tree in which nothing was done. -/
structure PlanOf (before : Checkout) (files : List (Path × Option Bytes)) (plan : Plan host) :
    Prop where
  files : plan.files = files
  original : Untouched before plan.original

/-- What is said of the plan that is being carried out. -/
def Held (host : Host) (before : Checkout) (files : List (Path × Option Bytes))
    (A : Plan host → Assertion) (world : World fileMachine) : Prop :=
  ∃ plan : Plan host, PlanOf before files plan ∧ (A plan).Holds world

theorem Held.mono {A B : Plan host → Assertion} {world : World fileMachine}
    (held : Held host before files A world)
    (weaker : ∀ plan tree found, A plan tree found → B plan tree found) :
    Held host before files B world :=
  held.imp fun plan here => ⟨here.1, here.2.mono (weaker plan)⟩

/-- Where a run can stop. -/
def Stopped (host : Host) (before : Checkout) (files : List (Path × Option Bytes))
    (world : World fileMachine) : Prop :=
  Rested before world ∨ Held host before files Plan.Safe world

theorem triple_held {α : Type} {p : Run α} {A K : Plan host → Assertion}
    {B : α → Plan host → Assertion} {G : ApplyError → Plan host → Assertion}
    (spec : ∀ plan : Plan host, PlanOf before files plan →
      Spec allow (A plan) p (fun value => B value plan) (fun error => G error plan) (K plan)) :
    Triple allow (Held host before files A) p (fun value => Held host before files (B value))
      (fun error => Held host before files (G error)) (Held host before files K) :=
  Triple.of_exists fun plan => Triple.of_fact fun planOf =>
    Triple.mono (spec plan planOf) (fun _ h => h) (fun _ _ h => ⟨plan, planOf, h⟩)
      (fun _ _ h => ⟨plan, planOf, h⟩) fun _ h => ⟨plan, planOf, h⟩

theorem collisionless_of_noCollision (apart : NoCollision host before files) {plan : Plan host}
    (planOf : PlanOf before files plan) : plan.Collisionless := by
  intro file member new planned raw mode found same
  refine apart file (planOf.files ▸ member) new planned raw mode ?_ same
  rw [← planOf.original.same, found]
  rintro here
  obtain ⟨anchorMode, anchor⟩ := plan.anchor
  rw [here, anchor] at found
  cases found

/-- Recovery where there is nothing to recover. -/
theorem idle_recoverApplyTransactionLocked {fresh : Prop} {A : Checkout → Prop}
    (quiet : before.node transactionDirectory = none) :
    Triple allow (Idle before fresh A) (recoverApplyTransactionLocked host)
      (fun _ => Idle before fresh A) (fun _ => Rested before) (Rested before) := by
  refine triple_bind (idle_reading quiet fun _ => inspect_ne_planStep (by decide))
    fun interrupted => ?_
  refine Triple.pre (P := fun world => interrupted = false ∧ Idle before fresh A world)
    (Triple.of_fact fun none_ => ?_) fun world idle => ⟨?_, idle.mono id And.left⟩
  · rw [none_]
    exact triple_pure fun _ idle => idle
  · have read := Except.ok.inj idle.also.2
    rw [idle.untouched.quiet quiet] at read
    exact read.symm

theorem idle_recoverApplyTransaction (quiet : before.node transactionDirectory = none) :
    Triple allow (Rested before) (recoverApplyTransaction host) (fun _ => Rested before)
      (fun _ => Rested before) (Rested before) := by
  have unlock : Triple allow (Rested before) (step .unlock) (fun _ => Rested before)
      (fun _ => Rested before) (Rested before) :=
    idle_still quiet (fun _ => FileOp.noConfusion) fun _ _ _ _ done => by cases done; rfl
  refine triple_bind (idle_ensureDurableDirectory quiet) fun _ => ?_
  refine triple_bind (Q := fun _ => Rested before)
    ((idle_still quiet (fun _ => FileOp.noConfusion) fun _ _ _ _ done => by cases done; rfl).post
      fun _ _ idle => idle.rested) fun _ => ?_
  exact triple_tryFinally (idle_recoverApplyTransactionLocked quiet) (fun _ => unlock)
    fun _ => unlock

/-- One recovery, from wherever a run stopped. -/
theorem triple_recoverApplyTransaction (quiet : before.node transactionDirectory = none)
    (apart : NoCollision host before files) :
    Triple allow (Stopped host before files) (recoverApplyTransaction host)
      (fun _ world => Rested before world ∨ Held host before files Plan.Cleared world)
      (fun _ => Stopped host before files) (Stopped host before files) :=
  Triple.of_or
    ((idle_recoverApplyTransaction quiet).mono (fun _ h => h) (fun _ _ h => .inl h)
      (fun _ _ h => .inl h) fun _ h => .inl h)
    ((triple_held fun _ planOf => Plan.spec_recoverApplyTransaction
      (collisionless_of_noCollision apart planOf)).mono (fun _ h => h) (fun _ _ h => .inr h)
        (fun _ _ h => .inr h) fun _ h => .inr h)

/-! ## Installations -/

/-- The state of things when the transaction is planned. -/
theorem begun_of_quiet {plan : Plan host} {found : Progress} (original : found.original = plan.original)
    (uncommitted : found.committed = false) :
    plan.Begun (fun _ => True) plan.original.node found := by
  have nothing : ∀ path, transactionDirectory <+: path → plan.original.node path = none :=
    fun _ => Plan.original_inside
  refine ⟨trivial, ⟨.inl plan.quiet, .inl (nothing _ transactionDirectory_prefix_backups),
    fun item _ => .inl (nothing _ (transactionDirectory_prefix_backup _))⟩,
    ⟨original, uncommitted, nothing _ transactionDirectory_prefix_journal, nofun⟩,
    fun _ _ => .inl rfl, absurd rfl⟩

variable (host) in
/-- The step with which a transaction begins. -/
theorem triple_plan (quiet : before.node transactionDirectory = none) (admissible : Admissible files) :
    Triple allow
      (Idle before True fun checkout => checkout.isDirectory axiomDirectory = true)
      (reading "plan" (plannedApplyTransactionDirectories files))
      (fun directories => Held host before files fun plan tree found =>
        plan.directories = directories ∧ plan.Begun (fun _ => True) tree found)
      (fun _ => Rested before) (Rested before) := by
  refine triple_bind (Q := fun res world => Idle before False
    (fun checkout => checkout.isDirectory axiomDirectory = true ∧ res.seen = checkout) world ∧
      progress world.log = some { original := world.state, committed := false })
    (triple_perform ?_ ?_ ?_ ?_) fun res => ?_
  · exact fun _ _ idle => idle.rested
  · exact fun _ _ idle => idle.rested.note False.elim quiet
  · exact fun _ _ _ idle _ => idle.rested.note False.elim quiet
  · intro world choice res after idle done
    cases done
    have marked : Idle before False (fun checkout => checkout.isDirectory axiomDirectory = true ∧
        world.state = checkout) (world.mark (.inspect "plan") false world.state) :=
      Idle.mark idle.rested False.elim quiet idle.untouched ⟨idle.also, rfl⟩
    refine ⟨marked, ?_⟩
    have uncommitted := marked.uncommitted
    rw [World.mark_log] at uncommitted ⊢
    rw [progress, idle.progress trivial]
    dsimp only
    rw [if_pos (show FileOp.inspect "plan" = planStep from rfl), uncommitted]
    rfl
  · dsimp only
    cases read : plannedApplyTransactionDirectories files res.seen with
    | error error => exact triple_raise fun world here => here.1.rested
    | ok directories =>
      refine triple_pure fun world here => ?_
      obtain ⟨idle, begun⟩ := here
      rw [idle.also.2] at read
      let plan : Plan host :=
        { original := world.state, files, directories, anchored := idle.also.1,
          quiet := idle.untouched.quiet quiet, distinct := admissible.distinct,
          clean := admissible.clean, sanctioned := admissible.sanctioned,
          planned := plannedApplyTransactionDirectories_spec read }
      exact ⟨plan, ⟨rfl, idle.untouched⟩, _, begun, rfl, @begun_of_quiet host plan _ rfl rfl⟩

/-- What an error of an installation means. -/
def Failed (host : Host) (before : Checkout) (files : List (Path × Option Bytes))
    (error : ApplyError) (world : World fileMachine) : Prop :=
  Rested before world ∨ Held host before files (fun plan => plan.Raised error) world

theorem triple_runTransaction (quiet : before.node transactionDirectory = none)
    (admissible : Admissible files) (apart : NoCollision host before files) (request : Request) :
    Triple allow
      (Idle before True fun checkout => checkout.isDirectory axiomDirectory = true)
      (runTransaction host request files) (fun _ => Held host before files Plan.Finished)
      (Failed host before files) (Stopped host before files) := by
  refine triple_bind ((triple_plan host quiet admissible).mono (fun _ h => h) (fun _ _ h => h)
    (fun _ _ idle => .inl idle) fun _ idle => .inl idle) fun directories => ?_
  refine (triple_held fun plan planOf => Spec.of_fact fun same => ?_).mono (fun _ h => h)
    (fun _ _ h => h) (fun _ _ h => .inr h) fun _ h => .inr h
  rw [← same, ← planOf.files]
  exact Plan.spec_transaction plan (collisionless_of_noCollision apart planOf) request

variable {request : Request}

/-- The installation of a request, with nothing interrupted before it. -/
theorem triple_installApplyTransaction (quiet : before.node transactionDirectory = none)
    (admitted : admitTargets host request before = .ok files)
    (apart : NoCollision host before files) :
    Triple allow (fun world => world = ⟨before, []⟩) (installApplyTransaction host request)
      (fun _ => Held host before files Plan.Finished) (Failed host before files)
      (Stopped host before files) := by
  have rested : ∀ {α : Type} {p : Run α} {P : World fileMachine → Prop}
      {Q : α → World fileMachine → Prop},
      Triple allow P p Q (fun _ => Rested before) (Rested before) →
        Triple allow P p Q (Failed host before files) (Stopped host before files) :=
    fun triple => triple.mono (fun _ h => h) (fun _ _ h => h) (fun _ _ idle => .inl idle)
      fun _ idle => .inl idle
  have lock : ∀ (op : FileOp), op.Looks → ∀ choice (checkout after : Checkout) res,
      fileAct op choice checkout = .ok (res, after) → checkout = after := by
    intro op looks choice checkout after res done
    rw [act_looks looks] at done
    exact (Prod.mk.inj (Except.ok.inj done)).2
  have asked : Triple allow (Idle before True fun checkout => checkout = before)
      (reading "request" (admitTargets host request))
      (fun found => Idle before True fun checkout =>
        checkout = before ∧ admitTargets host request checkout = .ok found)
      (fun _ => Rested before) (Rested before) :=
    idle_reading quiet fun _ => inspect_ne_planStep (by decide)
  refine triple_bind (rested (asked.pre ?_)) fun found => ?_
  · rintro world rfl
    exact ⟨fun _ => rfl, rfl, untouched_refl before, rfl⟩
  refine Triple.pre (P := fun world => found = files ∧ Idle before True (fun _ => True) world)
    (Triple.of_fact fun same => ?_) fun world idle => ⟨?_, idle.mono id fun _ => trivial⟩
  · subst same
    refine triple_bind (rested (idle_ensureDurableDirectory quiet)) fun _ => ?_
    refine triple_bind (rested (idle_still quiet (fun _ => FileOp.noConfusion)
      fun checkout after choice res => lock .lock trivial choice checkout after res)) fun _ => ?_
    refine triple_tryFinally (S := fun _ => Held host before found Plan.Finished)
      (F := Failed host before found) ?_ (fun _ => ?_) fun error => ?_
    · refine triple_bind (rested (idle_recoverApplyTransactionLocked quiet)) fun _ => ?_
      refine triple_bind (Q := fun _ => Idle before True fun checkout =>
        checkout.isDirectory axiomDirectory = true) (rested ?_) fun _ =>
          triple_runTransaction quiet (admitTargets_spec admitted) apart request
      cases request.preInstallCheck with
      | none => exact triple_pure fun _ idle => idle
      | some check =>
        exact (idle_reading quiet fun _ => inspect_ne_planStep (by decide)).post
          fun _ _ idle => idle.mono id And.left
    · exact (triple_held fun plan _ => Plan.spec_looks (Φ := ApplyError.Plain)
        (show FileOp.Looks .unlock from trivial)
        Plan.stable_finished (fun _ _ finished => finished.cleared.safe) plain_injected).mono
          (fun _ h => h) (fun _ _ h => h) (fun _ _ held => .inr (held.mono fun _ _ _ said =>
            Plan.raised_of_plain said.1 said.2)) fun _ h => .inr h
    · refine Triple.of_or ?_ ?_
      · exact (idle_still quiet (fun _ => FileOp.noConfusion) fun checkout after choice res =>
          lock .unlock trivial choice checkout after res).mono (fun _ h => h)
            (fun _ _ idle => .inl idle) (fun _ _ idle => .inl idle) fun _ idle => .inl idle
      · exact (triple_held fun plan _ => Plan.spec_looks (Φ := ApplyError.Plain)
        (show FileOp.Looks .unlock from trivial)
          Plan.stable_raised (fun _ _ raised => raised.1) plain_injected).mono
            (fun _ h => h) (fun _ _ h => .inr h) (fun _ _ held => .inr (held.mono fun _ _ _ said =>
              Plan.raised_of_plain said.1 said.2)) fun _ h => .inr h
  · have read := idle.also.2
    rw [idle.also.1, admitted] at read
    exact (Except.ok.inj read).symm

/-! ## All or nothing -/

theorem mode_eq {plan : Plan host} (planOf : PlanOf before files plan) (path : Path) :
    plan.mode path = targetMode (before.node path) := by
  have modes : plan.mode path = targetMode (plan.original.node path) := by
    unfold Plan.mode Plan.old
    cases here : plan.original.node path with
    | none => rfl
    | some node => cases node <;> rfl
  by_cases same : path = axiomDirectory
  · rw [modes, same]
    rcases planOf.original.anchor with same | ⟨absent, here⟩
    · rw [same]
    · rw [absent, here]
      rfl
  · rw [modes, planOf.original.same path same]

/-- Outside the transaction directory a path that holds no temporary file and is not about
the transaction is as it was. -/
theorem as_before {plan : Plan host} {path : Path} (planOf : PlanOf before files plan)
    (plain : ¬ IsTemporary path) (apart : path ≠ axiomDirectory)
    (kept : plan.Kept after.node path) : after.node path = before.node path :=
  (kept.of_plain plain).trans (planOf.original.same path apart)

theorem asBefore_of_undone {plan : Plan host} (planOf : PlanOf before files plan)
    (admissible : Admissible files) (quiet : before.node transactionDirectory = none)
    (gone : after.node transactionDirectory = none) (undone : plan.Undone after.node) :
    AsBefore before files after := by
  have others : ∀ path, ¬ IsTemporary path → path ≠ axiomDirectory →
      after.node path = before.node path := by
    intro path plain apart
    by_cases inside : transactionDirectory <+: path
    · rw [Checkout.node_inside gone inside, Checkout.node_inside quiet inside]
    · exact as_before planOf plain apart (undone path inside)
  exact ⟨fun file member => others file.1 (admissible.sanctioned file member).2.1
    (admissible.inside file member), others⟩

theorem asPlanned_of_done {plan : Plan host} (planOf : PlanOf before files plan)
    (quiet : before.node transactionDirectory = none)
    (gone : after.node transactionDirectory = none) (done : plan.Done after.node) :
    AsPlanned before files after := by
  refine ⟨fun file member => ?_, fun path plain apart notTarget => ?_⟩
  · rw [done.2 file (planOf.files.symm ▸ member), Plan.goal, plannedNode, mode_eq planOf]
  · by_cases inside : transactionDirectory <+: path
    · rw [Checkout.node_inside gone inside, Checkout.node_inside quiet inside]
      exact .inl rfl
    · by_cases made : path ∈ plan.directories
      · have absent := (plan.planned.absent path made).2
        rw [planOf.original.same path apart] at absent
        rcases done.1.made path made with missing | directory | ⟨-, temporary, -⟩
        · exact .inl (missing.trans absent.symm)
        · obtain ⟨file, listed, -, above⟩ := plan.planned.needed path made
          exact .inr ⟨absent, directory, file, planOf.files ▸ listed, above⟩
        · exact absurd temporary plain
      · refine .inl (as_before planOf plain apart (done.1.frame path inside ?_ made))
        rw [← planOf.files] at notTarget
        exact notTarget

theorem allOrNothing_of_rested {world : World fileMachine}
    (quiet : before.node transactionDirectory = none) (admissible : Admissible files)
    (rested : Rested before world) : AllOrNothing before files world := by
  refine ⟨rested.untouched.quiet quiet, ?_⟩
  rw [rested.uncommitted]
  exact ⟨fun file member => rested.untouched.same _ (admissible.inside file member),
    fun path _ apart => rested.untouched.same path apart⟩

theorem allOrNothing_of_cleared {world : World fileMachine}
    (quiet : before.node transactionDirectory = none) (admissible : Admissible files)
    (held : Held host before files Plan.Cleared world) : AllOrNothing before files world := by
  obtain ⟨plan, planOf, found, here, leaving, gone, -⟩ := held
  refine ⟨gone, ?_⟩
  rw [← progress_committed here]
  rcases leaving with ⟨state, pending, undone⟩ | settled
  · rw [pending.early.uncommitted]
    exact asBefore_of_undone planOf admissible quiet gone undone
  · rw [settled.late.committed]
    exact asPlanned_of_done planOf quiet gone settled.done

/-- Any step may be made to fail, and the process killed before any. -/
theorem any_event (schedule : Schedule fileMachine) : ∀ event ∈ schedule, True :=
  fun _ _ => trivial

/-- Wherever a run of attempts is cut short, the transaction is safe. -/
theorem Attempted.stopped {world : World fileMachine}
    (quiet : before.node transactionDirectory = none)
    (admitted : admitTargets host request before = .ok files)
    (apart : NoCollision host before files) (attempted : Attempted host request before world) :
    Stopped host before files world := by
  induction attempted with
  | install schedule =>
    exact (triple_installApplyTransaction quiet admitted apart schedule _
      (any_event _) rfl).reached
        (fun _ _ held => .inr (held.mono fun _ _ _ finished => finished.cleared.safe))
        (fun _ _ failed => failed.imp_right fun held => held.mono fun _ _ _ raised => raised.1)
        fun _ stopped => stopped
  | recover earlier schedule stopped =>
    exact (triple_recoverApplyTransaction quiet apart schedule _
      (any_event _) stopped).reached
        (fun _ _ held => held.imp_right fun held => held.mono fun _ _ _ cleared => cleared.safe)
        (fun _ _ stopped => stopped) fun _ stopped => stopped

/-- **However often an installation and the recoveries after it were killed or made to fail,
a recovery that answers leaves all of the transaction or nothing**: all exactly if a
committed journal was ever on disk. -/
theorem recover_allOrNothing {request : Request} {world : World fileMachine}
    (quiet : before.node transactionDirectory = none)
    (admitted : admitTargets host request before = .ok files)
    (apart : NoCollision host before files) (attempted : Attempted host request before world)
    (schedule : Schedule fileMachine)
    (answered : (recoverApplyTransaction host schedule world).1 = .done ()) :
    AllOrNothing before files (recoverApplyTransaction host schedule world).2.2 := by
  have ends := triple_recoverApplyTransaction quiet apart schedule _
    (any_event _) (attempted.stopped quiet admitted apart)
  have admissible := admitTargets_spec admitted
  cases result : recoverApplyTransaction host schedule world with
  | mk outcome rest =>
    rw [result] at ends answered
    cases answered
    exact ends.2.elim (allOrNothing_of_rested quiet admissible)
      (allOrNothing_of_cleared quiet admissible)

/-- What the answer of an installation means. -/
structure InstallPromise (before : Checkout) (files : List (Path × Option Bytes))
    (outcome : Outcome ApplyError Unit) (world : World fileMachine) : Prop where
  answered : outcome = .done () → committedIn world.log = true ∧ AllOrNothing before files world
  failed : ∀ cause, outcome = .raised (.transactionFailed cause none) →
    AllOrNothing before files world

/-- **An installation that answers did what was planned, and one that raises without naming
a failed recovery did all of it or nothing**, whatever was made to fail on the way. -/
theorem install_allOrNothing {request : Request} (quiet : before.node transactionDirectory = none)
    (admitted : admitTargets host request before = .ok files)
    (apart : NoCollision host before files) (schedule : Schedule fileMachine) :
    InstallPromise before files (installApplyTransaction host request schedule ⟨before, []⟩).1
      (installApplyTransaction host request schedule ⟨before, []⟩).2.2 := by
  have ends := triple_installApplyTransaction quiet admitted apart schedule
    _
        (any_event _) rfl
  have admissible := admitTargets_spec admitted
  cases result : installApplyTransaction host request schedule ⟨before, []⟩ with
  | mk outcome rest =>
    rw [result] at ends
    refine ⟨fun answered => ?_, fun cause failed => ?_⟩
    · cases answered
      refine ⟨?_, allOrNothing_of_cleared quiet admissible
        (ends.2.mono fun _ _ _ finished => finished.cleared)⟩
      obtain ⟨plan, -, found, here, settled, -⟩ := ends.2
      rw [← progress_committed here]
      exact settled.late.committed
    · cases failed
      refine ends.2.elim (allOrNothing_of_rested quiet admissible) fun held => ?_
      exact allOrNothing_of_cleared quiet admissible
        (held.mono fun _ _ _ raised => raised.2 cause rfl)

end Runs

/-! ## One target, replaced -/

def sampleTarget : Path := ["known-validation-gaps.yaml".toList]

/-- SHA-256 of the planned content, and of the content before. -/
def sampleHost : Host where
  root := ["rulespec-uk".toList]
  sha256 raw :=
    if raw = [2] then "dbc1b4c900ffe48d575b5da5c638040125f65db0fe3e24494b76ea986457d986".toList
    else "4bf5122f344554c53bde2ebb8cd2b7e3d1600ad631c385a5d7cce23c7785459a".toList
  gitAdmits := true

def emptyCheckout : Checkout where
  nodes := ∅
  rooted path node found := by cases found

def sampleBefore : Checkout :=
  emptyCheckout.put sampleTarget (.file [1] 0o600) (by decide)

def sampleRequest : Request where
  files := [("/rulespec-uk/known-validation-gaps.yaml".toList, some [2])]
  expectedOriginals := []
  preInstallCheck := none
  postInstallCheck := none

def sampleFiles : List (Path × Option Bytes) := [(sampleTarget, some [2])]

/-- Every step of the installation is made. -/
def sampleGo : Schedule fileMachine := List.replicate 80 (.go {})

/-- The installation is killed while the transaction directory is removed. -/
def sampleKill : Schedule fileMachine := List.replicate 67 (.go {}) ++ [.kill]

/-- The backup is made, and the replacement of the journal fails. -/
def sampleFault : Schedule fileMachine := List.replicate 30 (.go {}) ++ [.fault]

def sampleInterrupted : World fileMachine :=
  (installApplyTransaction sampleHost sampleRequest sampleKill ⟨sampleBefore, []⟩).2.2

def Outcome.answered {Err α : Type} : Outcome Err α → Bool
  | .done _ => true
  | _ => false

/-- The outcome is the error of a transaction whose recovery did not fail. -/
def Outcome.failed : Outcome ApplyError Unit → Bool
  | .raised (.transactionFailed _ none) => true
  | _ => false

theorem eq_raised_of_failed (failed : Outcome.failed outcome = true) :
    ∃ cause, outcome = .raised (.transactionFailed cause none) := by
  unfold Outcome.failed at failed
  split at failed
  next cause => exact ⟨cause, rfl⟩
  next => cases failed

theorem eq_done_of_answered (answered : Outcome.answered outcome = true) : outcome = .done () := by
  cases outcome with
  | done value => rfl
  | raised error => cases answered
  | killed => cases answered

theorem noCollision_sample : NoCollision sampleHost sampleBefore sampleFiles := by
  intro file member new planned raw mode found same
  obtain rfl := List.mem_singleton.mp member
  obtain rfl := Option.some.inj planned
  by_contra other
  have digests : sampleHost.sha256 raw =
      "4bf5122f344554c53bde2ebb8cd2b7e3d1600ad631c385a5d7cce23c7785459a".toList := if_neg other
  rw [digests] at same
  exact absurd same (by decide)

theorem quiet_sample : sampleBefore.node transactionDirectory = none := by decide +kernel

theorem admitted_sample : admitTargets sampleHost sampleRequest sampleBefore = .ok sampleFiles := rfl

theorem attempted_sample : Attempted sampleHost sampleRequest sampleBefore sampleInterrupted :=
  .install sampleKill

theorem answered_sample : (recoverApplyTransaction sampleHost [] sampleInterrupted).1 = .done () :=
  eq_done_of_answered (by decide +kernel)

theorem recover_allOrNothing_sample :
    sampleInterrupted.state.node sampleTarget = some (.file [2] 0o600) ∧
      AllOrNothing sampleBefore sampleFiles
        (recoverApplyTransaction sampleHost [] sampleInterrupted).2.2 :=
  ⟨by decide +kernel, recover_allOrNothing quiet_sample admitted_sample noCollision_sample
    attempted_sample [] answered_sample⟩

theorem answered_install_sample :
    (installApplyTransaction sampleHost sampleRequest sampleGo ⟨sampleBefore, []⟩).1 = .done () :=
  eq_done_of_answered (by decide +kernel)

theorem failed_install_sample :
    ∃ cause, (installApplyTransaction sampleHost sampleRequest sampleFault
      ⟨sampleBefore, []⟩).1 = .raised (.transactionFailed cause none) :=
  eq_raised_of_failed (by decide +kernel)

/-- The installation answers, and is taken back when a step of it is made to fail. -/
theorem install_allOrNothing_sample :
    ((installApplyTransaction sampleHost sampleRequest sampleGo ⟨sampleBefore, []⟩).1 = .done () ∧
        AllOrNothing sampleBefore sampleFiles
          (installApplyTransaction sampleHost sampleRequest sampleGo ⟨sampleBefore, []⟩).2.2) ∧
      ∃ cause, (installApplyTransaction sampleHost sampleRequest sampleFault
          ⟨sampleBefore, []⟩).1 = .raised (.transactionFailed cause none) ∧
        AllOrNothing sampleBefore sampleFiles
          (installApplyTransaction sampleHost sampleRequest sampleFault ⟨sampleBefore, []⟩).2.2 := by
  have promise (schedule : Schedule fileMachine) :=
    install_allOrNothing quiet_sample admitted_sample noCollision_sample schedule
  obtain ⟨cause, failed⟩ := failed_install_sample
  exact ⟨⟨answered_install_sample, ((promise sampleGo).answered answered_install_sample).2⟩, cause,
    failed, (promise sampleFault).failed cause failed⟩

end AxiomEncode.Apply
