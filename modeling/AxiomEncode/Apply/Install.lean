/-
# Apply.Install -- a transaction is carried out

The invariant of `Apply.Recovery`, followed through the installation: the backups are
made, the journal goes from `prepared` to `applying`, the directories and then the
targets are made what they are to become, and the journal that says `committed`
settles it.  An error after the transaction directory was made is answered by a
recovery, and says whether that recovery failed.
-/
import AxiomEncode.Apply.Recovery

namespace AxiomEncode.Apply

open Theory Crash

set_option autoImplicit false

variable {mode : Nat} {error : ApplyError} {choice : FileChoice} {checkout : Checkout}

namespace Plan

variable {host : Host} {plan : Plan host} {tree : Tree} {found : Progress} {path : Path}
  {mark : Mark fileMachine} {allow : Event FileChoice → Prop}

/-! ## The transaction directory is open -/

/-- The transaction directory and the directory of the backups are there. -/
def Opened (tree : Tree) : Prop :=
  tree transactionDirectory = some (.directory 0o700) ∧
    tree backupsDirectory = some (.directory 0o700)

theorem Opened.update (opened : Opened tree) (root : transactionDirectory ≠ path)
    (backups : backupsDirectory ≠ path) (node : Option Node) :
    Opened (Function.update tree path node) := by
  unfold Opened
  rw [Function.update_of_ne root, Function.update_of_ne backups]
  exact opened

variable (plan) in
/-- The transaction directory is open, the journal in a state, and the tree outside as
`L` says. -/
def Open (state : Option JournalState) (L : Tree → Prop) (tree : Tree) (found : Progress) : Prop :=
  Opened tree ∧ plan.Pending state tree found ∧ L tree

variable {state : Option JournalState} {next : JournalState} {outside : Tree → Prop}

theorem Open.safe (open_ : plan.Open state outside tree found) : plan.Safe tree found :=
  .inl ⟨state, open_.2.1⟩

theorem stable_open : Stable (plan.Open state outside) := fun tree found mark open_ agree =>
  ⟨open_.1, stable_pending tree found mark open_.2.1 agree, open_.2.2⟩

theorem open_safe (tree : Tree) (found : Progress) (open_ : plan.Open state outside tree found) :
    plan.Safe tree found := open_.safe

theorem open_temporary {directory : Path} (tree : Tree) (found : Progress)
    (here : WithTemporary directory (plan.Open state outside) tree found) :
    plan.Safe tree found :=
  safe_of_withTemporary here fun _ _ open_ => ⟨state, open_.2.1⟩

/-- A call that reads while the transaction directory is open. -/
theorem open_look {what : String} {read : Checkout → Except ApplyError Unit} :
    Spec allow (plan.Open state outside) (reading what read) (fun _ => plan.Open state outside)
      (fun _ => plan.Safe) plan.Safe :=
  Spec.look stable_open open_safe fun _ _ _ open_ _ => open_

/-! ## The backups -/

variable (plan) in
/-- What the code found when it looked at a target. -/
def CheckedFile (file : Path × Option Bytes) : Prop :=
  Readable (plan.original.node file.1) ∧ (file.2 = none → plan.original.node file.1 ≠ none)

theorem checked_of_each (each : ∀ file ∈ plan.files, plan.CheckedFile file) : plan.Checked :=
  ⟨fun file member => (each file member).1, fun file member => (each file member).2⟩

variable {item : Item} {file : Path × Option Bytes} {rest : List (Path × Option Bytes)}

/-- The step that makes a backup. -/
theorem Open.back_up (member : item ∈ plan.files.zipIdx) {raw : Bytes}
    (file : plan.original.node item.1.1 = some (.file raw mode))
    (open_ : plan.Open none (fun _ => True) tree found)
    (after : mark.after.node =
      Function.update tree (backupPath item.2) (some (.file raw 0o600))) :
    plan.Open none (fun _ => True) mark.after.node (found.note mark) := by
  obtain ⟨opened, pending, -⟩ := open_
  have short := @backupPath_ne_of_length
  refine ⟨?_, ⟨?_, pending.early.same ?_, ?_, absurd rfl⟩, trivial⟩
  · rw [after]
    exact opened.update (short (by decide) _).symm (short (by decide) _).symm _
  · rw [after]
    exact pending.space.back_up member file
  · rw [after]
    exact Function.update_of_ne (short (by decide) _).symm _ _
  · rw [after]
    exact pending.live.congr
      (sameOutside_update (transactionDirectory_prefix_backup _) _)

theorem spec_backUpTarget (request : Request) (member : item ∈ plan.files.zipIdx) :
    Spec allow (plan.Open none fun _ => True)
      (backUpTarget host request item.2 item.1.1 item.1.2)
      (fun entry tree found => (entry = plan.entry item ∧ plan.CheckedFile item.1) ∧
        plan.Open none (fun _ => True) tree found) (fun _ => plan.Safe) plan.Safe := by
  have target := targets_of_mem (mem_of_mem_zipIdx member)
  refine Spec.bind open_look fun _ => ?_
  refine Spec.bind (B := fun old tree found => (old = plan.old item.1.1 ∧
    plan.CheckedFile item.1) ∧ plan.Open none (fun _ => True) tree found)
    (Spec.look stable_open open_safe ?_) fun old => Spec.of_fact ?_
  · intro checkout found old open_ read
    obtain ⟨snapshot, taken, read⟩ := bind_eq_ok_iff.mp read
    obtain ⟨readable, same⟩ := applyTransactionFileSnapshot_ok target.sanctioned.1 taken
    obtain ⟨_, -, read⟩ := bind_eq_ok_iff.mp read
    obtain ⟨_, deletes, last⟩ := bind_eq_ok_iff.mp read
    cases last
    rw [(open_.2.1.live.undone nofun).target target] at readable same
    refine ⟨⟨same, readable, fun deletion missing => ?_⟩, open_⟩
    have deletes := require_eq_ok_iff.mp deletes
    rw [deletion, same, missing] at deletes
    cases deletes
  · rintro ⟨rfl, checked⟩
    refine Spec.bind (B := fun _ => plan.Open none fun _ => True) ?_ fun _ =>
      Spec.pure fun _ _ open_ => ⟨⟨rfl, checked⟩, open_⟩
    rcases checked.1 with missing | ⟨raw, mode, file, -⟩
    · rw [old_of_missing missing]
      exact Spec.pure fun _ _ open_ => open_
    · rw [old_of_file file]
      refine Spec.replaceBytes stable_open stable_open open_safe open_temporary open_safe ?_
        (List.append_ne_nil_of_right_ne_nil _ (List.cons_ne_nil _ _))
        (not_isTemporary_backup item.2) fun tree found mark open_ _ after =>
          open_.back_up member file after
      rw [List.dropLast_concat]
      exact fun tree found open_ => .inr ⟨_, open_.1.2⟩

/-- Every target is backed up, and its entry is the one of the plan. -/
theorem spec_backUpTargets (request : Request) (files : List (Path × Option Bytes)) (index : Nat)
    (listed : ∀ item ∈ files.zipIdx index, item ∈ plan.files.zipIdx) :
    Spec allow (plan.Open none fun _ => True) (backUpTargets host request index files)
      (fun entries tree found => (entries = (files.zipIdx index).map plan.entry ∧
        ∀ file ∈ files, plan.CheckedFile file) ∧ plan.Open none (fun _ => True) tree found)
      (fun _ => plan.Safe) plan.Safe := by
  induction files generalizing index with
  | nil => exact Spec.pure fun _ _ open_ => ⟨⟨rfl, fun _ absent => absurd absent List.not_mem_nil⟩, open_⟩
  | cons file files ih =>
    rw [List.zipIdx_cons] at listed
    refine Spec.bind (spec_backUpTarget request (listed (file, index) List.mem_cons_self))
      fun entry => Spec.of_fact ?_
    rintro ⟨rfl, checked⟩
    refine Spec.bind (ih (index + 1) fun item later => listed item (List.mem_cons_of_mem _ later))
      fun entries => Spec.of_fact ?_
    rintro ⟨rfl, rest⟩
    exact Spec.pure fun _ _ open_ => ⟨⟨rfl, List.forall_mem_cons.mpr ⟨checked, rest⟩⟩, open_⟩

/-! ## The journal -/

theorem opened_journal (opened : Opened tree) (node : Option Node) :
    Opened (Function.update tree journalPath node) :=
  opened.update (by decide) (by decide) node

theorem spec_writeApplyTransactionJournal {B : Assertion} (stableB : Stable B)
    (weakerB : B.Entails plan.Safe)
    (commit : ∀ tree found mark, plan.Open state outside tree found →
      mark.after.node = Function.update tree journalPath (some (plan.journalFile next)) →
        B mark.after.node (found.note mark)) :
    Spec allow (plan.Open state outside) (writeApplyTransactionJournal (plan.journal next))
      (fun _ => B) (fun _ => plan.Safe) plan.Safe :=
  Spec.replaceBytes stable_open stableB open_safe open_temporary weakerB
    (fun _ _ open_ => .inr ⟨_, open_.1.1⟩) (List.cons_ne_nil _ _) not_isTemporary_journal
    fun tree found mark open_ _ after => commit tree found mark open_ after

/-- The step that puts a journal in its place, before the commit. -/
theorem Open.write (open_ : plan.Open state outside tree found) (checked : plan.Checked)
    (begun : next ≠ .committed) {live : Tree → Prop}
    (next_ : ∀ tree, plan.Live state tree → outside tree →
      plan.Live (some next) tree ∧ ∀ other, SameOutside other tree → live other)
    (after : mark.after.node = Function.update tree journalPath (some (plan.journalFile next))) :
    plan.Open (some next) live mark.after.node (found.note mark) := by
  obtain ⟨opened, pending, here⟩ := open_
  have same : SameOutside mark.after.node tree := by
    rw [after]
    exact sameOutside_update transactionDirectory_prefix_journal _
  obtain ⟨alive, kept⟩ := next_ tree pending.live here
  refine ⟨?_, ⟨?_, pending.early.note (fun same => begun (Option.some.inj same)) ?_,
    alive.congr same, fun _ => checked⟩, kept _ same⟩
  · rw [after]
    exact opened_journal opened _
  · rw [after]
    exact pending.space.apart apart_journal _
  · rw [after, Function.update_self]
    rfl

/-! ## The directories -/

variable (plan) in
/-- The planned directories that are not in the list were made. -/
def Made (rest : List Path) (tree : Tree) : Prop :=
  ∀ directory ∈ plan.directories, directory ∉ rest → tree directory = some (.directory 0o755)

/-- The step that makes a planned directory. -/
theorem Open.make {rest : List Path} (member : path ∈ plan.directories)
    (open_ : plan.Open (some .applying) (plan.Made (path :: rest)) tree found)
    (after : mark.after.node = Function.update tree path (some (.directory 0o755))) :
    plan.Open (some .applying) (plan.Made rest) mark.after.node (found.note mark) := by
  obtain ⟨opened, pending, made⟩ := open_
  have apart := apart_of_outside (directory_outside member)
  refine ⟨?_, ⟨?_, pending.early.same ?_, ?_, pending.checked⟩, ?_⟩
  · rw [after]
    exact opened.update apart.1 apart.2.1 _
  · rw [after]
    exact pending.space.apart apart _
  · rw [after]
    refine Function.update_of_ne ?_ _ _
    rintro same
    exact directory_outside member (same ▸ transactionDirectory_prefix_journal)
  · rw [after]
    exact Doing.put_directory pending.live.doing member (.inr rfl)
  · intro other listed later
    rw [after]
    by_cases same : other = path
    · rw [same, Function.update_self]
    · rw [Function.update_of_ne same]
      exact made other listed fun here => (List.mem_cons.mp here).elim same later

theorem spec_createPlannedApplyTransactionDirectories :
    Spec allow (plan.Open (some .applying) fun _ => True)
      (createPlannedApplyTransactionDirectories (plan.directories.map posix))
      (fun _ => plan.Open (some .applying) (plan.Made [])) (fun _ => plan.Safe) plan.Safe := by
  unfold createPlannedApplyTransactionDirectories
  rw [Prog.forEach_map]
  refine (Spec.forEach (I := fun rest => plan.Open (some .applying) (plan.Made rest))
    plan.directories fun path rest suffix => ?_).pre fun tree found open_ =>
      ⟨open_.1, open_.2.1, fun other listed later => absurd listed later⟩
  have member : path ∈ plan.directories := suffix.subset List.mem_cons_self
  rw [pathParts_directory member]
  refine Spec.bind open_look fun _ => ?_
  refine Spec.bind (B := fun _ => plan.Open (some .applying) (plan.Made rest))
    (Spec.change stable_open open_safe fun checkout mark found choice res open_ done => ?_)
    fun _ => Spec.syncDirectory stable_open open_safe
  exact open_.make member (act_mkdir done).2.2.2

/-! ## The targets -/

variable (plan) in
/-- The directories were made, and the targets that are not in the list are as planned. -/
def Applied (rest : List (Path × Option Bytes)) (tree : Tree) : Prop :=
  plan.Made [] tree ∧ ∀ file ∈ plan.files, file ∉ rest → tree file.1 = plan.goal file

/-- The step that makes a target what it is to become. -/
theorem Open.apply (member : file ∈ plan.files) (checked : plan.Checked)
    (apart : file.1 ∉ plan.directories)
    (open_ : plan.Open (some .applying) (plan.Applied (file :: rest)) tree found)
    (after : mark.after.node = Function.update tree file.1 (plan.goal file)) :
    plan.Open (some .applying) (plan.Applied rest) mark.after.node (found.note mark) := by
  obtain ⟨opened, pending, made, applied⟩ := open_
  have outside := (targets_of_mem member).sanctioned.2.2
  have elsewhere := apart_of_outside outside
  refine ⟨?_, ⟨?_, pending.early.same ?_, ?_, pending.checked⟩, ?_, ?_⟩
  · rw [after]
    exact opened.update elsewhere.1 elsewhere.2.1 _
  · rw [after]
    exact pending.space.apart elsewhere _
  · rw [after]
    refine Function.update_of_ne ?_ _ _
    rintro same
    exact outside (same ▸ transactionDirectory_prefix_journal)
  · rw [after]
    exact Doing.put_target pending.live.doing member
      (.inr ⟨apart, rfl, not_directory_of_readable (checked.target file member)⟩)
  · intro directory listed later
    rw [after, Function.update_of_ne (ne_of_mem_of_not_mem listed apart)]
    exact made directory listed later
  · intro other listed later
    rw [after]
    by_cases same : other.1 = file.1
    · rw [same, Function.update_self, eq_of_mem listed member same]
    · rw [Function.update_of_ne same]
      refine applied other listed fun here => ?_
      exact (List.mem_cons.mp here).elim (fun equal => same (congrArg Prod.fst equal)) later

/-- Once the directories were made the target lies in one. -/
theorem Open.target_parent (member : file ∈ plan.files) (written : file.2.isSome = true)
    (open_ : plan.Open (some .applying) (plan.Applied rest) tree found) :
    tree.IsDirectory file.1.dropLast := by
  obtain ⟨-, pending, made, -⟩ := open_
  rcases plan.planned.enough file member written _ List.prefix_rfl with there | planned
  · exact pending.live.doing.parent there
  · exact .inr ⟨_, made _ planned List.not_mem_nil⟩

theorem spec_applyTarget (member : item.1 ∈ plan.files) (checked : plan.Checked) :
    Spec allow (plan.Open (some .applying) (plan.Applied (item.1 :: rest)))
      (applyTarget host (plan.entry item) item.1.1 item.1.2)
      (fun _ => plan.Open (some .applying) (plan.Applied rest)) (fun _ => plan.Safe)
      plan.Safe := by
  have target := targets_of_mem member
  refine Spec.bind (B := fun _ tree found => item.1.1 ∉ plan.directories ∧
    plan.Open (some .applying) (plan.Applied (item.1 :: rest)) tree found)
    (Spec.look stable_open open_safe ?_) fun _ => Spec.of_fact fun apart => ?_
  · intro checkout found _ open_ read
    refine ⟨fun listed => ?_, open_⟩
    exact ensureSafeApplyTarget_eq_ok_iff.mp read _ (open_.2.2.1 _ listed List.not_mem_nil)
  refine Spec.bind open_look fun _ => ?_
  obtain ⟨⟨target_, raw⟩, index⟩ := item
  cases raw with
  | none =>
    refine Spec.bind (B := fun _ => plan.Open (some .applying) (plan.Applied rest))
      (Spec.change stable_open open_safe fun checkout mark found choice res open_ done => ?_)
      fun _ => Spec.syncDirectory stable_open open_safe
    obtain ⟨-, -, -, after⟩ := act_unlink done
    exact open_.apply member checked apart after
  | some raw =>
    exact Spec.replaceBytes stable_open stable_open open_safe open_temporary open_safe
      (fun _ _ open_ => open_.target_parent member rfl) target.sanctioned.1 target.plain
      fun _ _ _ open_ _ after => open_.apply member checked apart after

theorem zip_entries (entry : Item → Entry) (files : List (Path × Option Bytes)) (index : Nat) :
    ((files.zipIdx index).map entry).zip files =
      (files.zipIdx index).map fun item => (entry item, item.1) := by
  induction files generalizing index with
  | nil => rfl
  | cons file files ih => rw [List.zipIdx_cons, List.map_cons, List.map_cons, List.zip_cons_cons, ih]

theorem spec_applyTargets (checked : plan.Checked) :
    Spec allow (plan.Open (some .applying) (plan.Made []))
      (Prog.forEach (plan.entries.zip plan.files) fun (entry, target, raw) =>
        applyTarget host entry target raw)
      (fun _ => plan.Open (some .applying) (plan.Applied [])) (fun _ => plan.Safe)
      plan.Safe := by
  rw [entries, zip_entries, Prog.forEach_map]
  refine (Spec.forEach (I := fun (rest : List Item) =>
    plan.Open (some .applying) (plan.Applied (rest.map Prod.fst))) plan.files.zipIdx
    fun item rest suffix => ?_).pre fun tree found open_ =>
      ⟨open_.1, open_.2.1, open_.2.2, fun file listed later => absurd ?_ later⟩
  · exact spec_applyTarget (mem_of_mem_zipIdx (suffix.subset List.mem_cons_self)) checked
  · rw [List.zipIdx_map_fst]
    exact listed

/-! ## The commit and the whole -/

/-- The step that commits. -/
theorem Open.commit (open_ : plan.Open (some .applying) (plan.Applied []) tree found)
    (after : mark.after.node =
      Function.update tree journalPath (some (plan.journalFile .committed))) :
    plan.Settled mark.after.node (found.note mark) := by
  obtain ⟨-, pending, -, applied⟩ := open_
  have here : mark.after.node journalPath = some (plan.journalFile .committed) := by
    rw [after, Function.update_self]
  have same : SameOutside mark.after.node tree := by
    rw [after]
    exact sameOutside_update transactionDirectory_prefix_journal _
  refine ⟨?_, ⟨pending.early.original, ?_, .inr here⟩, Done.congr ⟨pending.live.doing,
    fun file member => applied file member List.not_mem_nil⟩ same⟩
  · rw [after]
    exact pending.space.apart apart_journal _
  · show (found.committed || mark.after.committed) = true
    rw [(committed_journal here).mpr rfl, Bool.or_true]

variable (plan) in
/-- Everything is as planned and the transaction directory is gone. -/
def Finished (tree : Tree) (found : Progress) : Prop :=
  plan.Settled tree found ∧ tree transactionDirectory = none ∧ tree journalPath = none

theorem Finished.cleared (finished : plan.Finished tree found) : plan.Cleared tree found :=
  ⟨.inr finished.1, finished.2⟩

theorem stable_finished : Stable plan.Finished := fun tree found mark finished agree =>
  ⟨stable_settled tree found mark finished.1 agree, finished.2⟩

variable (plan) in
/-- **The installation, from the first backup to the end.** -/
theorem spec_applyFiles (request : Request) :
    Spec allow (plan.Open none fun _ => True)
      (applyFiles host request plan.files plan.directories) (fun _ => plan.Finished)
      (fun _ => plan.Safe) plan.Safe := by
  refine Spec.bind (spec_backUpTargets request plan.files 0 fun _ listed => listed) fun entries =>
    Spec.of_fact ?_
  rintro ⟨rfl, each⟩
  have checked := checked_of_each each
  refine Spec.bind (B := fun _ => plan.Open (some .prepared) fun _ => True)
    (spec_writeApplyTransactionJournal stable_open open_safe fun tree found mark open_ after => ?_)
    fun _ => ?_
  · refine open_.write checked (by decide) ?_ after
    exact fun tree live _ => ⟨live, fun _ _ => trivial⟩
  refine Spec.bind (B := fun _ => plan.Open (some .applying) fun _ => True)
    (spec_writeApplyTransactionJournal stable_open open_safe fun tree found mark open_ after => ?_)
    fun _ => ?_
  · refine open_.write checked (by decide) ?_ after
    exact fun tree live _ => ⟨live.doing, fun _ _ => trivial⟩
  refine Spec.bind spec_createPlannedApplyTransactionDirectories fun _ => ?_
  refine Spec.bind (spec_applyTargets checked) fun _ => ?_
  refine Spec.bind (B := fun _ => plan.Open (some .applying) (plan.Applied [])) ?_ fun _ => ?_
  · cases request.postInstallCheck with
    | none => exact Spec.pure fun _ _ open_ => open_
    | some check => exact open_look
  refine Spec.bind open_look fun _ => ?_
  refine Spec.bind (B := fun _ => plan.Settled) (spec_writeApplyTransactionJournal
    stable_settled (fun _ _ settled => .inr settled) fun _ _ _ open_ after => open_.commit after)
    fun _ => ?_
  exact (Spec.removeApplyTransactionDirectory stable_settled
    (fun _ _ _ _ settled inside after => settled.remove inside after)
    fun _ _ settled => .inr settled).post_checkout fun _ _ _ said =>
      ⟨said.1, said.2, journal_missing said.2⟩

/-! ## The transaction directory is made -/

end Plan

/-- No error of a transaction. -/
def ApplyError.Plain (error : ApplyError) : Prop :=
  ∀ cause recovery, error ≠ .transactionFailed cause recovery

theorem plain_os (error : OsError) (path : Path) : ApplyError.Plain (.os error path) := nofun

theorem plain_runtime (detail : String) (path : Option Path) :
    ApplyError.Plain (.runtime detail path) := nofun

theorem plain_injected : ApplyError.Plain .injected := nofun

theorem plain_require {condition : Bool} {detail : String} {path : Option Path}
    (failed : require condition (.runtime detail path) = .error error) : error.Plain := by
  unfold require at failed
  split at failed
  · cases failed
  · cases failed
    exact plain_runtime detail path

theorem plain_mkdir {path : Path}
    (failed : fileAct (.mkdir path mode) choice checkout = .error error) :
    error.Plain := by
  cases made : checkout.mkdir path mode with
  | ok after => rw [fileAct, made] at failed; cases failed
  | error inner =>
    rw [fileAct, made] at failed
    cases failed
    unfold Checkout.mkdir Checkout.putOr at made
    split_ifs at made <;> cases made <;> exact plain_os _ _

theorem plain_fsyncDirectory {path : Path}
    (failed : fileAct (.fsyncDirectory path) choice checkout = .error error) :
    error.Plain := by
  rw [act_fsyncDirectory] at failed
  split_ifs at failed
  cases failed
  exact plain_os _ _

theorem plain_requirePrivateOwnedDirectory {path : Path} {label : String}
    (failed : requirePrivateOwnedDirectory path label checkout = .error error) :
    error.Plain := by
  unfold requirePrivateOwnedDirectory at failed
  split at failed
  · cases failed; exact plain_runtime _ _
  · cases failed; exact plain_runtime _ _
  · cases failed; exact plain_runtime _ _
  · exact plain_require failed

namespace Plan

variable {host : Host} {plan : Plan host} {tree : Tree} {found : Progress}
  {allow : Event FileChoice → Prop} {A : Assertion}

variable (plan) in
/-- Before a target was looked at, with so much of the transaction directory made. -/
def Begun (L : Tree → Prop) (tree : Tree) (found : Progress) : Prop :=
  L tree ∧ plan.Pending none tree found

variable {L : Tree → Prop}

theorem stable_begun : Stable (plan.Begun L) := stable_and stable_pending

theorem begun_safe (tree : Tree) (found : Progress) (begun : plan.Begun L tree found) :
    plan.Safe tree found := .inl ⟨none, begun.2⟩

/-- A directory is made inside the transaction directory. -/
theorem Begun.make {L' : Tree → Prop} {path : Path} {mark : Mark fileMachine}
    (begun : plan.Begun L tree found) (inside : transactionDirectory <+: path)
    (apart : journalPath ≠ path)
    (space : plan.Space tree → plan.Space (Function.update tree path (some (.directory 0o700))))
    (next : L tree → L' (Function.update tree path (some (.directory 0o700))))
    (after : mark.after.node = Function.update tree path (some (.directory 0o700))) :
    plan.Begun L' mark.after.node (found.note mark) := by
  obtain ⟨here, pending⟩ := begun
  refine ⟨?_, ?_, pending.early.same ?_, ?_, absurd rfl⟩
  · rw [after]
    exact next here
  · rw [after]
    exact space pending.space
  · rw [after, Function.update_of_ne apart]
  · rw [after]
    exact pending.live.congr (sameOutside_update inside _)

variable (plan) in
theorem spec_makeTransactionDirectories :
    Spec allow (plan.Begun fun _ => True) makeTransactionDirectories
      (fun _ => plan.Open none fun _ => True)
      (fun error tree found => error.Plain ∧ plan.Safe tree found) plan.Safe := by
  have sync : ∀ (L : Tree → Prop) (path : Path), Spec allow (plan.Begun L) (fsyncDirectory path)
      (fun _ => plan.Begun L) (fun error tree found => error.Plain ∧ plan.Safe tree found)
      plan.Safe := fun L path =>
    Spec.changeAs stable_begun begun_safe plain_injected (fun _ _ _ => plain_fsyncDirectory)
      fun checkout mark found choice res begun done => by
        have kept := stable_begun _ _ mark begun (act_fsyncDirectory_same done ▸ Agree.refl _)
        rwa [act_fsyncDirectory_same done] at kept
  have look : ∀ (L : Tree → Prop) (what : String) (path : Path) (label : String),
      Spec allow (plan.Begun L) (reading what (requirePrivateOwnedDirectory path label))
        (fun _ => plan.Begun L) (fun error tree found => error.Plain ∧ plan.Safe tree found)
        plan.Safe := fun L what path label =>
    Spec.lookAs stable_begun begun_safe plain_injected
      (fun _ _ => plain_requirePrivateOwnedDirectory) fun _ _ _ begun _ => begun
  refine Spec.bind (B := fun _ => plan.Begun fun tree =>
    tree transactionDirectory = some (.directory 0o700)) (Spec.changeAs stable_begun begun_safe
    plain_injected (fun _ _ _ => plain_mkdir) ?_) fun _ => ?_
  · intro checkout mark found choice res begun done
    exact begun.make List.prefix_rfl (by decide) Space.make_root
      (fun _ => Function.update_self ..) (act_mkdir done).2.2.2
  refine Spec.bind (sync _ _) fun _ => Spec.bind (look _ _ _ _) fun _ => ?_
  refine Spec.bind (B := fun _ => plan.Begun Opened) (Spec.changeAs stable_begun begun_safe
    plain_injected (fun _ _ _ => plain_mkdir) ?_) fun _ => ?_
  · intro checkout mark found choice res begun done
    refine begun.make transactionDirectory_prefix_backups (by decide) Space.make_backups
      (fun root => ⟨?_, Function.update_self ..⟩) (act_mkdir done).2.2.2
    rw [Function.update_of_ne (by decide), root]
  refine Spec.bind (sync _ _) fun _ => (look _ _ _ _).post ?_
  exact fun _ _ _ begun => ⟨begun.1, begun.2, trivial⟩

/-! ## The handler -/

variable (plan) in
/-- What an error of the transaction means: unless it names a failed recovery, the
transaction is done with. -/
def Raised (error : ApplyError) (tree : Tree) (found : Progress) : Prop :=
  plan.Safe tree found ∧ ∀ cause, error = .transactionFailed cause none → plan.Cleared tree found

theorem raised_of_plain (plain : error.Plain) (safe : plan.Safe tree found) :
    plan.Raised error tree found :=
  ⟨safe, fun cause same => absurd same (plain cause none)⟩

theorem stable_raised : Stable (plan.Raised error) :=
  fun tree found mark raised agree => ⟨stable_safe tree found mark raised.1 agree,
    fun cause same => stable_cleared tree found mark (raised.2 cause same) agree⟩

variable (plan) in
theorem spec_failApply (apart : plan.Collisionless) (error : ApplyError) :
    Spec allow plan.Safe (failApply host error) (fun _ => plan.Finished) plan.Raised
      plan.Safe := by
  refine Spec.bind (B := fun recovery tree found => plan.Safe tree found ∧
    (recovery = none → plan.Cleared tree found)) ?_ fun recovery => Spec.raise ?_
  · refine Spec.tryCatch (F := fun _ => plan.Safe) ?_ fun recovery =>
      Spec.pure fun _ _ safe => ⟨safe, fun none_ => absurd none_ (Option.some_ne_none _)⟩
    refine Spec.bind (Spec.look (B := fun interrupted tree found => plan.Safe tree found ∧
      interrupted = (tree transactionDirectory).isSome) stable_safe (fun _ _ safe => safe)
      fun _ _ _ safe read => ⟨safe, (Except.ok.inj read).symm⟩) fun interrupted => ?_
    cases interrupted with
    | true =>
      refine Spec.bind ((spec_recoverApplyTransactionLocked apart).pre fun _ _ said => said.1)
        fun _ => Spec.pure fun _ _ cleared => ⟨cleared.safe, fun _ => cleared⟩
    | false =>
      refine Spec.post_checkout (B := fun _ tree found => plan.Safe tree found ∧
        false = (tree transactionDirectory).isSome) (Spec.pure fun _ _ said => said)
        fun _ checkout found said => ⟨said.1, fun _ => ?_⟩
      have gone := Option.isNone_iff_eq_none.mp (Option.isSome_eq_false_iff.mp said.2.symm)
      exact ⟨said.1.leaving (journal_missing gone), gone, journal_missing gone⟩
  · rintro tree found ⟨safe, cleared⟩
    refine ⟨safe, fun cause same => cleared ?_⟩
    injection same

variable (plan) in
/-- **What is done once the transaction is planned.** -/
theorem spec_transaction (apart : plan.Collisionless) (request : Request) :
    Spec allow (plan.Begun fun _ => True)
      (do
        makeTransactionDirectories
        Prog.tryCatch (applyFiles host request plan.files plan.directories) (failApply host))
      (fun _ => plan.Finished) plan.Raised plan.Safe := by
  refine Spec.bind ((spec_makeTransactionDirectories plan).mono (fun _ _ h => h)
    (fun _ _ _ h => h) (fun _ _ _ h => raised_of_plain h.1 h.2) fun _ _ h => h) fun _ => ?_
  exact Spec.tryCatch (spec_applyFiles plan request) (spec_failApply plan apart)

end Plan

end AxiomEncode.Apply
