/-
# Apply.Recovery -- an interrupted transaction is taken back or finished

`Safe` is the invariant with temporary files allowed: it holds wherever a process was
killed or a step failed.  Recovery keeps it, and an answer of a recovery leaves the
tree `Cleared`: the transaction directory is gone, and the tree outside is as it was
or, once the journal was committed, as planned.
-/
import AxiomEncode.Apply.Readings

namespace AxiomEncode.Apply

open Theory Crash

set_option autoImplicit false

namespace Plan

variable {host : Host} {plan : Plan host} {tree : Tree} {found : Progress} {path : Path}
  {state : JournalState} {mark : Mark fileMachine}

/-! ## What a recovery keeps and leaves -/

variable (plan) in
/-- Nothing in the transaction directory is needed any more. -/
def Leaving (tree : Tree) (found : Progress) : Prop :=
  (∃ state, plan.Pending state tree found ∧ plan.Undone tree) ∨
    plan.Settled tree found

variable (plan) in
/-- The transaction directory is gone. -/
def Cleared (tree : Tree) (found : Progress) : Prop :=
  plan.Leaving tree found ∧ tree transactionDirectory = none ∧ tree journalPath = none

theorem Leaving.safe (leaving : plan.Leaving tree found) : plan.Safe tree found :=
  leaving.imp_left fun ⟨state, pending, _⟩ => ⟨state, pending⟩

theorem Cleared.safe (cleared : plan.Cleared tree found) : plan.Safe tree found := cleared.1.safe

theorem stable_safe : Stable plan.Safe := fun tree found mark safe agree =>
  safe.imp (fun ⟨state, pending⟩ => ⟨state, stable_pending tree found mark pending agree⟩)
    fun settled => stable_settled tree found mark settled agree

theorem stable_leaving : Stable plan.Leaving := fun tree found mark leaving agree =>
  leaving.imp (fun ⟨state, pending, undone⟩ =>
    ⟨state, stable_pending tree found mark pending agree, undone⟩)
    fun settled => stable_settled tree found mark settled agree

theorem stable_cleared : Stable plan.Cleared := fun tree found mark cleared agree =>
  ⟨stable_leaving tree found mark cleared.1 agree, cleared.2⟩

theorem Safe.root (safe : plan.Safe tree found) :
    tree transactionDirectory = none ∨ tree transactionDirectory = some (.directory 0o700) := by
  rcases safe with ⟨_, pending⟩ | settled
  · exact pending.space.root
  · exact settled.space.root

/-- Without a journal nothing was done, or it is all done. -/
theorem Safe.leaving (safe : plan.Safe tree found) (missing : tree journalPath = none) :
    plan.Leaving tree found := by
  refine safe.imp_left fun ⟨state, pending⟩ => ⟨state, pending, pending.live.undone ?_⟩
  rintro rfl
  have here := pending.early.journal
  rw [missing] at here
  cases here

theorem journal_missing {checkout : Checkout}
    (gone : checkout.node transactionDirectory = none) : checkout.node journalPath = none :=
  Checkout.node_inside gone transactionDirectory_prefix_journal

/-- A node of the transaction directory is removed. -/
theorem Settled.remove (settled : plan.Settled tree found)
    (inside : transactionDirectory <+: path)
    (after : mark.after.node = Function.update tree path none) :
    plan.Settled mark.after.node (found.note mark) := by
  have late : plan.Late tree (found.note mark) := settled.late.note
  rw [after]
  refine ⟨settled.space.remove, { late with journal := ?_ },
    settled.done.congr (sameOutside_update inside none)⟩
  by_cases journal : journalPath = path
  · exact .inl (by rw [← journal, Function.update_self])
  · rw [Function.update_of_ne journal]
    exact late.journal

theorem Leaving.remove (leaving : plan.Leaving tree found) (inside : transactionDirectory <+: path)
    (after : mark.after.node = Function.update tree path none) :
    plan.Leaving mark.after.node (found.note mark) := by
  rcases leaving with ⟨state, pending, undone⟩ | settled
  · have live : plan.Undone mark.after.node := by
      rw [after]
      exact undone.congr (sameOutside_update inside none)
    have space : plan.Space mark.after.node := by
      rw [after]
      exact pending.space.remove
    by_cases journal : journalPath = path
    · refine .inl ⟨none, ⟨space, pending.early.note nofun ?_, .of_undone live, absurd rfl⟩, live⟩
      rw [after, journal, Function.update_self]
      rfl
    · refine .inl ⟨state, ⟨space, pending.early.same ?_, .of_undone live, pending.checked⟩, live⟩
      rw [after, Function.update_of_ne journal]
  · exact .inr (settled.remove inside after)

theorem safe_of_withTemporary {directory : Path} {A : Assertion}
    (here : WithTemporary directory A tree found)
    (pending : ∀ tree found, A tree found → ∃ state, plan.Pending state tree found) :
    plan.Safe tree found := by
  obtain ⟨base, path, raw, mode, said, free, temporary, inside, same⟩ := here
  obtain ⟨state, pending⟩ := pending base found said
  exact .inl ⟨state, pending_of_withTemporary
    ⟨base, path, raw, mode, pending, free, temporary, inside, same⟩⟩

variable {allow : Event FileChoice → Prop}

variable (plan) in
theorem spec_removeApplyTransactionDirectory :
    Spec allow plan.Leaving removeApplyTransactionDirectory (fun _ => plan.Cleared)
      (fun _ => plan.Safe) plan.Safe :=
  (Spec.removeApplyTransactionDirectory stable_leaving
    (fun _ _ _ _ leaving inside after => leaving.remove inside after)
    fun _ _ leaving => leaving.safe).post_checkout fun _ _ _ said =>
      ⟨said.1, said.2, journal_missing said.2⟩

/-! ## Putting the targets back -/

variable (plan) in
/-- The targets that are not in the list are as they were. -/
def Restoring (rest : List Item) (tree : Tree) (found : Progress) : Prop :=
  plan.Pending (some .applying) tree found ∧
    ∀ item ∈ plan.files.zipIdx, item ∉ rest → tree item.1.1 = plan.original.node item.1.1

variable {rest : List Item} {item : Item}

theorem Restoring.safe (restoring : plan.Restoring rest tree found) :
    plan.Safe tree found := .inl ⟨_, restoring.1⟩

theorem stable_restoring (rest : List Item) : Stable (plan.Restoring rest) :=
  fun tree found mark restoring agree =>
    ⟨stable_pending tree found mark restoring.1 agree, restoring.2⟩

theorem mem_of_mem_zipIdx (member : item ∈ plan.files.zipIdx) :
    item.1 ∈ plan.files := List.fst_mem_of_mem_zipIdx member

/-- The step that puts a target back. -/
theorem Restoring.put (member : item ∈ plan.files.zipIdx)
    (restoring : plan.Restoring (item :: rest) tree found)
    (after : mark.after.node = Function.update tree item.1.1 (plan.original.node item.1.1)) :
    plan.Restoring rest mark.after.node (found.note mark) := by
  obtain ⟨pending, others⟩ := restoring
  have target := targets_of_mem (mem_of_mem_zipIdx member)
  have outside := target.sanctioned.2.2
  refine ⟨⟨?_, pending.early.same ?_, ?_, pending.checked⟩, ?_⟩
  · rw [after]
    exact pending.space.apart (apart_of_outside outside) _
  · rw [after]
    refine Function.update_of_ne ?_ _ _
    rintro same
    exact outside (same ▸ transactionDirectory_prefix_journal)
  · rw [after]
    exact pending.live.doing.put_target (mem_of_mem_zipIdx member) (.inl rfl)
  · intro other listed later
    rw [after]
    by_cases same : other.1.1 = item.1.1
    · rw [same, Function.update_self]
    · rw [Function.update_of_ne same]
      refine others other listed fun here => ?_
      cases here with
      | head => exact same rfl
      | tail _ here => exact later here

/-- A directory of the original tree is still there. -/
theorem Doing.parent (doing : plan.Doing tree)
    (directory : plan.original.isDirectory path = true) : tree.IsDirectory path :=
  (Checkout.isDirectory_iff.mp directory).imp_right fun ⟨mode, here⟩ =>
    ⟨mode, doing.directories path mode here⟩

theorem restoring_safe (rest : List Item) (tree : Tree) (found : Progress)
    (restoring : plan.Restoring rest tree found) : plan.Safe tree found := restoring.safe

theorem spec_writeBack (member : item ∈ plan.files.zipIdx) :
    Spec allow (plan.Restoring (item :: rest)) (writeBack (plan.restores item) item.1.1)
      (fun _ => plan.Restoring rest) (fun _ => plan.Safe) plan.Safe := by
  have listed := mem_of_mem_zipIdx member
  have stable := @stable_restoring host plan
  have weaker := @restoring_safe host plan
  refine (Spec.of_fact (φ := plan.Checked) fun checked => ?_).pre fun _ _ restoring =>
    ⟨restoring.1.checked nofun, restoring⟩
  unfold writeBack
  rcases checked.target _ listed with missing | ⟨raw, mode, file, -⟩
  · have absent : (plan.restores item).entry.existed = false := by
      show (plan.old item.1.1).isSome = false
      rw [old_of_missing missing]
      rfl
    rw [absent]
    refine Spec.bind (B := fun _ => plan.Restoring rest) (Spec.change (stable _) (weaker _)
      fun checkout mark found choice res restoring done => ?_) fun _ =>
        Spec.syncDirectory (stable _) (weaker _)
    obtain ⟨-, -, -, same⟩ := act_unlink done
    exact restoring.put member (missing ▸ same)
  · have existed : (plan.restores item).entry.existed = true := by
      show (plan.old item.1.1).isSome = true
      rw [old_of_file file]
      rfl
    have backup : (plan.restores item).raw = some raw := by
      show (plan.old item.1.1).map Snapshot.raw = some raw
      rw [old_of_file file]
      rfl
    have sameMode : (plan.restores item).entry.mode = mode := mode_of_file file
    rw [existed, backup, sameMode]
    refine Spec.replaceBytes (stable _) (stable _) (weaker _) ?_ (weaker _) ?_
      (targets_of_mem listed).sanctioned.1 (targets_of_mem listed).plain ?_
    · exact fun tree found here => safe_of_withTemporary here fun _ _ said => ⟨_, said.1⟩
    · exact fun tree found said => said.1.live.doing.parent (Checkout.isDirectory_dropLast file)
    · exact fun tree found mark restoring _ same => restoring.put member (file ▸ same)

theorem spec_restoreTarget (member : item ∈ plan.files.zipIdx) :
    Spec allow (plan.Restoring (item :: rest)) (restoreTarget host (plan.restores item))
      (fun _ => plan.Restoring rest) (fun _ => plan.Safe) plan.Safe := by
  have look : ∀ (rest : List Item) (what : String) (read : Checkout → Except ApplyError Unit),
      Spec allow (plan.Restoring rest) (reading what read) (fun _ => plan.Restoring rest)
        (fun _ => plan.Safe) plan.Safe :=
    fun rest _ _ => Spec.look (stable_restoring rest) (restoring_safe rest) fun _ _ _ said _ => said
  unfold restoreTarget
  rw [show pathParts (plan.restores item).entry.path = item.1.1 from
    pathParts_entry (mem_of_mem_zipIdx member)]
  exact Spec.bind (look _ _ _) fun _ => Spec.bind (look _ _ _) fun _ =>
    Spec.bind (spec_writeBack member) fun _ => look _ _ _

/-! ## Removing the directories -/

variable (plan) in
/-- The targets are as they were, and of the directories that were to be made at most
those in the list are left. -/
def Emptying (state : JournalState) (rest : List Path) (tree : Tree) (found : Progress) : Prop :=
  plan.Pending (some state) tree found ∧
    (∀ file ∈ plan.files, tree file.1 = plan.original.node file.1) ∧
    ∀ directory ∈ plan.directories, directory ∉ rest → tree directory = none

theorem Emptying.safe {rest : List Path} (emptying : plan.Emptying state rest tree found) :
    plan.Safe tree found := .inl ⟨_, emptying.1⟩

theorem Emptying.leaving (emptying : plan.Emptying state [] tree found) :
    plan.Leaving tree found :=
  .inl ⟨_, emptying.1, emptying.1.live.doing.undone emptying.2.1 fun directory member =>
    emptying.2.2 directory member List.not_mem_nil⟩

theorem stable_emptying (rest : List Path) : Stable (plan.Emptying state rest) :=
  fun tree found mark emptying agree =>
    ⟨stable_pending tree found mark emptying.1 agree, emptying.2⟩

theorem Live.remove_directory {state : Option JournalState} (live : plan.Live state tree)
    (member : path ∈ plan.directories) :
    plan.Live state (Function.update tree path none) := by
  unfold Live at *
  split at live
  · exact live.put_directory member (.inl rfl)
  · intro other outside
    by_cases same : other = path
    · rw [same]
      exact .inl ((Function.update_self ..).trans (plan.planned.absent path member).2.symm)
    · exact (live other outside).congr (Function.update_of_ne same _ _)

/-- The step that removes a directory. -/
theorem Emptying.remove {rest : List Path} (member : path ∈ plan.directories)
    (emptying : plan.Emptying state (path :: rest) tree found) {mode : Nat}
    (here : tree path = some (.directory mode))
    (after : mark.after.node = Function.update tree path none) :
    plan.Emptying state rest mark.after.node (found.note mark) := by
  obtain ⟨pending, targets, others⟩ := emptying
  have outside := directory_outside member
  refine ⟨⟨?_, pending.early.same ?_, ?_, pending.checked⟩, ?_, ?_⟩
  · rw [after]
    exact pending.space.apart (apart_of_outside outside) _
  · rw [after]
    refine Function.update_of_ne ?_ _ _
    rintro same
    exact outside (same ▸ transactionDirectory_prefix_journal)
  · rw [after]
    exact pending.live.remove_directory member
  · intro file listed
    rw [after, Function.update_of_ne, targets file listed]
    rintro same
    have original := targets file listed
    rw [same, here, (plan.planned.absent path member).2] at original
    cases original
  · intro other listed later
    rw [after]
    by_cases same : other = path
    · rw [same, Function.update_self]
    · rw [Function.update_of_ne same]
      refine others other listed fun inside => ?_
      cases inside with
      | head => exact same rfl
      | tail _ inside => exact later inside

theorem spec_removePlannedDirectory {rest : List Path} (member : path ∈ plan.directories) :
    Spec allow (plan.Emptying state (path :: rest)) (removePlannedDirectory path)
      (fun _ => plan.Emptying state rest) (fun _ => plan.Safe) plan.Safe := by
  have stable := @stable_emptying host plan state
  have weaker : ∀ (rest : List Path) tree found, plan.Emptying state rest tree found →
      plan.Safe tree found := fun _ _ _ emptying => emptying.safe
  refine Spec.bind (B := fun there tree found => plan.Emptying state (path :: rest) tree found ∧
    (there = false → tree path = none)) (Spec.look (stable _) (weaker _) ?_) fun there => ?_
  · intro checkout found there emptying read
    refine ⟨emptying, ?_⟩
    rintro rfl
    split at read
    · next absent => exact absent
    · cases read
    · cases read
  · cases there with
    | true =>
      refine Spec.bind (B := fun _ => plan.Emptying state rest) ?_ fun _ =>
        Spec.syncDirectory (stable _) (weaker _)
      refine Spec.tryCatch (F := fun _ => plan.Safe) (Spec.change (A := plan.Emptying state
        (path :: rest)) (stable _) (weaker _) ?_ |>.pre fun _ _ said => said.1) fun error => ?_
      · intro checkout mark found choice res emptying done
        obtain ⟨⟨mode, here⟩, same⟩ := act_rmdir done
        exact emptying.remove member here same
      · cases error <;> exact Spec.raise fun _ _ safe => safe
    | false =>
      refine Spec.pure fun tree found said => ⟨said.1.1, said.1.2.1, fun other listed later => ?_⟩
      by_cases same : other = path
      · exact same ▸ said.2 rfl
      · refine said.1.2.2 other listed fun inside => ?_
        cases inside with
        | head => exact same rfl
        | tail _ inside => exact later inside

theorem spec_removePlannedApplyTransactionDirectories :
    Spec allow (plan.Emptying state plan.directories)
      (removePlannedApplyTransactionDirectories (plan.directories.map posix))
      (fun _ => plan.Emptying state []) (fun _ => plan.Safe) plan.Safe := by
  unfold removePlannedApplyTransactionDirectories
  rw [← List.map_reverse, Prog.forEach_map]
  refine (Spec.forEach (I := plan.Emptying state) plan.directories.reverse
    fun path rest suffix => ?_).pre fun tree found said => ⟨said.1, said.2.1, fun other listed later =>
      said.2.2 other listed (later ∘ List.mem_reverse.mpr)⟩
  have member : path ∈ plan.directories :=
    List.mem_reverse.mp (suffix.subset List.mem_cons_self)
  rw [pathParts_directory member]
  exact spec_removePlannedDirectory member

/-! ## The recovery -/

variable (plan) in
/-- Of the targets at most those in the list are not as they were. -/
def Changed (state : JournalState) (items : List Item) (tree : Tree) (found : Progress) : Prop :=
  plan.Pending (some state) tree found ∧
    ∀ item ∈ plan.files.zipIdx, item ∉ items → tree item.1.1 = plan.original.node item.1.1

theorem stable_changed (items : List Item) : Stable (plan.Changed state items) :=
  fun tree found mark changed agree =>
    ⟨stable_pending tree found mark changed.1 agree, changed.2⟩

theorem changed_safe (items : List Item) (tree : Tree) (found : Progress)
    (changed : plan.Changed state items tree found) : plan.Safe tree found := .inl ⟨_, changed.1⟩

theorem Changed.emptying (changed : plan.Changed state [] tree found) :
    plan.Emptying state plan.directories tree found := by
  refine ⟨changed.1, fun file member => ?_, fun _ listed later => absurd listed later⟩
  obtain ⟨index, here⟩ := List.mem_iff_getElem?.mp member
  exact changed.2 (file, index) (List.mk_mem_zipIdx_iff_getElem?.mpr here) List.not_mem_nil

/-- The targets that have to be put back. -/
theorem spec_admitEntries (apart : plan.Collisionless) :
    Spec allow (plan.Pending (some state))
      (reading "targets" (admitEntries host state 0 plan.entries.reverse))
      (fun value tree found => ∃ items : List Item, (value.2 = items.map (plan.action none) ∧
        (∀ item ∈ items, item ∈ plan.files.zipIdx) ∧ (state = .prepared → items = [])) ∧
          plan.Changed state items tree found) (fun _ => plan.Safe) plan.Safe := by
  refine Spec.look stable_pending (fun _ _ pending => .inl ⟨_, pending⟩) ?_
  rintro checkout found ⟨total, actions⟩ pending read
  rw [entries, ← List.map_reverse] at read
  obtain ⟨same, -, idle⟩ := admitEntries_ok apart (pending.checked nofun) pending.live.doing
    (fun item member => mem_of_mem_zipIdx (List.mem_reverse.mp member)) read
  refine ⟨_, ⟨same, fun item member => ?_, idle⟩, pending, fun item listed absent => ?_⟩
  · exact List.mem_reverse.mp (List.mem_filter.mp member).1
  · rw [List.mem_filter, not_and] at absent
    exact changed_eq_false.mp (Bool.not_eq_true _ ▸ absent (List.mem_reverse.mpr listed))

/-- The rollback of a transaction whose journal says `prepared` or `applying`. -/
theorem spec_rollBack (apart : plan.Collisionless) (begun : state ≠ .committed) :
    Spec allow (plan.Pending (some state)) (rollBack host (plan.journal state))
      (fun _ => plan.Cleared) (fun _ => plan.Safe) plan.Safe := by
  refine Spec.bind (Spec.look (B := fun _ => plan.Pending (some state)) stable_pending
    (fun _ _ pending => .inl ⟨_, pending⟩) fun _ _ _ pending _ => pending) fun _ => ?_
  refine Spec.bind (spec_admitEntries apart) fun value => Spec.of_exists fun items =>
    Spec.of_fact ?_
  rintro ⟨same, listed, idle⟩
  obtain ⟨recoveryBytes, _⟩ := value
  subst same
  refine Spec.bind (Spec.look (B := fun actions tree found => actions = items.map plan.restores ∧
    plan.Changed state items tree found) (stable_changed items) (changed_safe items)
    fun checkout found actions changed read =>
      ⟨materializeActions_ok changed.1.space listed read, changed⟩) fun actions =>
        Spec.of_fact fun same => ?_
  subst same
  have restored : Spec allow (plan.Changed state items)
      (Prog.forEach (items.map plan.restores) (restoreTarget host))
      (fun _ => plan.Emptying state plan.directories) (fun _ => plan.Safe) plan.Safe := by
    cases state with
    | prepared =>
      rw [idle rfl]
      exact Spec.pure fun _ _ changed => changed.emptying
    | applying =>
      rw [Prog.forEach_map]
      refine (Spec.forEach (I := plan.Restoring) items fun item rest suffix =>
        spec_restoreTarget (listed item (suffix.subset List.mem_cons_self))).post fun _ _ _ said =>
          Changed.emptying said
    | committed => exact absurd rfl begun
  refine Spec.bind restored fun _ => ?_
  refine Spec.bind spec_removePlannedApplyTransactionDirectories fun _ => ?_
  exact (spec_removeApplyTransactionDirectory plan).pre fun _ _ emptying => emptying.leaving

/-- The journal that is read is the one of the transaction, in the state it is in. -/
theorem spec_loadApplyTransactionJournal :
    Spec allow (fun tree found => plan.Safe tree found ∧ tree journalPath ≠ none)
      (reading "journal" (loadApplyTransactionJournal host))
      (fun journal tree found =>
        (journal = plan.journal .committed ∧ plan.Settled tree found) ∨
          ∃ state : JournalState, (journal = plan.journal state ∧ state ≠ .committed) ∧
            plan.Pending (some state) tree found) (fun _ => plan.Safe) plan.Safe := by
  refine Spec.look (fun tree found mark said agree =>
    ⟨stable_safe tree found mark said.1 agree, said.2⟩) (fun _ _ said => said.1) ?_
  rintro checkout found journal ⟨safe, present⟩ read
  obtain ⟨⟨raw, mode⟩, bounded, read⟩ := bind_eq_ok_iff.mp read
  have file := (readBoundedNofollowRegularFile_eq_ok_iff.mp bounded).1
  -- the bytes of a journal of the plan are read back as it
  have back : ∀ state : JournalState, checkout.node journalPath = some (plan.journalFile state) →
      journal = plan.journal state := by
    intro state here
    rw [file] at here
    cases here
    exact (readJournal_bytes.mp read).2.symm
  rcases safe with ⟨state, pending⟩ | settled
  · have here := pending.early.journal
    cases state with
    | none => exact absurd here present
    | some state =>
      exact .inr ⟨state, ⟨back state here, fun same => pending.early.begun (congrArg some same)⟩,
        pending⟩
  · exact .inl ⟨back _ (settled.late.journal.resolve_left present), settled⟩

/-- **Recovery keeps the transaction safe, and when it answers the transaction is done
with.** -/
theorem spec_recoverApplyTransactionLocked (apart : plan.Collisionless) :
    Spec allow plan.Safe (recoverApplyTransactionLocked host) (fun _ => plan.Cleared)
      (fun _ => plan.Safe) plan.Safe := by
  have look : ∀ {what : String} {read : Checkout → Except ApplyError Unit},
      Spec allow plan.Safe (reading what read) (fun _ => plan.Safe) (fun _ => plan.Safe) plan.Safe :=
    Spec.look stable_safe (fun _ _ safe => safe) fun _ _ _ safe _ => safe
  have ask : ∀ {what : String} (path : Path), Spec allow plan.Safe
      (reading what fun checkout => .ok (checkout.node path).isSome)
      (fun there tree found => plan.Safe tree found ∧ there = (tree path).isSome)
      (fun _ => plan.Safe) plan.Safe := fun path =>
    Spec.look stable_safe (fun _ _ safe => safe) fun _ _ _ safe read =>
      ⟨safe, (Except.ok.inj read).symm⟩
  refine Spec.bind (ask transactionDirectory) fun interrupted => ?_
  cases interrupted with
  | false =>
    refine Spec.post_checkout (B := fun _ tree found => plan.Safe tree found ∧
      false = (tree transactionDirectory).isSome) (Spec.pure fun _ _ said => said)
      fun _ checkout found said => ?_
    have gone := Option.isNone_iff_eq_none.mp (Option.isSome_eq_false_iff.mp said.2.symm)
    exact ⟨said.1.leaving (journal_missing gone), gone, journal_missing gone⟩
  | true =>
    refine Spec.bind (look.pre fun _ _ said => said.1) fun _ => ?_
    refine Spec.bind (ask journalPath) fun begun => ?_
    cases begun with
    | false =>
      refine (spec_removeApplyTransactionDirectory plan).pre fun tree found said => ?_
      exact said.1.leaving (Option.isNone_iff_eq_none.mp
        (Option.isSome_eq_false_iff.mp said.2.symm))
    | true =>
      refine Spec.bind (spec_loadApplyTransactionJournal.pre fun tree found said =>
        ⟨said.1, fun none_ => by rw [none_] at said; cases said.2⟩) fun journal => ?_
      refine Spec.of_or (Spec.of_fact ?_) (Spec.of_exists fun state => Spec.of_fact ?_)
      · rintro rfl
        refine Spec.bind (Spec.look (B := fun _ => plan.Settled) stable_settled
          (fun _ _ settled => .inr settled) fun _ _ _ settled _ => settled) fun _ => ?_
        exact (spec_removeApplyTransactionDirectory plan).pre fun _ _ settled => .inr settled
      · rintro ⟨rfl, begun⟩
        cases state with
        | prepared => exact spec_rollBack apart begun
        | applying => exact spec_rollBack apart begun
        | committed => exact absurd rfl begun

end Plan

end AxiomEncode.Apply
