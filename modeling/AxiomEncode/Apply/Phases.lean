/-
# Apply.Phases -- the trees a transaction goes through

Outside the transaction directory a tree is `Undone`, `Doing` or `Done`; inside it
lie the backups (`Space`) and the journal, which says which of the three it is.
`Invariant` puts the two together: it holds wherever a process can be killed.
Temporary files may lie about, as they do after a kill or a fault.
-/
import AxiomEncode.Apply.Plan

namespace AxiomEncode.Apply

open Theory Crash

set_option autoImplicit false

/-- The same nodes outside the transaction directory. -/
def SameOutside (tree other : Tree) : Prop :=
  ∀ path, ¬ transactionDirectory <+: path → tree path = other path

theorem sameOutside_update {tree : Tree} {path : Path} (inside : transactionDirectory <+: path)
    (node : Option Node) : SameOutside (Function.update tree path node) tree := by
  intro other outside
  refine Function.update_of_ne ?_ _ _
  rintro rfl
  exact outside inside

def backupPath (index : Nat) : Path := backupsDirectory ++ [backupName index]

theorem transactionDirectory_prefix_journal : transactionDirectory <+: journalPath :=
  List.prefix_append _ _

theorem transactionDirectory_prefix_backups : transactionDirectory <+: backupsDirectory :=
  List.prefix_append _ _

theorem transactionDirectory_prefix_backup (index : Nat) :
    transactionDirectory <+: backupPath index :=
  transactionDirectory_prefix_backups.trans (List.prefix_append _ _)

/-- The name of a temporary file starts with a dot. -/
theorem not_isTemporary_of_head {path : Path} {c : Char} {rest : Text}
    (last : path.getLast? = some (c :: rest)) (plain : c ≠ '.') : ¬ IsTemporary path := by
  rintro ⟨directory, stem, part, -, rfl⟩
  rw [List.getLast?_concat] at last
  exact plain (List.cons.inj (Option.some.inj last)).1.symm

theorem not_isTemporary_journal : ¬ IsTemporary journalPath :=
  @not_isTemporary_of_head journalPath _ _ rfl (by decide)

theorem not_isTemporary_backups : ¬ IsTemporary backupsDirectory :=
  @not_isTemporary_of_head backupsDirectory _ _ rfl (by decide)

theorem not_isTemporary_backup (index : Nat) : ¬ IsTemporary (backupPath index) :=
  @not_isTemporary _ _ ".old".toList (List.getLast?_concat ..) (by decide)
    (by decide)

theorem not_isTemporary_transactionDirectory : ¬ IsTemporary transactionDirectory := by
  rintro ⟨directory, stem, part, -, same⟩
  have last := congrArg List.getLast? same
  rw [List.getLast?_concat] at last
  have name : "apply-transaction".toList = stem ++ ".apply-".toList ++ part :=
    (List.cons.inj (Option.some.inj last)).2
  have dot : '.' ∈ "apply-transaction".toList := by
    rw [name]
    simp
  exact absurd dot (by decide)

namespace Plan

variable {host : Host} (plan : Plan host)

/-! ## Outside the transaction directory -/

/-- A temporary file where nothing was. -/
def Stray (tree : Tree) (path : Path) : Prop :=
  plan.original.node path = none ∧ IsTemporary path ∧ ∃ raw mode, tree path = some (.file raw mode)

/-- A path that no step of the transaction is about. -/
def Kept (tree : Tree) (path : Path) : Prop :=
  tree path = plan.original.node path ∨ plan.Stray tree path

def Undone (tree : Tree) : Prop :=
  ∀ path, ¬ transactionDirectory <+: path → plan.Kept tree path

/-- Every target is as it was or as planned. -/
structure Doing (tree : Tree) : Prop where
  directories : ∀ path mode, plan.original.node path = some (.directory mode) →
    tree path = some (.directory mode)
  frame : ∀ path, ¬ transactionDirectory <+: path → ¬ plan.Targets path →
    path ∉ plan.directories → plan.Kept tree path
  made : ∀ path ∈ plan.directories, tree path = none ∨ tree path = some (.directory 0o755) ∨
    plan.Stray tree path
  targets : ∀ file ∈ plan.files, file.1 ∉ plan.directories →
    tree file.1 = plan.original.node file.1 ∨ tree file.1 = plan.goal file

/-- Every target is as planned. -/
def Done (tree : Tree) : Prop :=
  plan.Doing tree ∧ ∀ file ∈ plan.files, tree file.1 = plan.goal file

variable {plan} {tree other : Tree} {path : Path} {file : Path × Option Bytes}

theorem Stray.congr (stray : plan.Stray tree path) (same : other path = tree path) :
    plan.Stray other path := by
  obtain ⟨absent, temporary, here⟩ := stray
  exact ⟨absent, temporary, by rwa [same]⟩

theorem Kept.congr (kept : plan.Kept tree path) (same : other path = tree path) :
    plan.Kept other path :=
  kept.imp same.trans fun stray => stray.congr same

theorem Kept.of_plain (kept : plan.Kept tree path) (plain : ¬ IsTemporary path) :
    tree path = plan.original.node path :=
  kept.resolve_right fun stray => plain stray.2.1

variable {raw : Bytes} {mode : Nat} {node : Option Node}

/-- A temporary file in a free place. -/
theorem Kept.temporary (kept : plan.Kept tree path) (free : tree path = none)
    (temporary : IsTemporary path) (here : other path = some (.file raw mode)) :
    plan.Kept other path := by
  refine .inr ⟨?_, temporary, raw, mode, here⟩
  rcases kept with same | ⟨-, -, raw, mode, found⟩
  · rw [← same, free]
  · rw [free] at found
    cases found

theorem Targets.plain (target : plan.Targets path) : ¬ IsTemporary path := target.sanctioned.2.1

theorem Undone.congr (undone : plan.Undone tree) (same : SameOutside other tree) :
    plan.Undone other :=
  fun path outside => (undone path outside).congr (same path outside)

theorem Undone.target (undone : plan.Undone tree) (target : plan.Targets path) :
    tree path = plan.original.node path :=
  (undone path target.sanctioned.2.2).of_plain target.plain

theorem Undone.doing (undone : plan.Undone tree) : plan.Doing tree where
  directories path mode directory := by
    have outside : ¬ transactionDirectory <+: path := by
      intro inside
      rw [original_inside inside] at directory
      cases directory
    rcases undone path outside with same | ⟨absent, -⟩
    · rw [same, directory]
    · rw [absent] at directory
      cases directory
  frame path outside _ _ := undone path outside
  made path member := by
    rcases undone path (directory_outside member) with same | stray
    · exact .inl (same.trans (plan.planned.absent path member).2)
    · exact .inr (.inr stray)
  targets file member _ := .inl (undone.target (targets_of_mem member))

theorem Undone.temporary (undone : plan.Undone tree) (free : tree path = none)
    (temporary : IsTemporary path) (raw : Bytes) (mode : Nat) :
    plan.Undone (Function.update tree path (some (.file raw mode))) := by
  intro q outside
  by_cases same : q = path
  · subst same
    exact (undone q outside).temporary free temporary (Function.update_self ..)
  · exact (undone q outside).congr (Function.update_of_ne same _ _)

theorem Doing.congr (doing : plan.Doing tree) (same : SameOutside other tree) :
    plan.Doing other where
  directories path mode directory := by
    have outside : ¬ transactionDirectory <+: path := by
      intro inside
      rw [original_inside inside] at directory
      cases directory
    rw [same path outside]
    exact doing.directories path mode directory
  frame path outside notTarget notMade :=
    (doing.frame path outside notTarget notMade).congr (same path outside)
  made path member := by
    have same := same path (directory_outside member)
    rw [same]
    exact (doing.made path member).imp_right fun here =>
      here.imp_right fun stray => stray.congr same
  targets file member notMade := by
    rw [same file.1 (targets_of_mem member).sanctioned.2.2]
    exact doing.targets file member notMade

theorem Doing.temporary (doing : plan.Doing tree) (free : tree path = none)
    (temporary : IsTemporary path) (raw : Bytes) (mode : Nat) :
    plan.Doing (Function.update tree path (some (.file raw mode))) where
  directories q directoryMode directory := by
    have here := doing.directories q directoryMode directory
    have apart : q ≠ path := by
      rintro rfl
      rw [free] at here
      cases here
    rw [Function.update_of_ne apart, here]
  frame q outside notTarget notMade := by
    have kept := doing.frame q outside notTarget notMade
    by_cases same : q = path
    · subst same
      exact kept.temporary free temporary (Function.update_self ..)
    · exact kept.congr (Function.update_of_ne same _ _)
  made q member := by
    by_cases same : q = path
    · subst same
      exact .inr (.inr ⟨(plan.planned.absent q member).2, temporary, raw, mode,
        Function.update_self ..⟩)
    · rw [Function.update_of_ne same]
      exact (doing.made q member).imp_right fun here => here.imp_right fun stray =>
        stray.congr (Function.update_of_ne same _ _)
  targets file member notMade := by
    have apart : file.1 ≠ path := by
      rintro rfl
      exact (targets_of_mem member).plain temporary
    rw [Function.update_of_ne apart]
    exact doing.targets file member notMade

/-- A target is put back, or made what it is to become. -/
theorem Doing.put_target (doing : plan.Doing tree) (member : file ∈ plan.files)
    (new : node = plan.original.node file.1 ∨
      (file.1 ∉ plan.directories ∧ node = plan.goal file ∧
        ∀ mode, plan.original.node file.1 ≠ some (.directory mode))) :
    plan.Doing (Function.update tree file.1 node) where
  directories q mode directory := by
    by_cases same : q = file.1
    · subst same
      rw [Function.update_self]
      rcases new with rfl | ⟨-, -, plain⟩
      · exact directory
      · exact absurd directory (plain mode)
    · rw [Function.update_of_ne same]
      exact doing.directories q mode directory
  frame q outside notTarget notMade := by
    have apart : q ≠ file.1 := by
      rintro rfl
      exact notTarget (targets_of_mem member)
    exact (doing.frame q outside notTarget notMade).congr (Function.update_of_ne apart _ _)
  made q made := by
    by_cases same : q = file.1
    · subst same
      rw [Function.update_self]
      rcases new with rfl | ⟨notMade, -⟩
      · exact .inl (plan.planned.absent _ made).2
      · exact absurd made notMade
    · rw [Function.update_of_ne same]
      exact (doing.made q made).imp_right fun here => here.imp_right fun stray =>
        stray.congr (Function.update_of_ne same _ _)
  targets another listed notMade := by
    by_cases same : another.1 = file.1
    · rw [same, Function.update_self, eq_of_mem listed member same]
      exact new.imp_right fun new => new.2.1
    · rw [Function.update_of_ne same]
      exact doing.targets another listed notMade

/-- A planned directory is made or removed. -/
theorem Doing.put_directory (doing : plan.Doing tree) (member : path ∈ plan.directories)
    (new : node = none ∨ node = some (.directory 0o755)) :
    plan.Doing (Function.update tree path node) where
  directories q mode directory := by
    have apart : q ≠ path := by
      rintro rfl
      rw [(plan.planned.absent q member).2] at directory
      cases directory
    rw [Function.update_of_ne apart]
    exact doing.directories q mode directory
  frame q outside notTarget notMade := by
    have apart : q ≠ path := by
      rintro rfl
      exact notMade member
    exact (doing.frame q outside notTarget notMade).congr (Function.update_of_ne apart _ _)
  made q made := by
    by_cases same : q = path
    · subst same
      rw [Function.update_self]
      exact new.imp_right .inl
    · rw [Function.update_of_ne same]
      exact (doing.made q made).imp_right fun here => here.imp_right fun stray =>
        stray.congr (Function.update_of_ne same _ _)
  targets file listed notMade := by
    have apart : file.1 ≠ path := by
      rintro rfl
      exact notMade member
    rw [Function.update_of_ne apart]
    exact doing.targets file listed notMade

/-- With every target as it was and no planned directory left nothing was done. -/
theorem Doing.undone (doing : plan.Doing tree)
    (targets : ∀ file ∈ plan.files, tree file.1 = plan.original.node file.1)
    (none_ : ∀ path ∈ plan.directories, tree path = none) : plan.Undone tree := by
  intro q outside
  by_cases target : plan.Targets q
  · obtain ⟨raw, member⟩ := target.listed
    exact .inl (targets _ member)
  · by_cases made : q ∈ plan.directories
    · exact .inl ((none_ q made).trans (plan.planned.absent q made).2.symm)
    · exact doing.frame q outside target made

theorem Done.congr (done : plan.Done tree) (same : SameOutside other tree) :
    plan.Done other := by
  refine ⟨done.1.congr same, fun file member => ?_⟩
  rw [same file.1 (targets_of_mem member).sanctioned.2.2]
  exact done.2 file member

theorem Doing.anchor (doing : plan.Doing tree) : tree.IsDirectory axiomDirectory := by
  obtain ⟨mode, here⟩ := plan.anchor
  exact .inr ⟨mode, doing.directories _ mode here⟩

/-! ## Inside the transaction directory -/

variable (plan) in
/-- What may lie in the transaction directory, the journal apart. -/
structure Space (tree : Tree) : Prop where
  root : tree transactionDirectory = none ∨
    tree transactionDirectory = some (.directory 0o700)
  backups : tree backupsDirectory = none ∨ tree backupsDirectory = some (.directory 0o700)
  kept : ∀ item ∈ plan.files.zipIdx, tree (backupPath item.2) = none ∨
    ∃ raw mode, plan.original.node item.1.1 = some (.file raw mode) ∧
      tree (backupPath item.2) = some (.file raw 0o600)

/-- A path that no part of the space is at. -/
def Apart (path : Path) : Prop :=
  transactionDirectory ≠ path ∧ backupsDirectory ≠ path ∧ ∀ index, backupPath index ≠ path

theorem apart_of_temporary (temporary : IsTemporary path) : Apart path := by
  refine ⟨?_, ?_, fun index => ?_⟩ <;> rintro rfl
  · exact not_isTemporary_transactionDirectory temporary
  · exact not_isTemporary_backups temporary
  · exact not_isTemporary_backup index temporary

theorem apart_of_outside (outside : ¬ transactionDirectory <+: path) : Apart path := by
  refine ⟨?_, ?_, fun index => ?_⟩ <;> rintro rfl
  · exact outside List.prefix_rfl
  · exact outside transactionDirectory_prefix_backups
  · exact outside (transactionDirectory_prefix_backup index)

theorem backupPath_ne_of_length (short : path.length ≠ 4) (index : Nat) :
    backupPath index ≠ path := by
  rintro rfl
  exact short (by simp [backupPath, backupsDirectory, transactionDirectory])

theorem apart_journal : Apart journalPath :=
  ⟨by decide, by decide, backupPath_ne_of_length (by decide)⟩

theorem Space.apart (space : plan.Space tree) (apart : Apart path) (node : Option Node) :
    plan.Space (Function.update tree path node) where
  root := by
    rw [Function.update_of_ne apart.1]
    exact space.root
  backups := by
    rw [Function.update_of_ne apart.2.1]
    exact space.backups
  kept item member := by
    rw [Function.update_of_ne (apart.2.2 item.2)]
    exact space.kept item member

theorem Space.remove (space : plan.Space tree) : plan.Space (Function.update tree path none) where
  root := by
    by_cases same : transactionDirectory = path
    · exact .inl (by rw [← same, Function.update_self])
    · rw [Function.update_of_ne same]
      exact space.root
  backups := by
    by_cases same : backupsDirectory = path
    · exact .inl (by rw [← same, Function.update_self])
    · rw [Function.update_of_ne same]
      exact space.backups
  kept item member := by
    by_cases same : backupPath item.2 = path
    · exact .inl (by rw [← same, Function.update_self])
    · rw [Function.update_of_ne same]
      exact space.kept item member

theorem Space.make_root (space : plan.Space tree) : plan.Space
    (Function.update tree transactionDirectory (some (.directory 0o700))) where
  root := .inr (Function.update_self ..)
  backups := by
    rw [Function.update_of_ne (by decide)]
    exact space.backups
  kept item member := by
    rw [Function.update_of_ne (backupPath_ne_of_length (by decide) _)]
    exact space.kept item member

theorem Space.make_backups (space : plan.Space tree) : plan.Space
    (Function.update tree backupsDirectory (some (.directory 0o700))) where
  root := by
    rw [Function.update_of_ne (by decide)]
    exact space.root
  backups := .inr (Function.update_self ..)
  kept item member := by
    rw [Function.update_of_ne (backupPath_ne_of_length (by decide) _)]
    exact space.kept item member

theorem backupPath_injective : Function.Injective backupPath := by
  intro first second same
  have last := List.append_cancel_left same
  exact backupName_injective (List.cons.inj last).1

/-- A backup is made. -/
theorem Space.back_up (space : plan.Space tree) {item : (Path × Option Bytes) × Nat}
    (listed : item ∈ plan.files.zipIdx)
    (found : plan.original.node item.1.1 = some (.file raw mode)) :
    plan.Space (Function.update tree (backupPath item.2) (some (.file raw 0o600))) where
  root := by
    rw [Function.update_of_ne (backupPath_ne_of_length (by decide) _).symm]
    exact space.root
  backups := by
    rw [Function.update_of_ne (backupPath_ne_of_length (by decide) _).symm]
    exact space.backups
  kept other member := by
    by_cases same : other.2 = item.2
    · -- an index belongs to one file
      have here := List.mem_zipIdx_iff_getElem?.mp listed
      have there := List.mem_zipIdx_iff_getElem?.mp member
      rw [same, here] at there
      rw [same, Function.update_self, ← Option.some.inj there]
      exact .inr ⟨raw, mode, found, rfl⟩
    · rw [Function.update_of_ne fun path => same (backupPath_injective path)]
      exact space.kept other member

variable (plan) in
/-- The journal file in a state. -/
def journalFile (state : JournalState) : Node := .file (plan.journal state).bytes 0o600

variable (plan) in
/-- Before the commit, with the journal in a state or not there yet. -/
structure Early (state : Option JournalState) (tree : Tree) (found : Progress) : Prop where
  original : found.original = plan.original
  uncommitted : found.committed = false
  journal : tree journalPath = state.map plan.journalFile
  begun : state ≠ some .committed

variable (plan) in
/-- Since the commit. -/
structure Late (tree : Tree) (found : Progress) : Prop where
  original : found.original = plan.original
  committed : found.committed = true
  journal : tree journalPath = none ∨ tree journalPath = some (plan.journalFile .committed)

variable {state next : Option JournalState} {found : Progress} {mark : Mark fileMachine}

/-- A step that leaves the journal in a state before the commit. -/
theorem Early.note (early : plan.Early state tree found) (begun : next ≠ some .committed)
    (journal : mark.after.node journalPath = next.map plan.journalFile) :
    plan.Early next mark.after.node (found.note mark) where
  original := early.original
  uncommitted := by
    show (found.committed || mark.after.committed) = false
    rw [early.uncommitted, Bool.false_or]
    cases next with
    | none => exact committed_missing journal
    | some next =>
      rw [← Bool.not_eq_true]
      exact fun committed =>
        begun (congrArg some ((@committed_journal _ (plan.journal next) _ journal).mp
          committed))
  journal := journal
  begun := begun

theorem Early.same (early : plan.Early state tree found)
    (same : mark.after.node journalPath = tree journalPath) :
    plan.Early state mark.after.node (found.note mark) :=
  early.note early.begun (same.trans early.journal)

theorem Early.congr (early : plan.Early state tree found)
    (same : other journalPath = tree journalPath) : plan.Early state other found where
  original := early.original
  uncommitted := early.uncommitted
  journal := same.trans early.journal
  begun := early.begun

theorem Late.note (late : plan.Late tree found) : plan.Late tree (found.note mark) where
  original := late.original
  committed := by
    show (found.committed || mark.after.committed) = true
    rw [late.committed, Bool.true_or]
  journal := late.journal

/-! ## Both together -/

variable (plan) in
/-- The tree outside, as the journal tells it. -/
def Live (state : Option JournalState) (tree : Tree) : Prop :=
  match state with
  | some .applying => plan.Doing tree
  | _ => plan.Undone tree

variable (plan) in
structure Pending (state : Option JournalState) (tree : Tree) (found : Progress) : Prop where
  space : plan.Space tree
  early : plan.Early state tree found
  live : plan.Live state tree
  checked : state ≠ none → plan.Checked

variable (plan) in
structure Settled (tree : Tree) (found : Progress) : Prop where
  space : plan.Space tree
  late : plan.Late tree found
  done : plan.Done tree

variable (plan) in
/-- What holds between any two steps, whatever failed and whenever the process was killed. -/
def Safe (tree : Tree) (found : Progress) : Prop :=
  (∃ state, plan.Pending state tree found) ∨ plan.Settled tree found

theorem Live.doing (live : plan.Live state tree) : plan.Doing tree := by
  unfold Live at live
  split at live
  · exact live
  · exact live.doing

theorem Live.undone (live : plan.Live state tree) (idle : state ≠ some .applying) :
    plan.Undone tree := by
  unfold Live at live
  split at live
  · exact absurd rfl idle
  · exact live

theorem Live.of_undone (undone : plan.Undone tree) : plan.Live state tree := by
  unfold Live
  split
  · exact undone.doing
  · exact undone

theorem Live.congr (live : plan.Live state tree) (same : SameOutside other tree) :
    plan.Live state other := by
  unfold Live at *
  split at live
  · exact live.congr same
  · exact live.congr same

theorem Live.temporary (live : plan.Live state tree) (free : tree path = none)
    (temporary : IsTemporary path) (raw : Bytes) (mode : Nat) :
    plan.Live state (Function.update tree path (some (.file raw mode))) := by
  unfold Live at *
  split at live
  · exact live.temporary free temporary raw mode
  · exact live.temporary free temporary raw mode

theorem Pending.temporary (pending : plan.Pending state tree found)
    (free : tree path = none) (temporary : IsTemporary path) (raw : Bytes) (mode : Nat) :
    plan.Pending state (Function.update tree path (some (.file raw mode))) found where
  space := pending.space.apart (apart_of_temporary temporary) _
  early := by
    refine pending.early.congr (Function.update_of_ne ?_ _ _)
    rintro rfl
    exact not_isTemporary_journal temporary
  live := pending.live.temporary free temporary raw mode
  checked := pending.checked

theorem stable_pending : Stable (plan.Pending state) := fun tree _ _ pending agree => by
  have same := agree journalPath not_isTemporary_journal
  exact { pending with early := (pending.early.same same).congr same.symm }

theorem stable_settled : Stable plan.Settled := fun _ _ _ settled _ =>
  { settled with late := settled.late.note }

theorem pending_of_withTemporary {directory : Path}
    (here : WithTemporary directory (plan.Pending state) tree found) :
    plan.Pending state tree found := by
  obtain ⟨base, path, raw, mode, pending, free, temporary, rfl, rfl⟩ := here
  exact pending.temporary free temporary raw mode

end Plan

end AxiomEncode.Apply
