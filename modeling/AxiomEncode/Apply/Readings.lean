/-
# Apply.Readings -- what the calls that read say of a tree

Each reading function of the transaction, run on a tree that the plan is being
carried out on: when it answers, what it answers, and, where no temporary file lies
about, that it does answer.
-/
import AxiomEncode.Apply.Phases

namespace AxiomEncode.Apply

open Theory Crash

set_option autoImplicit false

section Files

variable {host : Host} {checkout : Checkout} {path : Path}

theorem readBoundedNofollowRegularFile_eq_ok_iff {label : String} {maxBytes : Nat}
    {requirePrivate : Bool} {raw : Bytes} {mode : Nat} :
    readBoundedNofollowRegularFile path label maxBytes requirePrivate checkout = .ok (raw, mode) ↔
      checkout.node path = some (.file raw mode) ∧ (requirePrivate = true → isPrivate mode = true) ∧
        raw.length ≤ maxBytes := by
  unfold readBoundedNofollowRegularFile
  cases here : checkout.node path with
  | none => simp
  | some node =>
    cases node with
    | directory mode => simp
    | file found foundMode =>
      simp only [bind_eq_ok_iff, require_eq_ok_iff, Bool.or_eq_true, Bool.not_eq_true',
        decide_eq_true_eq]
      constructor
      · rintro ⟨_, open_, _, small, ⟨⟩⟩
        refine ⟨rfl, fun asked => ?_, small⟩
        rw [asked] at open_
        exact open_.resolve_left (by decide)
      · rintro ⟨⟨⟩, open_, small⟩
        refine ⟨(), ?_, (), small, rfl⟩
        cases requirePrivate with
        | false => exact .inl rfl
        | true => exact .inr (open_ rfl)

/-- What a snapshot says. -/
theorem applyTransactionFileSnapshot_ok {snapshot : Option Snapshot} (nonempty : path ≠ [])
    (read : applyTransactionFileSnapshot host path checkout = .ok snapshot) :
    Readable (checkout.node path) ∧ snapshot = nodeSnapshot host (checkout.node path) := by
  unfold applyTransactionFileSnapshot at read
  split at read
  · cases read
  · next looked =>
      cases read
      rw [Checkout.node_of_lookup nonempty looked]
      exact ⟨.inl rfl, rfl⟩
  · obtain ⟨⟨raw, mode⟩, bounded, read⟩ := bind_eq_ok_iff.mp read
    obtain ⟨found, -, small⟩ := readBoundedNofollowRegularFile_eq_ok_iff.mp bounded
    obtain ⟨_, plain, read⟩ := bind_eq_ok_iff.mp read
    cases read
    rw [found]
    exact ⟨.inr ⟨raw, mode, rfl, by simpa using plain, small⟩, rfl⟩

theorem ensureSafeApplyTarget_eq_ok_iff {u : Unit} :
    ensureSafeApplyTarget path checkout = .ok u ↔
      ∀ mode, checkout.node path ≠ some (.directory mode) := by
  unfold ensureSafeApplyTarget
  rw [require_eq_ok_iff]
  cases checkout.node path with
  | none => simp
  | some node => cases node <;> simp [Node.isDirectory]

theorem not_directory_of_readable {node : Option Node} (readable : Readable node) (mode : Nat) :
    node ≠ some (.directory mode) := by
  rintro rfl
  rcases readable with none_ | ⟨_, _, file, -⟩
  · cases none_
  · cases file

end Files

namespace Plan

variable {host : Host} {plan : Plan host} {file : Path × Option Bytes}
  {checkout : Checkout}

variable (plan) in
/-- No planned content has the digest of another content that its target has. -/
def Collisionless : Prop :=
  ∀ file ∈ plan.files, ∀ new ∈ file.2, ∀ raw mode,
    plan.original.node file.1 = some (.file raw mode) →
      host.sha256 raw = host.sha256 new → raw = new

/-- A target in one of its two states matches its old digest just when it is as it was. -/
theorem matches_old_iff (apart : plan.Collisionless) (member : file ∈ plan.files)
    (readable : Readable (plan.original.node file.1)) {node : Option Node} {index : Nat}
    (either : node = plan.original.node file.1 ∨ node = plan.goal file) :
    snapshotMatches (nodeSnapshot host node) (plan.entry (file, index)).oldSha256
        (plan.entry (file, index)).mode = true ↔ node = plan.original.node file.1 := by
  show snapshotMatches _ ((plan.old file.1).map Snapshot.digest) (plan.mode file.1) = true ↔ _
  rcases readable with missing | ⟨raw, mode, found, -⟩
  · rw [old_of_missing missing, missing]
    rw [missing] at either
    rcases either with rfl | rfl
    · simp [snapshotMatches, nodeSnapshot]
    · cases new : file.2 <;> simp [snapshotMatches, nodeSnapshot, goal, new]
  · rw [old_of_file found, mode_of_file found, found]
    rw [found] at either
    rcases either with rfl | rfl
    · simp [snapshotMatches, nodeSnapshot]
    · cases new : file.2 with
      | none => simp [snapshotMatches, nodeSnapshot, goal, new]
      | some bytes =>
        have same := apart file member bytes new raw mode found
        simp only [snapshotMatches, nodeSnapshot, goal, new, Option.map_some,
          mode_of_file found, Option.any_some, beq_self_eq_true, Bool.and_true, beq_iff_eq,
          Option.some.injEq, Node.file.injEq, and_true]
        exact ⟨fun digest => (same digest.symm).symm, fun here => congrArg _ here⟩

/-- A target that is no directory is as it was or as planned. -/
theorem Doing.either (doing : plan.Doing checkout.node) (member : file ∈ plan.files)
    (plain : ∀ mode, checkout.node file.1 ≠ some (.directory mode)) :
    checkout.node file.1 = plan.original.node file.1 ∨
      (file.1 ∉ plan.directories ∧ checkout.node file.1 = plan.goal file) := by
  by_cases made : file.1 ∈ plan.directories
  · rcases doing.made _ made with none_ | directory | ⟨-, temporary, -⟩
    · exact .inl (none_.trans (plan.planned.absent _ made).2.symm)
    · exact absurd directory (plain _)
    · exact absurd temporary (targets_of_mem member).plain
  · exact (doing.targets file member made).imp_right fun goal => ⟨made, goal⟩

/-! ## Admission of a rollback -/

abbrev Item := (Path × Option Bytes) × Nat

/-- The length of a file. -/
def nodeSize : Option Node → Nat
  | some (.file raw _) => raw.length
  | _ => 0

variable (plan) in
/-- The target is not as it was. -/
def changed (checkout : Checkout) (item : Item) : Bool :=
  decide (checkout.node item.1.1 ≠ plan.original.node item.1.1)

variable (plan) in
/-- The action that puts a target back, with a backup or without. -/
def action (raw : Option Bytes) (item : Item) : PendingAction where
  entry := plan.entry item
  current := nodeSnapshot host (plan.goal item.1)
  raw := raw

variable (plan) in
/-- The action with the backup it needs. -/
def restores (item : Item) : PendingAction :=
  plan.action ((plan.old item.1.1).map Snapshot.raw) item

variable {item : Item} {items : List Item} {recoveryBytes : Nat}

theorem changed_eq_false :
    plan.changed checkout item = false ↔
      checkout.node item.1.1 = plan.original.node item.1.1 := by
  simp [changed]

/-- Whether an entry needs an action. -/
theorem matches_old_eq (apart : plan.Collisionless) (checked : plan.Checked)
    (doing : plan.Doing checkout.node) (member : item.1 ∈ plan.files)
    (plain : ∀ mode, checkout.node item.1.1 ≠ some (.directory mode)) :
    snapshotMatches (nodeSnapshot host (checkout.node item.1.1)) (plan.entry item).oldSha256
      (plan.entry item).mode = !plan.changed checkout item := by
  have either := (doing.either member plain).imp_right And.right
  have same := @matches_old_iff _ _ _ apart member (checked.target _ member) _ item.2 either
  rw [Bool.eq_iff_iff, same, Bool.not_eq_true', changed_eq_false]

/-- What a rollback admits: the targets that are not as they were. -/
theorem admitEntries_ok (apart : plan.Collisionless) (checked : plan.Checked)
    (doing : plan.Doing checkout.node) (listed : ∀ item ∈ items, item.1 ∈ plan.files)
    {state : JournalState} {total : Nat} {pending : List PendingAction}
    (read : admitEntries host state recoveryBytes (items.map plan.entry) checkout =
      .ok (total, pending)) :
    pending = (items.filter (plan.changed checkout)).map (plan.action none) ∧
      (∀ item ∈ items, ∀ mode, checkout.node item.1.1 ≠ some (.directory mode)) ∧
      (state = .prepared → items.filter (plan.changed checkout) = []) := by
  induction items generalizing recoveryBytes total pending with
  | nil =>
    cases read
    exact ⟨rfl, nofun, fun _ => rfl⟩
  | cons item items ih =>
    have member := listed item List.mem_cons_self
    have rest := fun other later => listed other (List.mem_cons_of_mem item later)
    have nonempty := (plan.sanctioned _ member).1
    rw [List.map_cons, admitEntries] at read
    dsimp only at read
    rw [pathParts_entry member] at read
    obtain ⟨_, safe, read⟩ := bind_eq_ok_iff.mp read
    have plain := ensureSafeApplyTarget_eq_ok_iff.mp safe
    obtain ⟨current, snapshot, read⟩ := bind_eq_ok_iff.mp read
    obtain ⟨-, rfl⟩ := applyTransactionFileSnapshot_ok nonempty snapshot
    obtain ⟨_, -, read⟩ := bind_eq_ok_iff.mp read
    rw [matches_old_eq apart checked doing member plain] at read
    have all : ∀ {P : Item → Prop}, P item → (∀ other ∈ items, P other) →
        ∀ other ∈ item :: items, P other := fun here later => List.forall_mem_cons.mpr ⟨here, later⟩
    cases change : plan.changed checkout item with
    | false =>
      rw [change] at read
      obtain ⟨same, plains, idle⟩ := ih rest read
      rw [List.filter_cons_of_neg (by simp [change])]
      exact ⟨same, all plain plains, idle⟩
    | true =>
      rw [change] at read
      obtain ⟨_, allowed, read⟩ := bind_eq_ok_iff.mp read
      obtain ⟨⟨sum, more⟩, later, last⟩ := bind_eq_ok_iff.mp read
      cases last
      obtain ⟨rfl, plains, -⟩ := ih rest later
      rw [List.filter_cons_of_pos change]
      refine ⟨?_, all plain plains, fun prepared => ?_⟩
      · have goal := ((doing.either member plain).resolve_left fun same => by
          rw [changed_eq_false.mpr same] at change
          cases change).2
        rw [List.map_cons, action, ← goal]
      · rw [prepared] at allowed
        simp at allowed

/-! ## The backups -/

/-- The backups that were read are the old bytes of the targets. -/
theorem materializeActions_ok (space : plan.Space checkout.node)
    (listed : ∀ item ∈ items, item ∈ plan.files.zipIdx) {actions : List PendingAction}
    (read : materializeActions host recoveryBytes (items.map (plan.action none)) checkout =
      .ok actions) : actions = items.map plan.restores := by
  induction items generalizing recoveryBytes actions with
  | nil =>
    cases read
    rfl
  | cons item items ih =>
    have rest := fun other later => listed other (List.mem_cons_of_mem item later)
    rw [List.map_cons, materializeActions] at read
    split at read
    · next existed =>
        obtain ⟨raw, backup, read⟩ := bind_eq_ok_iff.mp read
        obtain ⟨_, -, read⟩ := bind_eq_ok_iff.mp read
        obtain ⟨more, later, last⟩ := bind_eq_ok_iff.mp read
        cases last
        rw [ih rest later]
        obtain ⟨⟨_, mode⟩, bounded, backup⟩ := bind_eq_ok_iff.mp backup
        obtain ⟨_, -, same⟩ := bind_eq_ok_iff.mp backup
        cases same
        have file := (readBoundedNofollowRegularFile_eq_ok_iff.mp bounded).1
        have name : (plan.entry item).backup = some (backupName item.2) := if_pos existed
        change checkout.node (backupsDirectory ++ [(plan.entry item).backup.getD _]) = _ at file
        rw [name] at file
        rcases space.kept item (listed item List.mem_cons_self) with none_ | ⟨old, oldMode, found, kept⟩
        · rw [show checkout.node (backupPath item.2) = _ from file] at none_
          cases none_
        · rw [show checkout.node (backupPath item.2) = _ from file] at kept
          cases kept
          rw [List.map_cons, restores, old_of_file found]
          rfl
    · next absent =>
        obtain ⟨more, later, last⟩ := bind_eq_ok_iff.mp read
        cases last
        have old : plan.old item.1.1 = none := by
          rw [← Option.not_isSome_iff_eq_none]
          exact absent
        rw [ih rest later, List.map_cons, restores, old]
        rfl

end Plan

end AxiomEncode.Apply
