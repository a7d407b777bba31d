/-
# Cascade.ApplySpec -- what each part of a cascade leaves on the disk

Specifications are about runs without a kill.  Every one carries along whether the run
was `Exposed`: whether a failure fell on the report as it is first written, the one write
that no handler takes back.

The files are followed by a table of bytes (`Has`).  A replacement revises the entry of
its path, or was not made; files that came to be on the way are not in the table.
-/
import AxiomEncode.Cascade.Apply

namespace AxiomEncode.Cascade

open Theory Crash

set_option autoImplicit false

/-- The steps that fill the report after it was created. -/
def firstWrite : DiskOp → Bool
  | .writeSome .created _ _ => true
  | .write .created _ _ => true
  | .fsync .created _ => true
  | .fsyncDirectory .created _ => true
  | _ => false

/-- A failure fell on the report as it was first written. -/
def Exposed (world : World diskMachine) : Prop :=
  ∃ mark ∈ world.log, mark.faulted = true ∧ firstWrite mark.op = true

theorem exposed_mark (world : World diskMachine) (op : DiskOp) (faulted : Bool) (after : Disk) :
    Exposed (world.mark op faulted after) ↔
      (faulted = true ∧ firstWrite op = true) ∨ Exposed world := by
  simp only [Exposed, World.mark_log, List.exists_mem_cons_iff]

/-- A fact of the disk, in a run that was exposed or was not. -/
def At (exposed : Prop) (A : Disk → Prop) (world : World diskMachine) : Prop :=
  A world.state ∧ (Exposed world ↔ exposed)

def noKill (event : Event DiskChoice) : Prop := event ≠ .kill

/-- From a disk in `A` the program returns in `Q` or raises in `E`, and exposes nothing. -/
def Spec {α : Type} (exposed : Prop) (A : Disk → Prop) (p : Run α) (Q : α → Disk → Prop)
    (E : CascadeError → Disk → Prop) : Prop :=
  Triple noKill (At exposed A) p (fun value => At exposed (Q value))
    (fun error => At exposed (E error)) fun _ => False

variable {op : DiskOp} {choice : DiskChoice} {disk after : Disk} {path other : Text} {raw : Bytes}
  {change : File → File} {res : DiskRes}

section

variable {α β : Type} {exposed : Prop} {A A' : Disk → Prop} {Q S : α → Disk → Prop}
  {E F : CascadeError → Disk → Prop} {p : Run α}

theorem Spec.mono (spec : Spec exposed A p Q E) (pre : ∀ disk, A' disk → A disk)
    (post : ∀ value disk, Q value disk → S value disk)
    (raised : ∀ error disk, E error disk → F error disk) : Spec exposed A' p S F :=
  Triple.mono spec (fun _ h => ⟨pre _ h.1, h.2⟩) (fun value _ h => ⟨post value _ h.1, h.2⟩)
    (fun error _ h => ⟨raised error _ h.1, h.2⟩) fun _ h => h

theorem Spec.pre (spec : Spec exposed A p Q E) (pre : ∀ disk, A' disk → A disk) :
    Spec exposed A' p Q E :=
  spec.mono pre (fun _ _ h => h) fun _ _ h => h

theorem Spec.of_fact {φ : Prop} (spec : φ → Spec exposed A p Q E) :
    Spec exposed (fun disk => φ ∧ A disk) p Q E :=
  (Triple.of_fact spec).pre fun _ h => ⟨h.1.1, h.1.2, h.2⟩

theorem Spec.of_exists {ι : Sort*} {A : ι → Disk → Prop} (spec : ∀ i, Spec exposed (A i) p Q E) :
    Spec exposed (fun disk => ∃ i, A i disk) p Q E :=
  (Triple.of_exists spec).pre fun _ h => h.1.imp fun _ holds => ⟨holds, h.2⟩

theorem Spec.of_or (left : Spec exposed A p Q E) (right : Spec exposed A' p Q E) :
    Spec exposed (fun disk => A disk ∨ A' disk) p Q E :=
  (Triple.of_or left right).pre fun _ h => h.1.imp (fun holds => ⟨holds, h.2⟩) fun holds => ⟨holds, h.2⟩

theorem spec_pure {value : α} (holds : ∀ disk, A disk → Q value disk) :
    Spec exposed A (Prog.pure value) Q E :=
  triple_pure fun _ h => ⟨holds _ h.1, h.2⟩

variable {error : CascadeError}

theorem spec_raise (holds : ∀ disk, A disk → E error disk) :
    Spec exposed A (Prog.raise error : Run α) Q E :=
  triple_raise fun _ h => ⟨holds _ h.1, h.2⟩

theorem spec_bind {next : α → Run β} {R : β → Disk → Prop} (first : Spec exposed A p Q E)
    (then_ : ∀ value, Spec exposed (Q value) (next value) R E) :
    Spec exposed A (Prog.bind p next) R E :=
  triple_bind first then_

theorem spec_tryCatch {handler : CascadeError → Run α} (body : Spec exposed A p Q F)
    (handle : ∀ error, Spec exposed (F error) (handler error) Q E) :
    Spec exposed A (Prog.tryCatch p handler) Q E :=
  triple_tryCatch body handle

/-- What a program raises is kept as a value. -/
theorem triple_attempt {P : World diskMachine → Prop} {R : α → World diskMachine → Prop}
    {G H : CascadeError → World diskMachine → Prop} {K : World diskMachine → Prop}
    (body : Triple noKill P p R G K) :
    Triple noKill P (attempt p)
      (fun result world => match result with
        | .ok value => R value world
        | .error error => G error world) H K :=
  triple_tryCatch (triple_bind body fun _ => triple_pure fun _ h => h) fun _ => triple_pure fun _ h => h

theorem spec_attempt (body : Spec exposed A p Q F) :
    Spec exposed A (attempt p)
      (fun result disk => match result with
        | .ok value => Q value disk
        | .error error => F error disk) E := by
  refine (triple_attempt body).mono (fun _ h => h) ?_ (fun _ _ h => h) fun _ h => h
  rintro (error | value) world h
  · exact h
  · exact h

theorem spec_tryFinally {last : Run Unit} (body : Spec exposed A p S F)
    (answered : ∀ value, Spec exposed (S value) last (fun _ => Q value) E)
    (failed : ∀ error, Spec exposed (F error) last (fun _ => E error) E) :
    Spec exposed A (Prog.tryFinally p last) Q E :=
  triple_tryFinally body answered failed

/-! ## One step -/

/-- A step raises nothing but errors of the operating system. -/
theorem isOs_of_diskAct (failed : diskAct op choice disk = .error error) : error.isOs = true := by
  have edits : ∀ path change, disk.edit path change = .error error → error.isOs = true := by
    intro path change failed
    unfold Disk.edit at failed
    split at failed <;> cases failed
    rfl
  have creates : ∀ path mode, disk.create path mode = .error error → error.isOs = true := by
    intro path mode failed
    unfold Disk.create at failed
    split_ifs at failed <;> cases failed <;> rfl
  have changes : ∀ result, changing result = .error error → result = .error error := by
    rintro (other | after) failed
    · cases failed
      rfl
    · cases failed
  cases op with
  | inspect what => cases failed
  | mkdir path =>
    have failed := changes _ failed
    unfold Disk.mkdir at failed
    split_ifs at failed <;> cases failed <;> rfl
  | rmdir path =>
    have failed := changes _ failed
    unfold Disk.rmdir at failed
    split_ifs at failed <;> cases failed <;> rfl
  | create path mode => exact creates path mode (changes _ failed)
  | mkstemp path =>
    simp only [diskAct] at failed
    split at failed
    · cases failed
    · next raised =>
        cases failed
        exact creates _ _ raised
  | writeSome opened path raw => exact edits path _ (changes _ failed)
  | write opened path raw => exact edits path _ (changes _ failed)
  | fsync opened path => exact edits path _ (changes _ failed)
  | chmod path mode => exact edits path _ (changes _ failed)
  | replace source target =>
    have failed := changes _ failed
    unfold Disk.replace at failed
    split at failed
    · cases failed
      rfl
    · split_ifs at failed
      cases failed
      rfl
  | unlink path =>
    have failed := changes _ failed
    unfold Disk.unlink at failed
    split_ifs at failed
    cases failed
    rfl
  | fsyncDirectory change path =>
    simp only [diskAct] at failed
    split_ifs at failed
    · cases failed
    · cases failed
      rfl

/-- A step that is not one of the report's first: it raises and leaves the disk, or acts. -/
theorem spec_perform {Q : DiskRes → Disk → Prop} (harmless : firstWrite op = false)
    (raised : ∀ error disk, error.isOs = true → A disk → E error disk)
    (acted : ∀ disk choice res after, A disk → diskAct op choice disk = .ok (res, after) →
      Q res after) : Spec exposed A (Prog.perform op) Q E := by
  have same : ∀ (world : World diskMachine) faulted after,
      (Exposed world ↔ exposed) → (Exposed (world.mark op faulted after) ↔ exposed) := by
    intro world faulted after before
    rw [exposed_mark, harmless]
    simpa using before
  refine triple_perform (M := diskMachine) (fun bad => absurd rfl bad) ?_ ?_ ?_
  · intro _ world holds
    exact ⟨raised _ _ rfl holds.1, same world _ _ holds.2⟩
  · intro world choice error holds failed
    exact ⟨raised _ _ (isOs_of_diskAct failed) holds.1, same world _ _ holds.2⟩
  · intro world choice res after holds result
    exact ⟨acted _ _ _ _ holds.1 result, same world _ _ holds.2⟩

theorem spec_step {Q : Unit → Disk → Prop} (harmless : firstWrite op = false)
    (raised : ∀ error disk, error.isOs = true → A disk → E error disk)
    (acted : ∀ disk choice res after, A disk → diskAct op choice disk = .ok (res, after) →
      Q () after) : Spec exposed A (step op) Q E :=
  spec_bind (spec_perform (Q := fun _ => Q ()) harmless raised acted) fun _ => spec_pure fun _ h => h

theorem spec_reading {what : String} {read : Disk → Except CascadeError α}
    (raised : ∀ error disk, error.isOs = true → A disk → E error disk)
    (failed : ∀ error disk, A disk → read disk = .error error → E error disk)
    (answered : ∀ value disk, A disk → read disk = .ok value → Q value disk) :
    Spec exposed A (reading what read) Q E := by
  refine spec_bind (Q := fun res disk => A disk ∧ res.seen = disk)
    (spec_perform rfl raised fun disk choice res after holds result => ?_) fun res => ?_
  · cases result
    exact ⟨holds, rfl⟩
  · cases result : read res.seen with
    | ok value =>
      refine spec_pure fun disk holds => ?_
      exact answered value disk holds.1 (holds.2 ▸ result)
    | error error =>
      refine spec_raise fun disk holds => ?_
      exact failed error disk holds.1 (holds.2 ▸ result)

/-- A step of the report's first write that cannot fail by itself: made to fail, it exposes
the run and leaves the disk. -/
theorem triple_firstWrite {A' : Disk → Prop} (first : firstWrite op = true)
    (acted : ∀ disk choice, A disk → ∃ res after, diskAct op choice disk = .ok (res, after) ∧
      A' after) :
    Triple noKill (At False A) (step op) (fun _ => At False A')
      (fun error world => error.isOs = true ∧ At True A world) fun _ => False := by
  refine triple_bind (Q := fun _ => At False A') ?_ fun _ => triple_pure fun _ h => h
  refine triple_perform (M := diskMachine) (fun bad => absurd rfl bad) ?_ ?_ ?_
  · intro _ world holds
    refine ⟨rfl, holds.1, ?_⟩
    rw [exposed_mark]
    exact iff_of_true (.inl ⟨rfl, first⟩) trivial
  · intro world choice error holds failed
    obtain ⟨res, after, result, -⟩ := acted world.state choice holds.1
    cases result.symm.trans failed
  · intro world choice res after holds result
    obtain ⟨res', after', result', holds'⟩ := acted world.state choice holds.1
    cases result'.symm.trans result
    refine ⟨holds', ?_⟩
    rw [exposed_mark]
    simpa using holds.2

end

/-! ## Tables of bytes -/

/-- What is expected at some paths. -/
abbrev Table := Text → Option Bytes

/-- The disk has what the table expects. -/
def Has (table : Table) (disk : Disk) : Prop :=
  ∀ path raw, table path = some raw → disk.raw path = some raw

/-- Other bytes at a path of the table. -/
def revise (table : Table) (path : Text) (raw : Bytes) : Table := fun other =>
  if other = path then (table other).map fun _ => raw else table other

theorem revise_eq_none {table : Table} (absent : table other = none) :
    revise table path raw other = none := by
  unfold revise
  split_ifs
  · rw [absent]
    rfl
  · exact absent

theorem revise_ne {table : Table} (apart : other ≠ path) :
    revise table path raw other = table other := if_neg apart

theorem revise_self {table : Table} (expected : (table path).isSome = true) :
    revise table path raw path = some raw := by
  obtain ⟨old, isOld⟩ := Option.isSome_iff_exists.mp expected
  rw [revise, if_pos rfl, isOld]
  rfl

theorem has_none (disk : Disk) : Has (fun _ => none) disk := fun _ _ absent => nomatch absent

/-- A path out of the table may change. -/
theorem Has.put {table : Table} (has : Has table disk) (absent : table path = none) (file : File) :
    Has table (disk.put path file) := by
  intro other raw expected
  rw [Disk.raw_put, if_neg]
  · exact has other raw expected
  · rintro rfl
    rw [absent] at expected
    cases expected

theorem Has.remove {table : Table} (has : Has table disk) (absent : table path = none) :
    Has table (disk.remove path) := by
  intro other raw expected
  rw [Disk.raw_remove, if_neg]
  · exact has other raw expected
  · rintro rfl
    rw [absent] at expected
    cases expected

theorem Has.replace {table : Table} (has : Has table disk) {source target : Text} {file : File}
    (absent : table source = none) :
    Has (revise table target file.raw) ((disk.remove source).put target file) := by
  intro other raw expected
  rw [Disk.raw_put]
  unfold revise at expected
  split_ifs at expected ⊢ with here
  · obtain ⟨old, _, same⟩ := Option.map_eq_some_iff.mp expected
    rw [same]
  · exact has.remove absent other raw expected

/-- An edit finds its file. -/
theorem edit_eq_ok_iff :
    disk.edit path change = .ok after ↔
      ∃ file, disk.file path = some file ∧ after = disk.put path (change file) := by
  unfold Disk.edit
  cases disk.file path with
  | none => simp
  | some file => simp [eq_comm]

theorem changing_eq_ok_iff {result : Except CascadeError Disk} :
    changing result = .ok (res, after) ↔ result = .ok after ∧ res = ⟨after, []⟩ := by
  cases result with
  | error error => simp [changing]
  | ok disk =>
    simp only [changing, Except.ok.injEq, Prod.mk.injEq]
    constructor
    · rintro ⟨rfl, rfl⟩
      exact ⟨rfl, rfl⟩
    · rintro ⟨rfl, rfl⟩
      exact ⟨rfl, rfl⟩

theorem create_eq_ok_iff {mode : Nat} :
    disk.create path mode = .ok after ↔
      disk.holds path = false ∧ disk.isDirectory (parentOf path) = true ∧
        after = disk.put path ⟨[], mode⟩ := by
  unfold Disk.create
  split_ifs with held missing
  · simp [held]
  · rw [Bool.not_eq_true'] at missing
    simp [missing]
  · rw [Bool.not_eq_true] at held
    rw [Bool.not_eq_true', Bool.not_eq_false] at missing
    simp [held, missing, eq_comm]

theorem raw_eq_none_of_holds (free : disk.holds path = false) :
    disk.raw path = none := by
  unfold Disk.holds at free
  rw [Bool.or_eq_false_iff] at free
  rw [Disk.raw, Option.isSome_eq_false_iff.mp free.1 |> Option.isNone_iff_eq_none.mp]
  rfl

/-! ## Replacing a file -/

section

variable {exposed : Prop} {table : Table} {E : CascadeError → Disk → Prop}

/-- A temporary file is edited. -/
theorem has_of_edit (shape : diskAct op choice disk = changing (disk.edit path change))
    (has : Has table disk) (absent : table path = none)
    (result : diskAct op choice disk = .ok (res, after)) :
    Has table after ∧ ∃ file, disk.file path = some file ∧ after = disk.put path (change file) := by
  obtain ⟨edited, -⟩ := changing_eq_ok_iff.mp (shape.symm.trans result)
  obtain ⟨file, present, rfl⟩ := edit_eq_ok_iff.mp edited
  exact ⟨has.put absent _, file, present, rfl⟩

/-- One way or the other: the table, or the table with the path revised; a path is in neither. -/
def Either (table : Table) (path : Text) (content : Bytes) (free : Text) (disk : Disk) : Prop :=
  table free = none ∧ (Has table disk ∨ Has (revise table path content) disk)

theorem spec_replaceWith (path : Text) (content : Bytes) (mode : Nat) (temporary : Text) :
    Spec exposed (fun disk => table temporary = none ∧ Has table disk)
      (replaceWith path content mode temporary)
      (fun _ disk => table temporary = none ∧ Has (revise table path content) disk)
      (fun _ => Either table path content temporary) := by
  refine Spec.of_fact fun absent => ?_
  have failing : ∀ (error : CascadeError) disk, error.isOs = true → Has table disk →
      Either table path content temporary disk := fun _ _ _ has => ⟨absent, .inl has⟩
  refine spec_bind (Q := fun _ => Has table) (spec_step rfl failing ?_) fun _ => ?_
  · intro disk choice res after has result
    exact (has_of_edit rfl has absent result).1
  refine spec_bind (Q := fun _ => Has table) (spec_step rfl failing ?_) fun _ => ?_
  · intro disk choice res after has result
    exact (has_of_edit rfl has absent result).1
  -- From here on the temporary file holds the content.
  have filled : ∀ (error : CascadeError) disk, error.isOs = true →
      (Has table disk ∧ disk.raw temporary = some content) →
      Either table path content temporary disk := fun _ _ _ holds => ⟨absent, .inl holds.1⟩
  refine spec_bind (Q := fun _ disk => Has table disk ∧ disk.raw temporary = some content)
    (spec_step rfl failing ?_) fun _ => ?_
  · intro disk choice res after has result
    obtain ⟨kept, file, -, rfl⟩ := has_of_edit rfl has absent result
    exact ⟨kept, by rw [Disk.raw_put, if_pos rfl]⟩
  refine spec_bind (Q := fun _ disk => Has table disk ∧ disk.raw temporary = some content)
    (spec_step rfl filled ?_) fun _ => ?_
  · intro disk choice res after holds result
    obtain ⟨kept, file, present, rfl⟩ := has_of_edit rfl holds.1 absent result
    refine ⟨kept, ?_⟩
    rw [Disk.raw_put, if_pos rfl, ← holds.2, Disk.raw, present]
    rfl
  refine spec_bind (Q := fun _ => Has (revise table path content)) (spec_step rfl filled ?_)
    fun _ => ?_
  · intro disk choice res after holds result
    obtain ⟨replaced, -⟩ := changing_eq_ok_iff.mp result
    unfold Disk.replace at replaced
    cases present : disk.file temporary with
    | none => simp [present] at replaced
    | some file =>
      simp only [present] at replaced
      split_ifs at replaced
      cases replaced
      have same : file.raw = content := by
        have := holds.2
        rw [Disk.raw, present] at this
        exact Option.some.inj this
      rw [← same]
      exact holds.1.replace absent
  · refine spec_step rfl (fun _ _ _ has => ⟨absent, .inr has⟩) fun disk choice res after has result => ?_
    simp only [diskAct] at result
    split_ifs at result
    cases result
    exact ⟨absent, has⟩

/-- A file out of the table may be removed. -/
theorem spec_unlinkMissingOk {A : Disk → Prop} (path : Text)
    (removed : ∀ disk, A disk → A (disk.remove path)) :
    Spec exposed A (unlinkMissingOk path) (fun _ => A) (fun _ => A) := by
  refine spec_tryCatch (F := fun _ => A) (spec_step rfl (fun _ _ _ holds => holds) ?_) fun error => ?_
  · intro disk choice res after holds result
    obtain ⟨unlinked, -⟩ := changing_eq_ok_iff.mp result
    unfold Disk.unlink at unlinked
    split_ifs at unlinked
    cases unlinked
    exact removed disk holds
  · dsimp only
    split
    · exact spec_pure fun _ holds => holds
    · exact spec_raise fun _ holds => holds

/-- **A replacement revises the entry of its path, or it was not made.** -/
theorem spec_atomicReplaceBytes (path : Text) (content : Bytes) (mode : Nat) :
    Spec exposed (Has table) (atomicReplaceBytes path content mode)
      (fun _ => Has (revise table path content))
      (fun _ disk => Has table disk ∨ Has (revise table path content) disk) := by
  refine spec_bind (Q := fun res disk => table res.made = none ∧ Has table disk)
    (spec_perform rfl (fun _ _ _ has => .inl has) ?_) fun res => ?_
  · intro disk choice res after has result
    simp only [diskAct] at result
    split at result
    · next made =>
        cases result
        obtain ⟨free, -, rfl⟩ := create_eq_ok_iff.mp made
        have absent : table (temporaryPath path choice.name) = none := by
          by_contra present
          obtain ⟨raw, expected⟩ := Option.ne_none_iff_exists'.mp present
          cases (has _ raw expected).symm.trans (raw_eq_none_of_holds free)
        exact ⟨absent, has.put absent _⟩
    · cases result
  · refine spec_tryFinally
      (S := fun _ disk => table res.made = none ∧ Has (revise table path content) disk)
      (F := fun _ => Either table path content res.made)
      (spec_replaceWith path content mode res.made) (fun _ => ?_) fun _ => ?_
    · refine (spec_unlinkMissingOk res.made fun disk holds => ?_).mono (fun _ h => h)
        (fun _ _ holds => holds.2) fun _ _ holds => .inr holds.2
      exact ⟨holds.1, holds.2.remove (revise_eq_none holds.1)⟩
    · refine (spec_unlinkMissingOk res.made fun disk holds => ?_).mono (fun _ h => h)
        (fun _ _ holds => holds.2) fun _ _ holds => holds.2
      exact ⟨holds.1, holds.2.imp (fun has => has.remove holds.1) fun has =>
        has.remove (revise_eq_none holds.1)⟩

end

end AxiomEncode.Cascade
