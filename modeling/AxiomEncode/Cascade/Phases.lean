/-
# Cascade.Phases -- preparing, replacing and putting back

Until the report is created no file changes.  From then on the table of what was there,
with the report in it, drifts at the importers that may have been replaced (`Drift`);
restoring them one by one takes the drift back.
-/
import AxiomEncode.Cascade.ApplySpec

namespace AxiomEncode.Cascade

open Theory Crash

set_option autoImplicit false

/-- Every file, and none but those, as the table has it. -/
def Exactly (table : Table) (disk : Disk) : Prop := disk.raw = table

variable {disk : Disk} {path : Text} {raw : Bytes}

theorem Exactly.has {table : Table} (exactly : Exactly table disk) : Has table disk := by
  intro path raw expected
  rwa [show disk.raw = table from exactly]

/-- The table with one more file. -/
def withFile (table : Table) (path : Text) (content : Bytes) : Table := fun other =>
  if other = path then some content else table other

theorem withFile_withFile (table : Table) (path : Text) (content content' : Bytes) :
    withFile (withFile table path content) path content' = withFile table path content' := by
  funext other
  unfold withFile
  split_ifs <;> rfl

section

variable {exposed : Prop} {table : Table}

/-! ## Directories -/

variable {op : DiskOp} {after : Disk}

/-- A step on the directories leaves the files. -/
theorem exactly_of_directories {choice : DiskChoice} {res : DiskRes}
    (exactly : Exactly table disk)
    (directories : (∃ path, op = .mkdir path) ∨ (∃ path, op = .rmdir path) ∨
      ∃ change path, op = .fsyncDirectory change path)
    (result : diskAct op choice disk = .ok (res, after)) : Exactly table after := by
  obtain ⟨path, rfl⟩ | ⟨path, rfl⟩ | ⟨change, path, rfl⟩ := directories
  · obtain ⟨made, -⟩ := changing_eq_ok_iff.mp result
    unfold Disk.mkdir at made
    split_ifs at made
    cases made
    exact exactly
  · obtain ⟨removed, -⟩ := changing_eq_ok_iff.mp result
    unfold Disk.rmdir at removed
    split_ifs at removed
    cases removed
    exact exactly
  · simp only [diskAct] at result
    split_ifs at result
    cases result
    exact exactly

/-- Removing directories raises nothing: what a step raises is swallowed. -/
theorem spec_removeEmptyDirectories (directories : List Text) :
    Spec exposed (Exactly table) (removeEmptyDirectories directories)
      (fun _ => Exactly table) (fun _ _ => False) := by
  induction directories with
  | nil => exact spec_pure fun _ holds => holds
  | cons directory rest ih =>
    have one : Spec exposed (Exactly table)
        (Prog.bind (step (.rmdir directory)) fun _ =>
          step (.fsyncDirectory .removed (parentOf directory)))
        (fun _ => Exactly table)
        (fun error disk => error.isOs = true ∧ Exactly table disk) := by
      refine spec_bind (Q := fun _ => Exactly table) ?_ fun _ => ?_
      · exact spec_step rfl (fun _ _ isOs holds => ⟨isOs, holds⟩) fun _ _ _ _ holds result =>
          exactly_of_directories holds (.inr (.inl ⟨_, rfl⟩)) result
      · exact spec_step rfl (fun _ _ isOs holds => ⟨isOs, holds⟩) fun _ _ _ _ holds result =>
          exactly_of_directories holds (.inr (.inr ⟨_, _, rfl⟩)) result
    refine spec_bind (spec_attempt one) fun removed => ?_
    cases removed with
    | ok value => exact ih
    | error error =>
      refine Spec.of_fact fun isOs => ?_
      dsimp only
      rw [if_pos isOs]
      exact spec_pure fun _ holds => holds

/-- A step on the directories, with what it raises kept. -/
theorem spec_attempt_directories (harmless : firstWrite op = false)
    (directories : (∃ path, op = .mkdir path) ∨ (∃ path, op = .rmdir path) ∨
      ∃ change path, op = .fsyncDirectory change path) {E : CascadeError → Disk → Prop} :
    Spec exposed (Exactly table) (attempt (step op)) (fun _ => Exactly table) E := by
  have one : Spec exposed (Exactly table) (step op) (fun _ => Exactly table)
      (fun _ => Exactly table) :=
    spec_step harmless (fun _ _ _ holds => holds) fun _ _ _ _ holds result =>
      exactly_of_directories holds directories result
  refine (spec_attempt one).mono (fun _ holds => holds) ?_ fun _ _ holds => holds
  rintro (error | value) disk holds
  · exact holds
  · exact holds

theorem spec_makeDirectories (created directories : List Text) :
    Spec exposed (Exactly table) (makeDirectories created directories)
      (fun _ => Exactly table) (fun _ => Exactly table) := by
  have giveUp : ∀ (made : List Text) error,
      Spec exposed (Exactly table)
        (Prog.bind (removeEmptyDirectories made) fun _ => (Prog.raise error : Run (List Text)))
        (fun _ => Exactly table) (fun _ => Exactly table) := fun made error =>
    spec_bind ((spec_removeEmptyDirectories made).mono (fun _ holds => holds) (fun _ _ holds => holds)
      fun _ _ bad => bad.elim) fun _ => spec_raise fun _ holds => holds
  induction directories generalizing created with
  | nil => exact spec_pure fun _ holds => holds
  | cons directory rest ih =>
    refine spec_bind (spec_attempt_directories rfl (.inl ⟨_, rfl⟩)) fun made => ?_
    cases made with
    | error error => exact giveUp created error
    | ok _ =>
      refine spec_bind (spec_attempt_directories rfl (.inr (.inr ⟨_, _, rfl⟩))) fun synced => ?_
      cases synced with
      | error error => exact giveUp (directory :: created) error
      | ok _ => exact ih (directory :: created)

theorem spec_createReportParent (report : ReportPath) :
    Spec exposed (Exactly table) (createReportParent report)
      (fun _ => Exactly table) (fun _ => Exactly table) := by
  refine spec_bind (Q := fun _ => Exactly table) ?_ fun missing => spec_makeDirectories [] _
  exact spec_reading (fun _ _ _ holds => holds) (fun _ _ holds _ => holds) fun _ _ holds _ => holds

/-! ## The first report -/

/-- The report is there and nothing else is new. -/
def Filled (table : Table) (path : Text) (raw : Bytes) (disk : Disk) : Prop :=
  table path = none ∧ disk.isDirectory (parentOf path) = true ∧
    Exactly (withFile table path raw) disk

/-- The report, filled as far as it is. -/
def Begun (table : Table) (path : Text) (content : Bytes) (disk : Disk) : Prop :=
  ∃ n, Filled table path (content.take n) disk

/-- A first part of the report is all that is new. -/
def Torn (table : Table) (path : Text) (content : Bytes) (disk : Disk) : Prop :=
  table path = none ∧ ∃ n, Exactly (withFile table path (content.take n)) disk

theorem Begun.torn {content : Bytes} (begun : Begun table path content disk) :
    Torn table path content disk :=
  begun.elim fun n filled => ⟨filled.1, n, filled.2.2⟩

theorem filled_create {mode : Nat} (exactly : Exactly table disk)
    (created : disk.create path mode = .ok after) : Filled table path [] after := by
  obtain ⟨free, isParent, rfl⟩ := create_eq_ok_iff.mp created
  have absent := raw_eq_none_of_holds free
  rw [show disk.raw = table from exactly] at absent
  refine ⟨absent, isParent, ?_⟩
  funext other
  rw [Disk.raw_put, withFile, show disk.raw = table from exactly]

/-- The report can be edited, and stays where it is. -/
theorem filled_edit (filled : Filled table path raw disk) (change : File → File) {raw' : Bytes}
    (written : ∀ file, file.raw = raw → (change file).raw = raw') :
    ∃ after, disk.edit path change = .ok after ∧ Filled table path raw' after := by
  obtain ⟨absent, isParent, exactly⟩ := filled
  have present : disk.raw path = some raw := by
    rw [show disk.raw = _ from exactly, withFile, if_pos rfl]
  obtain ⟨file, isFile, isRaw⟩ := Option.map_eq_some_iff.mp present
  refine ⟨disk.put path (change file), edit_eq_ok_iff.mpr ⟨file, isFile, rfl⟩, absent, isParent, ?_⟩
  funext other
  rw [Disk.raw_put, withFile]
  split_ifs with here
  · rw [written file isRaw]
  · rw [show disk.raw = _ from exactly, withFile, if_neg here]

/-- **The first write**: the report is whole, or it was not created, or the run was exposed and
a first part of it is left. -/
theorem triple_writeJsonExclusive (path : Text) (content : Bytes) :
    Triple noKill (At False (Exactly table)) (writeJsonExclusive path content)
      (fun _ => At False (Filled table path content))
      (fun error world => At False (Exactly table) world ∨
        error.isOs = true ∧ At True (Torn table path content) world)
      fun _ => False := by
  have later : ∀ {op : DiskOp} {A A' : Disk → Prop}, firstWrite op = true →
      (∀ disk, A disk → Begun table path content disk) →
      (∀ disk choice, A disk → ∃ res after, diskAct op choice disk = .ok (res, after) ∧ A' after) →
      Triple noKill (At False A) (step op) (fun _ => At False A')
        (fun error world => At False (Exactly table) world ∨
          error.isOs = true ∧ At True (Torn table path content) world) fun _ => False := by
    intro op A A' first begun acted
    refine (triple_firstWrite first acted).mono (fun _ h => h) (fun _ _ h => h)
      (fun error world h => .inr ⟨h.1, (begun _ h.2.1).torn, h.2.2⟩) fun _ h => h
  have whole : content.take content.length = content := List.take_length
  refine triple_bind (Q := fun _ => At False (Filled table path [])) ?_ fun _ => ?_
  · have created : Spec False (Exactly table) (step (.create path 0o644))
        (fun _ => Filled table path []) (fun _ => Exactly table) := by
      refine spec_step rfl (fun _ _ _ holds => holds) fun disk choice res after exactly result => ?_
      exact filled_create exactly (changing_eq_ok_iff.mp result).1
    exact Triple.mono created (fun _ h => h) (fun _ _ h => h) (fun _ _ h => .inl h) fun _ h => h
  refine triple_bind (Q := fun _ => At False (Begun table path content))
    (later rfl (fun _ filled => ⟨0, filled⟩) fun disk choice filled => ?_) fun _ => ?_
  · obtain ⟨after, edited, filled'⟩ := filled_edit filled
      (fun file => { file with raw := content.take choice.written }) fun _ _ => rfl
    exact ⟨_, after, by rw [diskAct, edited]; rfl, choice.written, filled'⟩
  refine triple_bind (Q := fun _ => At False (Filled table path content))
    (later rfl (fun _ begun => begun) fun disk choice begun => ?_) fun _ => ?_
  · obtain ⟨n, filled⟩ := begun
    obtain ⟨after, edited, filled'⟩ := filled_edit filled
      (fun file => { file with raw := content }) fun _ _ => rfl
    exact ⟨_, after, by rw [diskAct, edited]; rfl, filled'⟩
  have begun : ∀ disk, Filled table path content disk → Begun table path content disk :=
    fun _ filled => ⟨content.length, by rwa [whole]⟩
  refine triple_bind (Q := fun _ => At False (Filled table path content))
    (later rfl begun fun disk choice filled => ?_) fun _ => ?_
  · obtain ⟨after, edited, filled'⟩ := filled_edit filled id fun _ isRaw => isRaw
    exact ⟨_, after, by rw [diskAct, edited]; rfl, filled'⟩
  · refine later rfl begun fun disk choice filled => ?_
    exact ⟨⟨disk, []⟩, disk, by rw [diskAct, if_pos filled.2.1]; rfl, filled⟩

end

/-! ## Reading what is to be replaced -/

section

variable {exposed : Prop} {table : Table} {E : CascadeError → Disk → Prop} (host : Host)
  (plan : CascadePlan)

/-- An update of an importer of the table. -/
def Update.Planned (table : Table) (update : Update) : Prop :=
  table update.path = some update.original ∧
    updatedImporter host plan update.path update.original = .ok update.updated

theorem readRegularWorktreeFile_eq_ok {label : String}
    (read : readRegularWorktreeFile path label disk = .ok raw) : disk.raw path = some raw := by
  unfold readRegularWorktreeFile at read
  split at read
  · next file present =>
      cases read
      rw [Disk.raw, present]
      rfl
  · split_ifs at read

theorem spec_planUpdates (paths : List Text) :
    Spec exposed (Exactly table) (planUpdates host plan paths)
      (fun updates disk => (updates.map Update.path = paths ∧
        ∀ update ∈ updates, update.Planned host plan table) ∧ Exactly table disk)
      (fun _ => Exactly table) := by
  induction paths with
  | nil => exact spec_pure fun _ holds => ⟨⟨rfl, fun _ member => nomatch member⟩, holds⟩
  | cons path rest ih =>
    refine spec_bind (Q := fun (update : Update) disk =>
      (update.path = path ∧ update.Planned host plan table) ∧ Exactly table disk)
      (spec_reading (fun _ _ _ holds => holds) (fun _ _ holds _ => holds) ?_) fun update => ?_
    · intro update disk exactly answer
      obtain ⟨original, read, answer⟩ := bind_eq_ok_iff.mp answer
      obtain ⟨updated, isUpdated, answer⟩ := bind_eq_ok_iff.mp answer
      cases answer
      have present := readRegularWorktreeFile_eq_ok read
      rw [show disk.raw = table from exactly] at present
      exact ⟨⟨rfl, present, isUpdated⟩, exactly⟩
    · refine Spec.of_fact fun planned => spec_bind ih fun later => ?_
      refine spec_pure fun disk holds => ⟨⟨?_, ?_⟩, holds.2⟩
      · rw [List.map_cons, planned.1, holds.1.1]
      · intro other member
        cases member with
        | head => exact planned.2
        | tail _ member => exact holds.1.2 other member

theorem spec_prepareUpdates (report : ReportPath) :
    Spec exposed (Exactly table) (prepareUpdates host plan report)
      (fun updates disk => (updates.map Update.path = plan.importers ∧
        ∀ update ∈ updates, update.Planned host plan table) ∧ Exactly table disk)
      (fun _ => Exactly table) := by
  have looks : ∀ {what : String} {read : Disk → Except CascadeError Unit},
      Spec exposed (Exactly table) (reading what read) (fun _ => Exactly table)
        (fun _ => Exactly table) :=
    spec_reading (fun _ _ _ holds => holds) (fun _ _ holds _ => holds) fun _ _ holds _ => holds
  refine spec_bind looks fun _ => spec_bind looks fun _ => spec_bind looks fun _ => ?_
  refine spec_bind (spec_planUpdates host plan plan.importers) fun updates => ?_
  refine Spec.of_fact fun planned => spec_bind (Q := fun _ => Exactly table) ?_ fun _ => ?_
  · exact triple_forEach (I := fun _ => At exposed (Exactly table)) plan.eligible
      fun item rest _ => looks
  · exact spec_pure fun _ holds => ⟨planned, holds⟩

end

/-! ## Drifting from what was there, and back -/

/-- The table has what was there, except at importers that may have been replaced and at the
report, where it has something. -/
def Drift (base : Table) (report : Text) (written : List Update) (table : Table) : Prop :=
  ∀ path, table path = base path ∨
    ((∃ update ∈ written, update.path = path) ∨ path = report) ∧ (table path).isSome = true

/-- The updates, one after the other. -/
def installed (table : Table) (updates : List Update) : Table :=
  updates.foldl (fun table update => revise table update.path update.updated) table

/-- What was there, one after the other. -/
def restored (table : Table) (written : List Update) : Table :=
  written.foldl (fun table update => revise table update.path update.original) table

section

variable {base table : Table} {report : Text} {update : Update} {written : List Update}

theorem drift_refl : Drift base report [] base := fun _ => .inl rfl

theorem Drift.weaken (drift : Drift base report written table) (update : Update) :
    Drift base report (update :: written) table := by
  intro path
  obtain same | ⟨other, present⟩ := drift path
  · exact .inl same
  · refine .inr ⟨other.imp_left ?_, present⟩
    rintro ⟨update', member, here⟩
    exact ⟨update', List.mem_cons_of_mem _ member, here⟩

theorem Drift.isSome (drift : Drift base report written table)
    (present : (base path).isSome = true) : (table path).isSome = true := by
  obtain same | ⟨-, found⟩ := drift path
  · rw [same]
    exact present
  · exact found

/-- A replaced importer is one that may have been replaced. -/
theorem Drift.replace (drift : Drift base report written table) (raw : Bytes)
    (present : (base update.path).isSome = true) :
    Drift base report (update :: written) (revise table update.path raw) := by
  intro path
  by_cases here : path = update.path
  · rw [here, revise_self (drift.isSome present)]
    exact .inr ⟨.inl ⟨update, List.mem_cons_self, rfl⟩, rfl⟩
  · rw [revise_ne here]
    exact drift.weaken update path

theorem Drift.restore (drift : Drift base report (update :: written) table)
    (original : base update.path = some update.original) :
    Drift base report written (revise table update.path update.original) := by
  intro path
  by_cases here : path = update.path
  · rw [here, revise_self (drift.isSome (by rw [original]; rfl)), original]
    exact .inl rfl
  · rw [revise_ne here]
    refine (drift path).imp_right fun ⟨other, present⟩ => ⟨other.imp_left ?_, present⟩
    rintro ⟨update', member, rfl⟩
    cases member with
    | head => exact absurd rfl here
    | tail _ member => exact ⟨update', member, rfl⟩

theorem drift_restored (written : List Update) (table : Table)
    (originals : ∀ update ∈ written, base update.path = some update.original)
    (drift : Drift base report written table) : Drift base report [] (restored table written) := by
  induction written generalizing table with
  | nil => exact drift
  | cons update rest ih =>
    refine ih _ (fun other member => originals other (List.mem_cons_of_mem _ member)) ?_
    exact drift.restore (originals update List.mem_cons_self)

/-- Where only the report drifts, a new report makes the table whole. -/
theorem revise_report (drift : Drift base report [] table) (present : (base report).isSome = true)
    (raw : Bytes) : revise table report raw = withFile base report raw := by
  funext path
  by_cases here : path = report
  · rw [here, revise_self (drift.isSome present), withFile, if_pos rfl]
  · rw [revise_ne here, withFile, if_neg here]
    obtain same | ⟨⟨_, absent, _⟩ | bad, _⟩ := drift path
    · exact same
    · cases absent
    · exact absurd bad here

end

/-! ## Replacing and putting back -/

section

variable {exposed : Prop} {base : Table} {report : Text} {E : CascadeError → Disk → Prop}
  (host : Host) (plan : CascadePlan)

theorem spec_stat {table : Table} (path : Text) :
    Spec exposed (Has table) (reading "stat" (statMode path)) (fun _ => Has table)
      (fun _ => Has table) :=
  spec_reading (fun _ _ _ has => has) (fun _ _ has _ => has) fun _ _ has _ => has

theorem spec_installFiles (updates written : List Update) (table : Table)
    (drift : Drift base report written table)
    (present : ∀ update ∈ updates, (base update.path).isSome = true) :
    Spec exposed (Has table) (installFiles written updates)
      (fun result disk => (∀ update ∈ result.1, update ∈ written ∨ update ∈ updates) ∧
        ∃ table', Drift base report result.1 table' ∧
          (result.2 = .ok () → table' = installed table updates) ∧ Has table' disk) E := by
  induction updates generalizing written table with
  | nil =>
    exact spec_pure fun _ has => ⟨fun _ member => .inl member, table, drift, fun _ => rfl, has⟩
  | cons update rest ih =>
    have here := present update List.mem_cons_self
    refine spec_bind (spec_attempt (spec_stat update.path)) fun mode => ?_
    cases mode with
    | error error =>
      refine spec_pure fun _ has => ?_
      exact ⟨fun _ member => .inl member, table, drift, (nomatch ·), has⟩
    | ok mode =>
      refine spec_bind (spec_attempt
        (spec_atomicReplaceBytes update.path update.updated mode)) fun replaced => ?_
      cases replaced with
      | error error =>
        refine spec_pure fun disk has => ⟨fun other member => ?_, ?_⟩
        · rw [List.mem_cons] at member ⊢
          exact member.symm.imp_right .inl
        · obtain has | has := has
          · exact ⟨table, drift.weaken update, (nomatch ·), has⟩
          · exact ⟨_, drift.replace update.updated here, (nomatch ·), has⟩
      | ok _ =>
        refine (ih (update :: written) _ (drift.replace update.updated here)
          fun other member => present other (List.mem_cons_of_mem _ member)).mono
            (fun _ has => has) ?_ fun _ _ holds => holds
        rintro result disk ⟨members, rest⟩
        refine ⟨fun other member => ?_, rest⟩
        obtain before | after := members other member
        · rw [List.mem_cons] at before ⊢
          exact before.symm.imp_right .inl
        · exact .inr (List.mem_cons_of_mem _ after)

/-- Putting the importers back: where nothing failed, everything restored is there. -/
theorem spec_restoreFiles (written : List Update) (table : Table) :
    Spec exposed (Has table) (restoreFiles host written)
      (fun failures disk => failures = [] → Has (restored table written) disk) E := by
  induction written generalizing table with
  | nil => exact spec_pure fun _ has _ => has
  | cons update rest ih =>
    have one : Spec exposed (Has table)
        (Prog.bind (reading "stat" (statMode update.path)) fun mode =>
          atomicReplaceBytes update.path update.original mode)
        (fun _ => Has (revise table update.path update.original)) (fun _ _ => True) :=
      spec_bind ((spec_stat update.path).mono (fun _ has => has) (fun _ _ has => has)
        fun _ _ _ => trivial) fun mode =>
          (spec_atomicReplaceBytes update.path update.original mode).mono (fun _ has => has)
            (fun _ _ has => has) fun _ _ _ => trivial
    refine spec_bind (spec_attempt one) fun result => ?_
    cases result with
    | ok _ => exact spec_bind (ih _) fun later => spec_pure fun _ has => has
    | error error =>
      refine spec_bind (Q := fun _ _ => True) ?_ fun later => spec_pure fun _ _ bad => nomatch bad
      exact (ih fun _ => none).mono (fun disk _ => has_none disk) (fun _ _ _ => trivial)
        fun _ _ holds => holds

/-- The rollback failed, or the files are as they were and the report says so. -/
def TakenBack (base : Table) (report : Text) (updates : List Update) (error : CascadeError)
    (disk : Disk) : Prop :=
  (∃ detail, error = .rollbackFailed detail) ∨
    ∃ failure, Has (withFile base report (jsonBytes (rollbackPayload host plan updates failure [])))
      disk

theorem spec_rollBack (report : ReportPath) (updates written : List Update) (failure : CascadeError)
    (table : Table) (drift : Drift base report.path written table)
    (originals : ∀ update ∈ written, base update.path = some update.original)
    (present : (base report.path).isSome = true) :
    Spec exposed (Has table) (rollBack host plan report updates written failure)
      (fun _ _ => False) (TakenBack host plan base report.path updates) := by
  refine spec_bind (spec_restoreFiles host written table) fun failures => ?_
  by_cases clean : failures = []
  · subst clean
    have back := drift_restored written table originals drift
    refine spec_bind (Q := fun reported disk => reported = .ok () → Has (withFile base report.path
      (jsonBytes (rollbackPayload host plan updates failure []))) disk) ?_ fun reported => ?_
    · have replaced := @spec_atomicReplaceBytes exposed (restored table written) report.path
        (jsonBytes (rollbackPayload host plan updates failure [])) 0o644
      refine (spec_attempt replaced).mono (fun _ has => has rfl) ?_ fun _ _ bad => bad
      rintro (error | _) disk has reported
      · cases reported
      · rwa [revise_report back present] at has
    · cases reported with
      | ok _ => exact spec_raise fun _ has => .inr ⟨failure, has rfl⟩
      | error error => exact spec_raise fun _ _ => .inl ⟨_, rfl⟩
  · refine spec_bind (Q := fun _ _ => True) ?_ fun reported => ?_
    · have replaced := @spec_atomicReplaceBytes exposed (fun _ => none) report.path
        (jsonBytes (rollbackPayload host plan updates failure failures)) 0o644
      exact (spec_attempt replaced).mono (fun disk _ => has_none disk) (fun _ _ _ => trivial)
        fun _ _ bad => bad
    · obtain ⟨head, rest, rfl⟩ := List.exists_cons_of_ne_nil clean
      exact spec_raise fun _ _ => .inl ⟨_, rfl⟩

theorem spec_finishCascade (report : ReportPath) (updates : List Update) (table : Table) :
    Spec exposed (Has table) (finishCascade host plan report updates)
      (fun _ => Has (revise table report.path
        (jsonBytes (reportPayload host plan updates "complete"))))
      (fun _ disk => Has table disk ∨ Has (revise table report.path
        (jsonBytes (reportPayload host plan updates "complete"))) disk) := by
  refine spec_bind (Q := fun _ => Has table) ?_ fun _ => spec_atomicReplaceBytes _ _ _
  exact spec_reading (fun _ _ _ has => .inl has) (fun _ _ has _ => .inl has) fun _ _ has _ => has

/-- **After the first report**: everything is installed and the report complete, or everything
is taken back. -/
theorem spec_applyUpdates (report : ReportPath) (updates : List Update)
    (originals : ∀ update ∈ updates, base update.path = some update.original)
    (present : (base report.path).isSome = true) :
    Spec exposed (Has base) (applyUpdates host plan report updates)
      (fun _ => Has (revise (installed base updates) report.path
        (jsonBytes (reportPayload host plan updates "complete"))))
      (TakenBack host plan base report.path updates) := by
  have some_ : ∀ update ∈ updates, (base update.path).isSome = true := fun update member => by
    rw [originals update member]
    rfl
  have start : Drift base report.path [] base := drift_refl
  refine spec_bind (spec_installFiles updates [] base start some_) fun result => ?_
  obtain ⟨written, result⟩ := result
  refine Spec.of_fact fun members => Spec.of_exists fun table => Spec.of_fact fun drift =>
    Spec.of_fact fun whole => ?_
  have originals' : ∀ update ∈ written, base update.path = some update.original :=
    fun update member => originals update ((members update member).resolve_left (nomatch ·))
  have undo : ∀ failure table', Drift base report.path written table' →
      Spec exposed (Has table') (rollBack host plan report updates written failure)
        (fun _ => Has (revise (installed base updates) report.path
          (jsonBytes (reportPayload host plan updates "complete"))))
        (TakenBack host plan base report.path updates) := fun failure table' drift =>
    (spec_rollBack host plan report updates written failure table' drift originals' present).mono
      (fun _ h => h) (fun _ _ bad => bad.elim) fun _ _ h => h
  cases result with
  | error failure => exact undo failure table drift
  | ok _ =>
    obtain rfl := whole rfl
    refine spec_bind (spec_attempt (spec_finishCascade host plan report updates
      (installed base updates))) fun finished => ?_
    cases finished with
    | ok _ => exact spec_pure fun _ has => has
    | error failure =>
      refine Spec.of_or (undo failure _ drift) (undo failure _ fun path => ?_)
      by_cases here : path = report.path
      · rw [here, revise_self (drift.isSome present)]
        exact .inr ⟨.inr rfl, rfl⟩
      · rw [revise_ne here]
        exact drift path

end

end AxiomEncode.Cascade
