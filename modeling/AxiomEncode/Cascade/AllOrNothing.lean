/-
# Cascade.AllOrNothing -- a cascade is applied, or taken back

`AllOrNothing` is what a call promises of the disk it leaves: with an answer every importer
has its planned bytes and the report is complete, with an error other than a failed
rollback every file is as it was and a report that was left says `rolled_back`.  Under any
schedule of failures a call keeps it exactly if it was not exposed: a failure while the
report is first written leaves the part of it that was written, which says `prepared` if
it can be read at all.
-/
import AxiomEncode.Cascade.Phases
import Mathlib.Data.List.Dedup

namespace AxiomEncode.Cascade

open Theory Crash

set_option autoImplicit false

/-! ## The status of a report -/

/-- The file is the text of an object with this status. -/
def HasStatus (disk : Disk) (path : Text) (status : String) : Prop :=
  ∃ payload, disk.raw path = some (jsonBytes payload) ∧ Json.isPlain (.obj payload) = true ∧
    Json.get? payload "status" = some (str status)

/-- A reader of the file finds the status. -/
theorem HasStatus.read {disk : Disk} {path : Text} {status : String}
    (shown : HasStatus disk path status) :
    ∃ raw text members, disk.raw path = some raw ∧ decodeUtf8 raw = some text ∧
      Json.loads text = some (.obj members) ∧ Json.get? members "status" = some (str status) := by
  obtain ⟨payload, present, plain, isStatus⟩ := shown
  refine ⟨_, _, _, present, decodeUtf8_utf8 _, Json.loads_dumps _ (Json.isPlain_sortKeys _ plain), ?_⟩
  rw [Json.get?, Json.lookup_insertionSort, Json.lookup_sortKeysMembers,
    show payload.lookup "status".toList = some (str status) from isStatus]
  rfl

/-- No text of one object is a first part of another's. -/
theorem jsonBytes_append_inj {payload other : Record} {rest : Bytes}
    (plain : Json.isPlain (.obj payload) = true) (plain' : Json.isPlain (.obj other) = true)
    (same : jsonBytes payload ++ rest = jsonBytes other) (key : String) :
    (Json.get? payload key).map Json.sortKeys = (Json.get? other key).map Json.sortKeys := by
  obtain ⟨more, longer⟩ := exists_append_of_utf8 same
  have texts : Json.dumps (Json.sortKeys (.obj payload)) ++ '\n' :: more =
      Json.dumps (Json.sortKeys (.obj other)) ++ '\n' :: [] := by
    simpa using longer.symm
  exact Json.sortKeys_obj_inj (Json.dumps_append_inj (Json.isPlain_sortKeys _ plain)
    (Json.isPlain_sortKeys _ plain') texts) key

variable {error : CascadeError}

section

variable (host : Host) (plan : CascadePlan)

theorem isPlain_optionalText (text : Option Text) : Json.isPlain (optionalText text) = true := by
  cases text <;> rfl

theorem isPlain_publicRecord (item : HashOccurrence) :
    Json.isPlain (.obj item.publicRecord) = true := by
  simp [HashOccurrence.publicRecord, Json.isPlain, Json.membersArePlain, str, isPlain_optionalText]

theorem arePlain_map {α : Type} (items : List α) (write : α → Json)
    (plain : ∀ item, Json.isPlain (write item) = true) :
    Json.arePlain (items.map write) = true := by
  induction items with
  | nil => rfl
  | cons item rest ih => rw [List.map_cons, Json.arePlain, plain, ih]; rfl

theorem isPlain_reportPayload (updates : List Update) (status : String) :
    Json.isPlain (.obj (reportPayload host plan updates status)) = true := by
  have files := arePlain_map updates (appliedFile host) fun _ => rfl
  have records := fun items => arePlain_map items (fun item => .obj (HashOccurrence.publicRecord item))
    isPlain_publicRecord
  simp [reportPayload, Json.isPlain, Json.membersArePlain, str, files, records]

theorem isPlain_rollbackPayload (updates : List Update) (failure : CascadeError) :
    Json.isPlain (.obj (rollbackPayload host plan updates failure [])) = true := by
  have plain := Json.membersArePlain_iff.mp (isPlain_reportPayload host plan updates "rolled_back")
  refine Json.membersArePlain_iff.mpr fun entry member => ?_
  obtain member | member := List.mem_append.mp member
  · exact plain entry member
  · simp only [List.mem_cons, List.not_mem_nil, or_false] at member
    obtain rfl | rfl := member <;> rfl

theorem status_reportPayload (updates : List Update) (status : String) :
    Json.get? (reportPayload host plan updates status) "status" = some (str status) := rfl

/-! ## All or nothing -/

/-- Every importer has its planned bytes, every other file those it had, and the report is
complete. -/
structure Applied (report : ReportPath) (before after : Disk) : Prop where
  importers : ∀ path ∈ plan.importers, ∃ original updated, before.raw path = some original ∧
    updatedImporter host plan path original = .ok updated ∧ after.raw path = some updated
  others : ∀ path raw, path ∉ plan.importers → before.raw path = some raw →
    after.raw path = some raw
  complete : HasStatus after report.path "complete"

/-- Every file has the bytes it had, and a report that is left says so. -/
structure RolledBack (report : ReportPath) (before after : Disk) : Prop where
  files : ∀ path raw, before.raw path = some raw → after.raw path = some raw
  reported : after.raw report.path = before.raw report.path ∨
    HasStatus after report.path "rolled_back"

/-- What a call promises of the disk it leaves. -/
def AllOrNothing (report : ReportPath) (before : Disk) : Outcome CascadeError Record → Disk → Prop
  | .done _, after => Applied host plan report before after
  | .raised (.rollbackFailed _), _ => True
  | .raised _, after => RolledBack report before after
  | .killed, _ => True

variable {host plan} {report : ReportPath} {before : Disk}

theorem nodup_importers (plan : CascadePlan) : plan.importers.Nodup :=
  (List.perm_insertionSort _ _).nodup_iff.mpr (List.nodup_dedup _)

variable {updates : List Update} {after : Disk}

/-- The last word on a path is its update, and there is one. -/
theorem installed_of_mem (table : Table) (distinct : (updates.map Update.path).Nodup)
    (present : ∀ update ∈ updates, (table update.path).isSome = true) :
    (∀ path, path ∉ updates.map Update.path → installed table updates path = table path) ∧
      ∀ update ∈ updates, installed table updates update.path = some update.updated := by
  induction updates generalizing table with
  | nil => exact ⟨fun _ _ => rfl, fun _ member => nomatch member⟩
  | cons first rest ih =>
    rw [List.map_cons, List.nodup_cons] at distinct
    have here := present first List.mem_cons_self
    have kept : ∀ update ∈ rest, (revise table first.path first.updated update.path).isSome = true := by
      intro update member
      have found := present update (List.mem_cons_of_mem _ member)
      by_cases same : update.path = first.path
      · rw [same, revise_self here]
        rfl
      · rwa [revise_ne same]
    obtain ⟨others, updated⟩ := ih _ distinct.2 kept
    constructor
    · intro path absent
      rw [List.map_cons, List.mem_cons, not_or] at absent
      exact (others path absent.2).trans (revise_ne absent.1)
    · intro update member
      cases member with
      | head => exact (others first.path distinct.1).trans (revise_self here)
      | tail _ member => exact updated update member

/-- The updates, with the report complete, are the plan applied. -/
theorem applied_of_has {prepared : Bytes} (paths : updates.map Update.path = plan.importers)
    (planned : ∀ update ∈ updates, update.Planned host plan before.raw)
    (absent : before.raw report.path = none)
    (has : Has (revise (installed (withFile before.raw report.path prepared) updates) report.path
      (jsonBytes (reportPayload host plan updates "complete"))) after) :
    Applied host plan report before after := by
  have apart : ∀ {path raw}, before.raw path = some raw → path ≠ report.path := by
    rintro path raw present rfl
    cases absent.symm.trans present
  have kept : ∀ {path raw}, before.raw path = some raw →
      withFile before.raw report.path prepared path = some raw := fun present => by
    rw [withFile, if_neg (apart present), present]
  obtain ⟨others, updated⟩ := installed_of_mem (withFile before.raw report.path prepared)
    (paths ▸ nodup_importers plan) fun update member => by rw [kept (planned update member).1]; rfl
  have listed : ∀ {path}, path ∈ plan.importers → ∃ update ∈ updates, update.path = path := by
    intro path member
    rw [← paths] at member
    exact List.mem_map.mp member
  have unlisted : report.path ∉ updates.map Update.path := by
    rintro member
    obtain ⟨update, member, same⟩ := List.mem_map.mp member
    exact apart (planned update member).1 same
  refine ⟨fun path member => ?_, fun path raw other present => ?_, ?_⟩
  · obtain ⟨update, chosen, rfl⟩ := listed member
    obtain ⟨present, isUpdated⟩ := planned update chosen
    refine ⟨_, _, present, isUpdated, has _ _ ?_⟩
    rw [revise_ne (apart present)]
    exact updated update chosen
  · refine has _ _ ?_
    rw [revise_ne (apart present), others path (paths ▸ other)]
    exact kept present
  · refine ⟨_, has _ _ (revise_self ?_), isPlain_reportPayload host plan updates "complete",
      status_reportPayload host plan updates "complete"⟩
    rw [others _ unlisted, withFile, if_pos rfl]
    rfl

theorem rolledBack_of_has {failure : CascadeError} (absent : before.raw report.path = none)
    (has : Has (withFile before.raw report.path
      (jsonBytes (rollbackPayload host plan updates failure []))) after) :
    RolledBack report before after := by
  refine ⟨fun path raw present => has _ _ ?_, .inr ⟨_, has _ _ (if_pos rfl),
    isPlain_rollbackPayload host plan updates failure, rfl⟩⟩
  rw [withFile, if_neg, present]
  rintro rfl
  cases absent.symm.trans present

/-- The first part of a report that was never taken back is no report of a rollback. -/
theorem not_rolledBack_of_torn
    (torn : Torn before.raw report.path (jsonBytes (reportPayload host plan updates "prepared"))
      after) : ¬ RolledBack report before after := by
  intro rolled
  obtain ⟨absent, n, exactly⟩ := torn
  have present : after.raw report.path =
      some ((jsonBytes (reportPayload host plan updates "prepared")).take n) := by
    rw [show after.raw = _ from exactly, withFile, if_pos rfl]
  obtain same | ⟨payload, holds, plain, isStatus⟩ := rolled.reported
  · cases absent.symm.trans (same.symm.trans present)
  · have part := Option.some.inj (holds.symm.trans present)
    have shown := jsonBytes_append_inj plain (isPlain_reportPayload host plan updates "prepared")
      (part ▸ List.take_append_drop n _) "status"
    rw [isStatus, status_reportPayload] at shown
    have same : "rolled_back".toList = "prepared".toList := Json.str.inj (Option.some.inj shown)
    exact absurd same (by decide)

variable (host plan report) in
/-- A call that raised: nothing is left of it, or it was exposed. -/
def Failed (before : Disk) (error : CascadeError) (world : World diskMachine) : Prop :=
  At False (fun after => (∃ detail, error = .rollbackFailed detail) ∨ RolledBack report before after)
      world ∨
    error.isOs = true ∧ At True (fun after => ∃ updates, Torn before.raw report.path
      (jsonBytes (reportPayload host plan updates "prepared")) after) world

/-- Before the report is created nothing happens to the files. -/
theorem failed_of_exactly {world : World diskMachine}
    (untouched : At False (Exactly before.raw) world) :
    Failed host plan report before error world :=
  .inl ⟨.inr ⟨fun _ _ present => untouched.1.has _ _ present,
    .inl (congrFun untouched.1 report.path)⟩, untouched.2⟩

theorem triple_of_untouched {α : Type} {p : Run α} {Q : α → Disk → Prop}
    (spec : Spec False (Exactly before.raw) p Q fun _ => Exactly before.raw) :
    Triple noKill (At False (Exactly before.raw)) p (fun value => At False (Q value))
      (Failed host plan report before) fun _ => False :=
  Triple.mono spec (fun _ h => h) (fun _ _ h => h) (fun _ _ h => failed_of_exactly h) fun _ h => h

variable (host plan report before) in
/-- **Every way a call can end**, under any failures. -/
theorem triple_applyProofHashCascade :
    Triple noKill (At False (Exactly before.raw)) (applyProofHashCascade host plan report)
      (fun _ => At False (Applied host plan report before)) (Failed host plan report before)
      fun _ => False := by
  refine triple_bind (triple_of_untouched (spec_prepareUpdates host plan report)) fun updates => ?_
  refine Triple.pre (Triple.of_fact (P := At False (Exactly before.raw)) fun planned => ?_)
    fun world h => ⟨h.1.1, h.1.2, h.2⟩
  refine triple_bind (triple_of_untouched (spec_createReportParent report)) fun created => ?_
  refine triple_bind (triple_attempt (triple_writeJsonExclusive report.path
    (jsonBytes (reportPayload host plan updates "prepared")))) fun written => ?_
  cases written with
  | error error =>
    refine Triple.of_or ?_ (Triple.of_fact fun isOs => ?_)
    · exact triple_bind (triple_of_untouched ((spec_removeEmptyDirectories created).mono
        (fun _ exactly => exactly) (fun _ _ exactly => exactly) fun _ _ bad => bad.elim)) fun _ =>
          triple_raise fun _ h => failed_of_exactly h
    · have cleared : Spec True
          (Torn before.raw report.path (jsonBytes (reportPayload host plan updates "prepared")))
          (Prog.bind (removeEmptyDirectories created) fun _ => (Prog.raise error : Run Record))
          (fun _ _ => False)
          (fun error' disk => error' = error ∧ Torn before.raw report.path
            (jsonBytes (reportPayload host plan updates "prepared")) disk) := by
        refine Spec.of_fact fun absent => Spec.of_exists fun n => ?_
        exact spec_bind ((spec_removeEmptyDirectories created).mono (fun _ exactly => exactly)
          (fun _ _ exactly => exactly) fun _ _ bad => bad.elim) fun _ =>
            spec_raise fun _ exactly => ⟨rfl, absent, n, exactly⟩
      exact Triple.mono cleared (fun _ h => h) (fun _ _ h => h.1.elim)
        (fun _ _ h => .inr ⟨h.1.1 ▸ isOs, ⟨updates, h.1.2⟩, h.2⟩) fun _ h => h
  | ok _ =>
    refine Triple.pre (Triple.of_fact (φ := before.raw report.path = none) fun absent => ?_)
      fun world h => ⟨h.1.1, h⟩
    have originals : ∀ update ∈ updates, withFile before.raw report.path
        (jsonBytes (reportPayload host plan updates "prepared")) update.path =
          some update.original := by
      intro update member
      have present := (planned.2 update member).1
      rw [withFile, if_neg, present]
      rintro same
      rw [same, absent] at present
      cases present
    have rest := @spec_applyUpdates False _ host plan report updates originals
      (by rw [withFile, if_pos rfl]; rfl)
    refine Triple.mono rest (fun _ h => ⟨h.1.2.2.has, h.2⟩)
      (fun _ _ h => ⟨applied_of_has planned.1 planned.2 absent h.1, h.2⟩)
      (fun _ _ h => .inl ⟨h.1.imp_right fun rolled => rolled.elim fun _ has =>
        rolledBack_of_has absent (withFile_withFile _ _ _ _ ▸ has), h.2⟩)
      fun _ h => h

/-- **A cascade is applied or taken back, whatever fails, exactly in the runs that no failure of
the first write of the report exposes.** -/
theorem apply_allOrNothing_iff (host : Host) (plan : CascadePlan) (report : ReportPath)
    (before : Disk) (schedule : Schedule diskMachine) (noKills : ∀ event ∈ schedule, event ≠ .kill) :
    AllOrNothing host plan report before
        (applyProofHashCascade host plan report schedule ⟨before, []⟩).1
        (applyProofHashCascade host plan report schedule ⟨before, []⟩).2.2.state ↔
      ¬ Exposed (applyProofHashCascade host plan report schedule ⟨before, []⟩).2.2 := by
  have start : At False (Exactly before.raw) (⟨before, []⟩ : World diskMachine) :=
    ⟨rfl, iff_of_false (by rintro ⟨_, member, _⟩; cases member) not_false⟩
  have ends := triple_applyProofHashCascade host plan report before schedule ⟨before, []⟩ noKills start
  match applyProofHashCascade host plan report schedule ⟨before, []⟩, ends.2 with
  | (.done value, rest, world), holds => exact iff_of_true holds.1 holds.2.mp
  | (.raised error, rest, world), .inl holds =>
    refine iff_of_true ?_ holds.2.mp
    cases error with
    | rollbackFailed detail => trivial
    | _ => exact holds.1.resolve_left (by rintro ⟨_, same⟩; cases same)
  | (.raised error, rest, world), .inr ⟨isOs, ⟨updates, torn⟩, exposed⟩ =>
    refine iff_of_false ?_ (not_not_intro (exposed.mpr trivial))
    cases error with
    | rollbackFailed detail => cases isOs
    | value message => cases isOs
    | _ => exact not_rolledBack_of_torn torn
  | (.killed, rest, world), killed => exact killed.elim

end

/-! ## A cascade of one importer -/

def sampleTarget : Text := "us/statutes/target.yaml".toList
def sampleImporter : Text := "us/statutes/importer.yaml".toList
def sampleReport : ReportPath := ⟨migrationsDirectory, "report.json".toList⟩

/-- SHA-256 of the target as it stands. -/
def sampleTargetSha256 : Text :=
  "3e23e8160039594a33894f6564e1b1348bbd7a0088d42c4acb73eeaed59c009d".toList

/-- What the importer holds: the hash of the target as it was, the letter `a`. -/
def sampleDeclared : Text :=
  "sha256:ca978112ca1bbdcafac231b39a23dc4da786eff8147c4e72b9807785afee48bb".toList

def sampleReplacement : Text := "sha256:".toList ++ sampleTargetSha256

/-- SHA-256 of the target and of the importer, before and after. -/
def sampleDigest (raw : Bytes) : Text :=
  if raw = utf8 ['b'] then sampleTargetSha256
  else if raw = utf8 sampleDeclared then
    "6d8171ef8774947e10b7e48737920a68387284de36e5f0a5d6c6b319837e49f3".toList
  else "55aee54cd73fcb4504fb5a5998061842ad85941f3e9241afad7efa74d1fb5ca4".toList

def samplePlan : CascadePlan where
  baseCommit := "b".toList
  headCommit := "h".toList
  occurrences := [{
    importerPath := sampleImporter, target := "us:statutes/target".toList,
    targetPath := sampleTarget, line := 1, declaredHash := sampleDeclared,
    baseTargetHash := some sampleDeclared, currentTargetHash := some sampleReplacement,
    replacementHash := some sampleReplacement, status := .eligible, startIndex := 0, endIndex := 71,
    scalarStyle := none }]
  importerSha256 := [(sampleImporter, sampleDigest (utf8 sampleDeclared))]

def sampleHost : Host where
  sha256 := sampleDigest
  describe _ := "error".toList
  gitHead := .ok "h".toList
  gitStatus := .ok []
  buildPlan _ _ _ := .ok ⟨"b".toList, "h".toList, [], []⟩

def sampleDisk : Disk where
  files := [(sampleImporter, ⟨utf8 sampleDeclared, 0o644⟩), (sampleTarget, ⟨utf8 ['b'], 0o644⟩)]
  directories := ["us".toList, "us/statutes".toList, ".axiom".toList, migrationsDirectory]

def sampleUpdates : List Update :=
  [⟨sampleImporter, utf8 sampleDeclared, utf8 sampleReplacement, 1⟩]

/-- The sync of the report's directory fails, after the report was written. -/
def sampleFailure : Schedule diskMachine := List.replicate 10 (.go {}) ++ [.fault]

/-- A rename fails: the importer is put back. -/
def sampleRollback : Schedule diskMachine := List.replicate 17 (.go {}) ++ [.fault]

/-- What a call raised. -/
def raisedBy : Outcome CascadeError Record → Option CascadeError
  | .raised error => some error
  | _ => none

theorem eq_raised_of_raisedBy {outcome : Outcome CascadeError Record}
    (raised : raisedBy outcome = some error) : outcome = .raised error := by
  cases outcome with
  | raised other => exact congrArg Outcome.raised (Option.some.inj raised)
  | done value => cases raised
  | killed => cases raised

/-- **The report that no handler takes back**: the call raises, and the report says that it is
about to be applied. -/
theorem apply_leaves_prepared :
    ¬ AllOrNothing sampleHost samplePlan sampleReport sampleDisk
      (applyProofHashCascade sampleHost samplePlan sampleReport sampleFailure ⟨sampleDisk, []⟩).1
      (applyProofHashCascade sampleHost samplePlan sampleReport sampleFailure
        ⟨sampleDisk, []⟩).2.2.state := by
  have raised : (applyProofHashCascade sampleHost samplePlan sampleReport sampleFailure
      ⟨sampleDisk, []⟩).1 = .raised .injected := eq_raised_of_raisedBy (by decide +kernel)
  have left : (applyProofHashCascade sampleHost samplePlan sampleReport sampleFailure
      ⟨sampleDisk, []⟩).2.2.state.raw sampleReport.path =
        some (jsonBytes (reportPayload sampleHost samplePlan sampleUpdates "prepared")) := by
    decide +kernel
  have new : sampleDisk.raw sampleReport.path = none := by decide +kernel
  rw [raised]
  intro rolled
  obtain same | ⟨payload, present, plain, isStatus⟩ := RolledBack.reported rolled
  · cases new.symm.trans (same.symm.trans left)
  · have equal := Option.some.inj (present.symm.trans left)
    rw [← List.append_nil (jsonBytes payload)] at equal
    have shown := jsonBytes_append_inj plain
      (isPlain_reportPayload sampleHost samplePlan sampleUpdates "prepared") equal "status"
    rw [isStatus, status_reportPayload] at shown
    have texts : "rolled_back".toList = "prepared".toList := Json.str.inj (Option.some.inj shown)
    exact absurd texts (by decide)

theorem apply_allOrNothing_sample :
    (∀ event ∈ sampleRollback, event ≠ .kill) ∧
      (AllOrNothing sampleHost samplePlan sampleReport sampleDisk
          (applyProofHashCascade sampleHost samplePlan sampleReport sampleRollback
            ⟨sampleDisk, []⟩).1
          (applyProofHashCascade sampleHost samplePlan sampleReport sampleRollback
            ⟨sampleDisk, []⟩).2.2.state ↔
        ¬ Exposed (applyProofHashCascade sampleHost samplePlan sampleReport sampleRollback
          ⟨sampleDisk, []⟩).2.2) := by
  have noKills : ∀ event ∈ sampleRollback, event ≠ .kill := by
    intro event member
    simp only [sampleRollback, List.mem_append, List.mem_replicate, List.mem_singleton] at member
    rcases member with ⟨-, rfl⟩ | rfl <;> exact nofun
  exact ⟨noKills, apply_allOrNothing_iff sampleHost samplePlan sampleReport sampleDisk
    sampleRollback noKills⟩

end AxiomEncode.Cascade
