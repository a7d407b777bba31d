/-
# Apply.JournalSpec -- what the journal reader accepts

The reader run on what the writer writes: an entry, a list of directories and a
whole journal come back as they were, exactly when they pass the checks
(`Journal.Accepted`).
-/
import AxiomEncode.Apply.Journal

namespace AxiomEncode.Apply

open Theory

set_option autoImplicit false

section

variable {host : Host} {checkout : Checkout}
variable {detail : String} {read : Option Text} {index : Nat} {seenPaths seenBackups : List Text}
  {entries : List Entry}

@[simp] theorem demand_eq_ok_iff {condition : Bool} {u : Unit} :
    demand condition detail = .ok u ↔ condition = true :=
  require_eq_ok_iff

@[simp] theorem runtimeError_ne_ok {α : Type} {value : α} :
    runtimeError detail ≠ .ok value := nofun

/-- What the reader asks of one entry. -/
structure Entry.Accepted (host : Host) (checkout : Checkout) (index : Nat)
    (seenPaths seenBackups : List Text) (entry : Entry) : Prop where
  plain : entry.path ≠ [] ∧ isPlainRelative entry.path = true
  canonical : isCanonicalApplyTransactionTarget host checkout (pathParts entry.path) = true
  fresh : entry.path ∉ seenPaths
  mode : entry.mode ≤ 0o777
  oldHex : ∀ digest ∈ entry.oldSha256, isSha256Hex digest = true
  newHex : ∀ digest ∈ entry.newSha256, isSha256Hex digest = true
  backup : ∀ name ∈ entry.backup, name = backupName index ∧ index < 1000000 ∧ name ∉ seenBackups
  existed : entry.existed = entry.oldSha256.isSome ∧ entry.existed = entry.backup.isSome
  delete : entry.delete = entry.newSha256.isNone ∧ (entry.delete = true → entry.existed = true)

theorem readPath_str {path read : Text} :
    readPath host checkout (some (.str path)) = .ok read ↔
      (path ≠ [] ∧ isPlainRelative path = true) ∧
        isCanonicalApplyTransactionTarget host checkout (pathParts path) = true ∧ path = read := by
  simp [readPath, pure, Except.pure]

theorem readMode_int {mode read : Nat} :
    readMode (some (.int mode)) = .ok read ↔ mode ≤ 0o777 ∧ mode = read := by
  unfold readMode
  dsimp only
  split_ifs with small
  · have : mode ≤ 0o777 := by omega
    simp [this]
  · have : ¬ mode ≤ 0o777 := by omega
    simp [this]

theorem readDigest_optionalText {digest : Option Text} {field : String} :
    readDigest (some (optionalText digest)) field = .ok read ↔
      (∀ text ∈ digest, isSha256Hex text = true) ∧ digest = read := by
  cases digest with
  | none => simp [optionalText, readDigest]
  | some text =>
    cases hex : isSha256Hex text <;> simp [optionalText, readDigest, hex]

theorem readBackup_optionalText {backup : Option Text} :
    readBackup (some (optionalText backup)) index = .ok read ↔
      (∀ name ∈ backup, name = backupName index ∧ index < 1000000) ∧ backup = read := by
  cases backup with
  | none => simp [optionalText, readBackup]
  | some name =>
    by_cases named : name = backupName index ∧ index < 1000000
    · simp [optionalText, readBackup, named]
    · simp [optionalText, readBackup, named]

section Members

variable (entry : Entry)

@[simp] theorem get_path : Json.get? entry.members "path" = some (.str entry.path) := rfl

@[simp] theorem get_existed : Json.get? entry.members "existed" = some (.bool entry.existed) := rfl

@[simp] theorem get_mode : Json.get? entry.members "mode" = some (.int entry.mode) := rfl

@[simp] theorem get_delete : Json.get? entry.members "delete" = some (.bool entry.delete) := rfl

@[simp] theorem get_oldSha256 :
    Json.get? entry.members "old_sha256" = some (optionalText entry.oldSha256) := rfl

@[simp] theorem get_newSha256 :
    Json.get? entry.members "new_sha256" = some (optionalText entry.newSha256) := rfl

@[simp] theorem get_backup :
    Json.get? entry.members "backup" = some (optionalText entry.backup) := rfl

@[simp] theorem hasExactly_members : hasExactly entry.members
    ["path", "existed", "mode", "old_sha256", "backup", "delete", "new_sha256"] = true := rfl

end Members

/-- Reading back the JSON of an entry: the entry, if it is acceptable. -/
theorem readEntry_json {entry read : Entry} :
    readEntry host checkout index seenPaths seenBackups entry.json = .ok read ↔
      entry.Accepted host checkout index seenPaths seenBackups ∧ entry = read := by
  have noBackup : entry.backup.any seenBackups.contains = false ↔
      ∀ name ∈ entry.backup, name ∉ seenBackups := by
    cases entry.backup <;> simp
  unfold readEntry Entry.json
  simp only [get_path, get_existed, get_mode, get_delete, get_oldSha256, get_newSha256, get_backup,
    hasExactly_members]
  simp [readPath_str, readMode_int, readDigest_optionalText, readBackup_optionalText, readBool,
    noBackup]
  constructor
  · rintro ⟨⟨plain, canonical⟩, fresh, mode, oldHex, newHex, named, once, old, kept, new, deletes, rfl⟩
    refine ⟨⟨plain, canonical, fresh, mode, oldHex, newHex, ?_, ⟨old, kept⟩, new, ?_⟩, rfl⟩
    · exact fun name member => ⟨(named name member).1, (named name member).2, once name member⟩
    · intro yes
      rcases deletes with no | existed
      · rw [yes] at no
        cases no
      · exact existed
  · rintro ⟨accepted, rfl⟩
    refine ⟨⟨accepted.plain, accepted.canonical⟩, accepted.fresh, accepted.mode, accepted.oldHex,
      accepted.newHex, ?_, ?_, accepted.existed.1, accepted.existed.2, accepted.delete.1, ?_, rfl⟩
    · exact fun name member => ⟨(accepted.backup name member).1, (accepted.backup name member).2.1⟩
    · exact fun name member => (accepted.backup name member).2.2
    · cases yes : entry.delete with
      | false => exact .inl rfl
      | true => exact .inr (accepted.delete.2 yes)

/-- Each entry is acceptable after those before it. -/
def EntriesAccepted (host : Host) (checkout : Checkout) :
    Nat → List Text → List Text → List Entry → Prop
  | _, _, _, [] => True
  | index, seenPaths, seenBackups, entry :: entries =>
    entry.Accepted host checkout index seenPaths seenBackups ∧
      EntriesAccepted host checkout (index + 1) (entry.path :: seenPaths)
        (entry.backup.toList ++ seenBackups) entries

theorem readEntries_json {read : List Entry} :
    readEntries host checkout index seenPaths seenBackups (entries.map Entry.json) = .ok read ↔
      EntriesAccepted host checkout index seenPaths seenBackups entries ∧ entries = read := by
  induction entries generalizing index seenPaths seenBackups read with
  | nil => simp [readEntries, EntriesAccepted]
  | cons entry entries ih =>
    rw [List.map_cons, readEntries, EntriesAccepted]
    simp only [bind_eq_ok_iff, readEntry_json, ih]
    constructor
    · rintro ⟨_, ⟨accepted, rfl⟩, _, ⟨rest, rfl⟩, ⟨⟩⟩
      exact ⟨⟨accepted, rest⟩, rfl⟩
    · rintro ⟨⟨accepted, rest⟩, rfl⟩
      exact ⟨_, ⟨accepted, rfl⟩, _, ⟨rest, rfl⟩, rfl⟩

/-- What the reader asks of the list of directories. -/
structure DirectoriesAccepted (entries : List Entry) (directories : List Text) : Prop where
  few : directories.length ≤ maxApplyTransactionDirectories
  ordered : directories = directoryOrder directories
  plain : ∀ directory ∈ directories,
    pathParts directory ≠ [] ∧ isPlainRelative directory = true
  needed : ∀ directory ∈ directories, ∃ entry ∈ entries, entry.existed = false ∧
    entry.delete = false ∧ directory ∈ parentPaths (pathParts entry.path)
  new : ∀ directory ∈ directories, ∀ entry ∈ entries, entry.existed = true →
    directory ∉ parentPaths (pathParts entry.path)

theorem mapM_text_str (texts : List Text) : (texts.map Json.str).mapM Json.text? = some texts := by
  induction texts with
  | nil => rfl
  | cons text texts ih =>
    rw [List.map_cons, List.mapM_cons, ih]
    rfl

theorem readDirectories_json {directories read : List Text} :
    readDirectories entries (some (.arr (directories.map .str))) = .ok read ↔
      DirectoriesAccepted entries directories ∧ directories = read := by
  unfold readDirectories
  dsimp only
  rw [mapM_text_str]
  by_cases few : directories.length ≤ maxApplyTransactionDirectories
  · simp [few]
    constructor
    · rintro ⟨ordered, safe, rfl⟩
      refine ⟨⟨few, ordered, fun directory member => (safe directory member).1.1, ?_,
        fun directory member => (safe directory member).2⟩, rfl⟩
      intro directory member
      obtain ⟨entry, ⟨listed, new⟩, parent⟩ := (safe directory member).1.2
      exact ⟨entry, listed, new.1, new.2, parent⟩
    · rintro ⟨accepted, rfl⟩
      refine ⟨accepted.ordered, fun directory member => ?_, rfl⟩
      obtain ⟨entry, listed, absent, kept, parent⟩ := accepted.needed directory member
      exact ⟨⟨accepted.plain directory member, entry, ⟨listed, absent, kept⟩, parent⟩,
        accepted.new directory member⟩
  · simp [few]
    exact fun accepted => absurd accepted.few few

/-- What the reader asks of a journal. -/
structure Journal.Accepted (host : Host) (checkout : Checkout) (journal : Journal) : Prop where
  some_ : journal.entries ≠ [] ∧ journal.entries.length ≤ maxApplyTransactionEntries
  entries : EntriesAccepted host checkout 0 [] [] journal.entries
  directories : DirectoriesAccepted journal.entries journal.createdDirectories

@[simp] theorem readState_text (state : JournalState) :
    readState (some (.str state.text)) = .ok state := by
  cases state <;> rfl

section Members

variable (journal : Journal)

@[simp] theorem get_schema :
    Json.get? journal.members "schema" = some (.str applyTransactionSchema) := rfl

@[simp] theorem get_state : Json.get? journal.members "state" = some (.str journal.state.text) :=
  rfl

@[simp] theorem get_entries :
    Json.get? journal.members "entries" = some (.arr (journal.entries.map Entry.json)) := rfl

@[simp] theorem get_createdDirectories : Json.get? journal.members "created_directories" =
    some (.arr (journal.createdDirectories.map .str)) := rfl

@[simp] theorem hasExactly_journal : hasExactly journal.members
    ["schema", "state", "entries", "created_directories"] = true := rfl

end Members

theorem readPayload_json {journal read : Journal} :
    readPayload host checkout journal.json = .ok read ↔
      journal.Accepted host checkout ∧ journal = read := by
  unfold readPayload Journal.json
  simp [readEntries_json, readDirectories_json, Json.text?]
  constructor
  · rintro ⟨⟨nonempty, few⟩, entries, directories, rfl⟩
    exact ⟨⟨⟨nonempty, few⟩, entries, directories⟩, rfl⟩
  · rintro ⟨accepted, rfl⟩
    exact ⟨accepted.some_, accepted.entries, accepted.directories, rfl⟩

theorem isPlain_optionalText (text : Option Text) : (optionalText text).isPlain = true := by
  cases text <;> rfl

theorem isPlain_entry (entry : Entry) : entry.json.isPlain = true := by
  simp [Entry.json, Entry.members, Json.isPlain, Json.membersArePlain, isPlain_optionalText]

theorem isPlain_journal (journal : Journal) : journal.json.isPlain = true := by
  have texts : ∀ texts : List Text, Json.arePlain (texts.map .str) = true := by
    intro texts
    induction texts with
    | nil => rfl
    | cons text texts ih => rw [List.map_cons, Json.arePlain, ih]; rfl
  have entries : ∀ entries : List Entry, Json.arePlain (entries.map Entry.json) = true := by
    intro entries
    induction entries with
    | nil => rfl
    | cons entry entries ih => rw [List.map_cons, Json.arePlain, ih, isPlain_entry]; rfl
  simp [Journal.json, Journal.members, Json.isPlain, Json.membersArePlain, texts, entries]

theorem uniqueKeys_optionalText (text : Option Text) : uniqueKeys (optionalText text) = true := by
  cases text <;> rfl

theorem uniqueKeys_entry (entry : Entry) : uniqueKeys entry.json = true := by
  simp [Entry.json, Entry.members, uniqueKeys, uniqueKeysMembers, uniqueKeys_optionalText]

theorem uniqueKeys_journal (journal : Journal) : uniqueKeys journal.json = true := by
  have texts : ∀ texts : List Text, uniqueKeysItems (texts.map .str) = true := by
    intro texts
    induction texts with
    | nil => rfl
    | cons text texts ih => rw [List.map_cons, uniqueKeysItems, ih]; rfl
  have entries : ∀ entries : List Entry, uniqueKeysItems (entries.map Entry.json) = true := by
    intro entries
    induction entries with
    | nil => rfl
    | cons entry entries ih => rw [List.map_cons, uniqueKeysItems, ih, uniqueKeys_entry]; rfl
  simp [Journal.json, Journal.members, uniqueKeys, uniqueKeysMembers, texts, entries]

/-- **A journal is read back as it was written**, when it is read back at all. -/
theorem readJournal_bytes {journal read : Journal} :
    readJournal host checkout journal.bytes = .ok read ↔
      journal.Accepted host checkout ∧ journal = read := by
  unfold readJournal Journal.bytes
  rw [decodeUtf8_utf8, Option.bind_some, Json.loads_dumps journal.json (isPlain_journal journal)]
  simp [uniqueKeys_journal, readPayload_json]

end

end AxiomEncode.Apply
