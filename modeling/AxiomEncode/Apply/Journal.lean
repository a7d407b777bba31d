/-
# Apply.Journal -- the journal of a transaction, written and read back

The journal is a JSON object of four members; `Journal.bytes` is the file that is
written.  `readJournal` takes nothing on trust: shape, schema, state, every entry
and the list of directories are checked before a journal is used.
-/
import AxiomEncode.Apply.Targets
import AxiomEncode.Theory.Checks
import AxiomEncode.Theory.JsonRoundTrip

namespace AxiomEncode.Apply

open Theory

set_option autoImplicit false

def applyTransactionSchema : Text := "axiom-encode/apply-transaction/v2".toList
def maxApplyTransactionEntries : Nat := 1024
def maxApplyTransactionDirectories : Nat := 8192
def maxApplyTransactionJournalBytes : Nat := 4 * 1024 * 1024
def maxApplyTransactionFileBytes : Nat := 16 * 1024 * 1024
def maxApplyTransactionRecoveryBytes : Nat := 256 * 1024 * 1024

structure Entry where
  path : Text
  existed : Bool
  mode : Nat
  oldSha256 : Option Text
  backup : Option Text
  delete : Bool
  newSha256 : Option Text
  deriving DecidableEq, Repr

inductive JournalState where
  | prepared
  | applying
  | committed
  deriving DecidableEq, Repr

structure Journal where
  state : JournalState
  entries : List Entry
  createdDirectories : List Text
  deriving DecidableEq, Repr

def JournalState.text : JournalState → Text
  | .prepared => "prepared".toList
  | .applying => "applying".toList
  | .committed => "committed".toList

/-! ## Writing -/

def optionalText (text : Option Text) : Json := text.elim .null .str

/-- The members are listed in the order of their keys. -/
def Entry.members (entry : Entry) : List (Text × Json) :=
  [("backup".toList, optionalText entry.backup), ("delete".toList, .bool entry.delete),
    ("existed".toList, .bool entry.existed), ("mode".toList, .int entry.mode),
    ("new_sha256".toList, optionalText entry.newSha256),
    ("old_sha256".toList, optionalText entry.oldSha256), ("path".toList, .str entry.path)]

def Entry.json (entry : Entry) : Json := .obj entry.members

def Journal.members (journal : Journal) : List (Text × Json) :=
  [("created_directories".toList, .arr (journal.createdDirectories.map .str)),
    ("entries".toList, .arr (journal.entries.map Entry.json)),
    ("schema".toList, .str applyTransactionSchema), ("state".toList, .str journal.state.text)]

def Journal.json (journal : Journal) : Json := .obj journal.members

/-- `(json.dumps(dict(journal), indent=2, sort_keys=True) + "\n").encode()` -/
def Journal.bytes (journal : Journal) : Bytes := utf8 (Json.dumps journal.json ++ ['\n'])

/-- `f"{index:06d}.old"` -/
def backupName (index : Nat) : Text :=
  let digits := Nat.toDigits 10 index
  List.replicate (6 - digits.length) '0' ++ digits ++ ".old".toList

/-! ## Reading -/

mutual

/-- No object lists a key twice. -/
def uniqueKeys : Json → Bool
  | .arr items => uniqueKeysItems items
  | .obj members => (members.map Prod.fst).Nodup && uniqueKeysMembers members
  | _ => true

def uniqueKeysItems : List Json → Bool
  | [] => true
  | item :: items => uniqueKeys item && uniqueKeysItems items

def uniqueKeysMembers : List (Text × Json) → Bool
  | [] => true
  | (_, value) :: members => uniqueKeys value && uniqueKeysMembers members

end

def runtimeError {α : Type} (detail : String) : Except ApplyError α :=
  .error (.runtime detail none)

def demand (condition : Bool) (detail : String) : Except ApplyError Unit :=
  require condition (.runtime detail none)

/-- `set(mapping) == {...}`, for an object without duplicate keys. -/
def hasExactly (members : List (Text × Json)) (keys : List String) : Bool :=
  members.length == keys.length && keys.all fun key => (Json.get? members key).isSome

/-- `Path(text).as_posix()` of a relative path. -/
def asPosix (text : Text) : Text :=
  if (pathParts text).isEmpty then ['.'] else posix (pathParts text)

def isAbsolute (text : Text) : Bool := text.head? == some '/'

/-- The text of a relative path that says nothing twice and never goes up. -/
def isPlainRelative (text : Text) : Bool :=
  !isAbsolute text && asPosix text == text && !(pathParts text).contains ['.', '.']

/-- The proper ancestors of a path below the root, as texts. -/
def parentPaths (path : Path) : List Text := (path.dropLast.inits.filter (!·.isEmpty)).map posix

def readBool (value : Option Json) (detail : String) : Except ApplyError Bool :=
  match value with
  | some (.bool value) => .ok value
  | _ => runtimeError detail

def readMode (value : Option Json) : Except ApplyError Nat :=
  match value with
  | some (.int mode) =>
    if 0 ≤ mode ∧ mode ≤ 0o777 then .ok mode.toNat
    else runtimeError "Apply transaction journal mode is invalid"
  | _ => runtimeError "Apply transaction journal mode is invalid"

def readDigest (value : Option Json) (field : String) : Except ApplyError (Option Text) :=
  match value with
  | none | some .null => .ok none
  | some (.str digest) =>
    if isSha256Hex digest then .ok (some digest)
    else runtimeError ("Apply transaction journal " ++ field ++ " is invalid")
  | some _ => runtimeError ("Apply transaction journal " ++ field ++ " is invalid")

def readBackup (value : Option Json) (index : Nat) : Except ApplyError (Option Text) :=
  match value with
  | none | some .null => .ok none
  | some (.str backup) =>
    if backup = backupName index ∧ index < 1000000 then .ok (some backup)
    else runtimeError "Apply transaction journal backup path is invalid"
  | some _ => runtimeError "Apply transaction journal backup path is invalid"

def readPath (host : Host) (checkout : Checkout) (value : Option Json) : Except ApplyError Text :=
  match value with
  | some (.str path) => do
    demand (!path.isEmpty && isPlainRelative path) "Apply transaction journal path is unsafe"
    demand (isCanonicalApplyTransactionTarget host checkout (pathParts path))
      "Apply transaction journal target is not canonical"
    pure path
  | _ => runtimeError "Apply transaction journal path is unsafe"

/-- One entry, against the paths and backups listed before it. -/
def readEntry (host : Host) (checkout : Checkout) (index : Nat)
    (seenPaths seenBackups : List Text) (value : Json) : Except ApplyError Entry :=
  match value with
  | .obj members => do
    demand (hasExactly members
      ["path", "existed", "mode", "old_sha256", "backup", "delete", "new_sha256"])
      "Apply transaction journal entry is malformed"
    let path ← readPath host checkout (Json.get? members "path")
    demand (!seenPaths.contains path) "Apply transaction journal lists a duplicate target"
    let existed ← readBool (Json.get? members "existed")
      "Apply transaction journal existence marker is invalid"
    let mode ← readMode (Json.get? members "mode")
    let delete ← readBool (Json.get? members "delete")
      "Apply transaction journal deletion marker is invalid"
    let oldSha256 ← readDigest (Json.get? members "old_sha256") "old_sha256"
    let newSha256 ← readDigest (Json.get? members "new_sha256") "new_sha256"
    let backup ← readBackup (Json.get? members "backup") index
    demand (!backup.any seenBackups.contains)
      "Apply transaction journal lists a duplicate backup"
    demand (existed == oldSha256.isSome) "Apply transaction journal old state is inconsistent"
    demand (existed == backup.isSome) "Apply transaction journal backup is inconsistent"
    demand (delete == newSha256.isNone) "Apply transaction journal new state is inconsistent"
    demand (!delete || existed) "Apply transaction journal deletes an absent target"
    pure { path, existed, mode, oldSha256, backup, delete, newSha256 }
  | _ => runtimeError "Apply transaction journal entry is malformed"

def readEntries (host : Host) (checkout : Checkout) (index : Nat)
    (seenPaths seenBackups : List Text) : List Json → Except ApplyError (List Entry)
  | [] => .ok []
  | value :: values => do
    let entry ← readEntry host checkout index seenPaths seenBackups value
    let entries ← readEntries host checkout (index + 1) (entry.path :: seenPaths)
      (entry.backup.toList ++ seenBackups) values
    pure (entry :: entries)

/-- `sorted(..., key=lambda item: (len(item.parts), item.as_posix()))` -/
def shallowFirst (count : Text → Nat) (a b : Text) : Bool :=
  count a < count b || (count a == count b && decide (a ≤ b))

/-- `len(Path(text).parts)` -/
def partCount (text : Text) : Nat :=
  (pathParts text).length + if isAbsolute text then 1 else 0

/-- The directories in canonical order: parents first, each one once. -/
def directoryOrder (directories : List Text) : List Text :=
  directories.dedup.mergeSort (shallowFirst partCount)

def readDirectories (entries : List Entry) (value : Option Json) :
    Except ApplyError (List Text) := do
  let directories ←
    match value with
    | some (.arr items) =>
      match items.mapM Json.text? with
      | some directories =>
        if directories.length ≤ maxApplyTransactionDirectories then Except.ok directories
        else runtimeError "Apply transaction journal directory list is invalid"
      | none => runtimeError "Apply transaction journal directory list is invalid"
    | _ => runtimeError "Apply transaction journal directory list is invalid"
  demand (directories == directoryOrder directories)
    "Apply transaction journal directory list is noncanonical"
  let oldFileParentPaths :=
    (entries.filter fun entry => entry.existed).flatMap fun entry => parentPaths (pathParts entry.path)
  let newFileParentPaths :=
    (entries.filter fun entry => !entry.existed && !entry.delete).flatMap fun entry =>
      parentPaths (pathParts entry.path)
  demand (directories.all fun directory =>
      !(pathParts directory).isEmpty && isPlainRelative directory &&
        newFileParentPaths.contains directory && !oldFileParentPaths.contains directory)
    "Apply transaction journal directory path is unsafe"
  pure directories

def readState (value : Option Json) : Except ApplyError JournalState :=
  match [JournalState.prepared, .applying, .committed].find? fun state =>
      (value.bind Json.text?) == some state.text with
  | some state => .ok state
  | none => runtimeError "Apply transaction journal state is invalid"

/-- A decoded journal. -/
def readPayload (host : Host) (checkout : Checkout) (payload : Json) : Except ApplyError Journal :=
  match payload with
  | .obj members => do
    demand (hasExactly members ["schema", "state", "entries", "created_directories"])
      "Apply transaction journal has an unsupported shape"
    demand ((Json.get? members "schema").bind Json.text? == some applyTransactionSchema)
      "Apply transaction journal schema is unsupported"
    let state ← readState (Json.get? members "state")
    match Json.get? members "entries" with
    | some (.arr values) => do
      demand (!values.isEmpty && decide (values.length ≤ maxApplyTransactionEntries))
        "Apply transaction journal has no entries"
      let entries ← readEntries host checkout 0 [] [] values
      let createdDirectories ← readDirectories entries (Json.get? members "created_directories")
      pure { state, entries, createdDirectories }
    | _ => runtimeError "Apply transaction journal has no entries"
  | _ => runtimeError "Apply transaction journal must be an object"

/-- The bytes of a journal. -/
def readJournal (host : Host) (checkout : Checkout) (raw : Bytes) : Except ApplyError Journal :=
  match (decodeUtf8 raw).bind Json.loads with
  | some payload => do
    demand (uniqueKeys payload) "Apply transaction journal is unreadable"
    readPayload host checkout payload
  | none => runtimeError "Apply transaction journal is unreadable"

end AxiomEncode.Apply
