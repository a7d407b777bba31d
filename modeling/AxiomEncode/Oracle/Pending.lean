/-
# Oracle.Pending -- declared oracle debt

`oracle-coverage-pending.yaml` of one checkout: its parser, the reclassification of a
coverage report, the ratchet, and the sync that rewrites the file.  `yaml.safe_load`,
`yaml.safe_dump` and `repr` are parameters; an error is its message.
-/
import AxiomEncode.Theory.TypedYaml
import Mathlib.Data.Char
import Mathlib.Data.List.Lex
import Mathlib.Data.List.Sort

namespace AxiomEncode.Oracle

open Theory Theory.Typed Value

set_option autoImplicit false

abbrev Text := List Char

/-- `PENDING_FILENAME` -/
def pendingFilename : Text := "oracle-coverage-pending.yaml".toList

/-- `PENDING_STATUS` -/
def pendingStatus : Text := "pending_classification".toList

/-- `_UNMAPPED_STATUS` -/
def unmappedStatus : Text := "unmapped".toList

/-- `_ALLOWED_SOURCES`, sorted. -/
def allowedSources : List Text :=
  ["backfill".toList, "bulk".toList, "manual".toList, "migration".toList]

/-- `PendingEntry` -/
structure PendingEntry where
  legalId : Text
  source : Text
  since : Text
  note : Option Text
  repo : Text
  file : Text
  deriving DecidableEq

/-- `PendingFile` -/
structure PendingFile where
  path : Text
  repo : Text
  entries : List PendingEntry
  ceiling : Option Int
  issue : Option Text
  deriving DecidableEq

section Parser

variable (repr : Text → Text)

def text (value : String) : Value := .scalar (.text value.toList)

/-- `_coerce_date` -/
def coerceDate (value : Value) (place : Text) : Except Text Text :=
  match value with
  | .scalar (.time date _ _) => .ok date.isoFormat
  | .scalar (.date date) => .ok date.isoFormat
  | .scalar (.text chars) =>
    if strip chars = [] then .error (place ++ ": since must be a non-empty date".toList)
    else if isIsoDate (strip chars) then .ok (strip chars)
    else
      .error (place ++ ": since must be an ISO date (YYYY-MM-DD), got ".toList ++ repr (strip chars))
  | _ => .error (place ++ ": since must be a non-empty date".toList)

/-- One entry of the file, after the ids that are seen. -/
def parseEntry (place repo itemPlace : Text) (seen : List Text) (raw : Value) :
    Except Text PendingEntry :=
  match raw with
  | .map raw =>
    match field raw "legal_id" with
    | .scalar (.text legalId) =>
      if strip legalId = [] then
        .error (itemPlace ++ ": legal_id must be a non-empty string".toList)
      else if strip legalId ∈ seen then
        .error (itemPlace ++ ": duplicate legal_id ".toList ++ strip legalId)
      else
        match field raw "source" with
        | .scalar (.text source) =>
          if strip source = [] then
            .error (itemPlace ++ ": source must be a non-empty string".toList)
          else if strip source ∉ allowedSources then
            .error (itemPlace ++ ": source ".toList ++ repr (strip source)
              ++ " must be one of ['backfill', 'bulk', 'manual', 'migration']".toList)
          else
            match coerceDate repr (field raw "since") itemPlace with
            | .error problem => .error problem
            | .ok since =>
              match field raw "note" with
              | .scalar .null => .ok ⟨strip legalId, strip source, since, none, repo, place⟩
              | .scalar (.text note) =>
                .ok ⟨strip legalId, strip source, since, some (strip note), repo, place⟩
              | _ => .error (itemPlace ++ ": note must be a string".toList)
        | _ => .error (itemPlace ++ ": source must be a non-empty string".toList)
    | _ => .error (itemPlace ++ ": legal_id must be a non-empty string".toList)
  | _ => .error (itemPlace ++ " must be a mapping".toList)

/-- The entries of the file, the first at `index`. -/
def parseEntries (place repo : Text) : Nat → List Text → List Value → Except Text (List PendingEntry)
  | _, _, [] => .ok []
  | index, seen, raw :: raws =>
    let itemPlace := place ++ ": entries[".toList ++ (toString index).toList ++ "]".toList
    match parseEntry repr place repo itemPlace seen raw with
    | .error problem => .error problem
    | .ok entry =>
      match parseEntries place repo (index + 1) (entry.legalId :: seen) raws with
      | .error problem => .error problem
      | .ok entries => .ok (entry :: entries)

def parseCeiling (path : Text) : Value → Except Text (Option Int)
  | .scalar .null => .ok none
  | .scalar (.int ceiling) =>
    if ceiling < 0 then .error (path ++ ": ceiling must not be negative".toList)
    else .ok (some ceiling)
  | _ => .error (path ++ ": ceiling must be an integer".toList)

def parseIssue (path : Text) : Value → Except Text (Option Text)
  | .scalar .null => .ok none
  | .scalar (.text issue) => .ok (some issue)
  | _ => .error (path ++ ": issue must be a string URL".toList)

def rawEntries (path : Text) : Value → Except Text (List Value)
  | .scalar .null => .ok []
  | .seq raws => .ok raws
  | _ => .error (path ++ ": entries must be a list".toList)

/-- The members of the top level; an empty document has none. -/
def topLevel (path : Text) : Value → Except Text Members
  | .scalar .null => .ok []
  | .map members => .ok members
  | _ => .error (path ++ ": top-level YAML must be a mapping".toList)

/-- `parse_pending_payload` -/
def parsePendingPayload (payload : Value) (path repo : Text) : Except Text PendingFile := do
  let payload ← topLevel path payload
  if alike Scalar.key (field payload "version") (.scalar (.int 1)) = false then
    .error (path ++ ": must set version: 1".toList)
  else do
    let ceiling ← parseCeiling path (field payload "ceiling")
    let issue ← parseIssue path (field payload "issue")
    let raws ← rawEntries path (field payload "entries")
    let entries ← parseEntries repr path repo 0 [] raws
    pure ⟨path, repo, entries, ceiling, issue⟩

end Parser

/-! ## The checkout -/

/-- A canonical checkout, as far as declarations are read from it. -/
structure Checkout where
  path : Text
  name : Text
  canonical : Bool
  /-- `<checkout>/<name>` is a symlink, or a directory. -/
  nestedLink : Bool
  nestedDirectory : Bool
  /-- The declaration is a symlink. -/
  directFileLink : Bool
  nestedFileLink : Bool
  direct : Option Text
  nested : Option Text

/-- Where a declaration may be. -/
inductive Place where
  | direct | nested
  deriving DecidableEq

def Checkout.pathOf (checkout : Checkout) : Place → Text
  | .direct => checkout.path ++ '/' :: pendingFilename
  | .nested => checkout.path ++ '/' :: checkout.name ++ '/' :: pendingFilename

def Checkout.read (checkout : Checkout) : Place → Option Text
  | .direct => checkout.direct
  | .nested => checkout.nested

def Checkout.isLink (checkout : Checkout) : Place → Bool
  | .direct => checkout.directFileLink
  | .nested => checkout.nestedFileLink

def Checkout.write (checkout : Checkout) (content : Text) : Place → Checkout
  | .direct => { checkout with direct := some content }
  | .nested => { checkout with nested := some content }

def Checkout.candidates (checkout : Checkout) : List Place :=
  if checkout.nestedDirectory then [.direct, .nested] else [.direct]

/-- `iter_pending_file_paths` -/
def iterPendingFilePaths (checkout : Checkout) : Except Text (List Place) :=
  if !checkout.canonical then
    .error ("Pending declarations require the exact canonical rulespec-<country> checkout: ".toList
      ++ checkout.path)
  else if checkout.nestedLink then
    .error ("Nested RuleSpec checkout must be a regular directory, not a symlink: ".toList
      ++ checkout.path ++ '/' :: checkout.name)
  else
    match checkout.candidates.find? checkout.isLink with
    | some place =>
      .error ("Pending declaration must be a regular file, not a symlink: ".toList
        ++ checkout.pathOf place)
    | none =>
      let found := checkout.candidates.filter fun place => (checkout.read place).isSome
      if found.length > 1 then
        .error ("Pending declaration is ambiguous; keep exactly one file in the direct or nested ".toList
          ++ "canonical checkout: ".toList ++ [',', ' '].intercalate (found.map checkout.pathOf))
      else .ok found

/-- `read_text`, with universal newlines. -/
def universalNewlines : Text → Text
  | '\r' :: '\n' :: rest => '\n' :: universalNewlines rest
  | '\r' :: rest => '\n' :: universalNewlines rest
  | c :: rest => c :: universalNewlines rest
  | [] => []

section Load

variable (repr : Text → Text) (load : Text → Except Text Value)

/-- `load_pending_file` -/
def loadPendingFile (checkout : Checkout) (place : Place) (content : Text) : Except Text PendingFile :=
  match load (universalNewlines content) with
  | .error problem => .error problem
  | .ok payload => parsePendingPayload repr payload (checkout.pathOf place) checkout.name

/-- `load_pending_files` -/
def loadPendingFiles (checkout : Checkout) : Except Text (List PendingFile) :=
  match iterPendingFilePaths checkout with
  | .error problem => .error problem
  | .ok places =>
    places.mapM fun place => loadPendingFile repr load checkout place ((checkout.read place).getD [])

end Load

/-- The declarations under their ids. -/
abbrev Declared := List (Text × PendingEntry)

/-- `declarations_from_files`, after those that are declared. -/
def declarationsFrom : Declared → List PendingEntry → Except Text Declared
  | declared, [] => .ok declared
  | declared, entry :: entries =>
    match declared.lookup entry.legalId with
    | some existing =>
      .error (entry.file ++ ": legal_id ".toList ++ entry.legalId ++ " is also declared in ".toList
        ++ existing.file)
    | none => declarationsFrom (declared ++ [(entry.legalId, entry)]) entries

/-- `declarations_from_files` -/
def declarationsFromFiles (files : List PendingFile) : Except Text Declared :=
  declarationsFrom [] (files.flatMap PendingFile.entries)

/-! ## The report -/

/-- The provenance that is put on a declared item. -/
structure Provenance where
  source : Text
  since : Text
  repo : Text
  note : Option Text
  deriving DecidableEq

/-- An item of the report. -/
structure Item where
  legalId : Text
  status : Text
  pending : Option Provenance
  others : List (Text × Json)

structure StaleRow where
  legalId : Text
  reason : Text
  repo : Text
  deriving DecidableEq

structure PendingSummary where
  declared : Nat
  applied : List Text
  stale : List StaleRow
  sources : List (Text × Nat)
  deriving DecidableEq

structure Report where
  items : List Item
  statusCounts : List (Text × Nat)
  pending : Option PendingSummary

/-- `dict(sorted(Counter(values).items()))` -/
def counter {α : Type} [LinearOrder α] (values : List α) : List (α × Nat) :=
  (values.dedup.insertionSort (· ≤ ·)).map fun value => (value, values.count value)

/-- A note that is not empty. -/
def PendingEntry.shownNote (entry : PendingEntry) : Option Text :=
  entry.note.filter fun note => note ≠ []

def PendingEntry.provenance (entry : PendingEntry) : Provenance :=
  ⟨entry.source, entry.since, entry.repo, entry.shownNote⟩

/-- An unmapped item that is declared becomes a pending one. -/
def applyTo (declared : Declared) (item : Item) : Item :=
  if item.status = unmappedStatus then
    match declared.lookup item.legalId with
    | some entry => { item with status := pendingStatus, pending := some entry.provenance }
    | none => item
  else item

/-- `apply_pending_to_report` -/
def applyPendingToReport (report : Report) (declared : Declared) : Report :=
  let unmappedIds := (report.items.filter fun item => item.status = unmappedStatus).map Item.legalId
  let presentIds := report.items.map Item.legalId
  let applied := unmappedIds.filter fun legalId => (declared.lookup legalId).isSome
  let items := report.items.map (applyTo declared)
  let stale := (declared.filter fun entry => entry.1 ∉ unmappedIds).map fun entry =>
    (⟨entry.1, if entry.1 ∈ presentIds then "already classified upstream — remove this declaration".toList
      else "output not found (removed or renamed) — remove this declaration".toList,
      entry.2.repo⟩ : StaleRow)
  { items
    statusCounts := if items = [] then report.statusCounts else counter (items.map Item.status)
    pending := some {
      declared := declared.length
      applied := applied.insertionSort (· ≤ ·)
      stale := stale.insertionSort fun a b => a.legalId ≤ b.legalId
      sources := counter (applied.filterMap fun legalId =>
        (declared.lookup legalId).map PendingEntry.source) } }

/-- `ratchet_problems` -/
def ratchetProblems (report : Report) (files : List PendingFile) : List Text :=
  let undeclared := ((report.items.filter fun item => item.status = unmappedStatus).map
    Item.legalId).insertionSort (· ≤ ·)
  undeclared.map (fun legalId =>
      "unmapped output is not declared in ".toList ++ pendingFilename ++ ": ".toList ++ legalId)
    ++ (report.pending.elim [] PendingSummary.stale).map (fun row =>
      pendingFilename ++ " entry is fixed — remove it: ".toList ++ row.legalId ++ " (".toList
        ++ row.reason ++ ")".toList)
    ++ files.filterMap fun file =>
      match file.ceiling with
      | some ceiling =>
        if file.entries.length > ceiling then
          some (file.path ++ ": ".toList ++ (toString file.entries.length).toList
            ++ " entries exceed ceiling ".toList ++ (toString ceiling).toList)
        else none
      | none => none

/-! ## The sync -/

/-- `as_dict` -/
def PendingEntry.asDict (entry : PendingEntry) : Value :=
  .map ([(.text "legal_id".toList, .scalar (.text entry.legalId)),
      (.text "source".toList, .scalar (.text entry.source)),
      (.text "since".toList, .scalar (.text entry.since))]
    ++ entry.shownNote.toList.map fun note => (.text "note".toList, .scalar (.text note)))

/-- What is written of the entries. -/
def pendingPayload (entries : List PendingEntry) (ceiling : Nat) (issue : Option Text) : Value :=
  .map ([(.text "version".toList, .scalar (.int 1))]
    ++ (issue.filter fun issue => issue ≠ []).toList.map
      (fun issue => (.text "issue".toList, .scalar (.text issue)))
    ++ [(.text "ceiling".toList, .scalar (.int ceiling)),
      (.text "entries".toList,
        .seq ((entries.insertionSort fun a b => a.legalId ≤ b.legalId).map PendingEntry.asDict))])

def pendingHeader : Text :=
  ['\n'].intercalate
    ["# Declared oracle-coverage debt: executable RuleSpec outputs awaiting".toList,
      "# classification in axiom-oracles PolicyEngine mappings. The".toList,
      "# oracle-coverage gate treats these as pending_classification (visible,".toList,
      "# counted, accountable) instead of silently unmapped. Ratchets both".toList,
      "# ways: a new unmapped output must be declared here or the gate fails;".toList,
      "# an entry that is no longer unmapped must be removed.".toList,
      "# Maintained by: axiom-encode oracle-coverage-pending sync.".toList]

structure SyncResult where
  path : Text
  count : Nat
  added : List Text
  dropped : List Text
  changed : Bool
  deriving DecidableEq

section Sync

variable (repr : Text → Text) (load : Text → Except Text Value) (dump : Value → Text)

/-- `_dump_pending_file` -/
def dumpPendingFile (entries : List PendingEntry) (ceiling : Nat) (issue : Option Text) : Text :=
  pendingHeader ++ '\n' :: dump (pendingPayload entries ceiling issue)

/-- `_pending_sync_path` -/
def pendingSyncPath (checkout : Checkout) : Except Text Place :=
  match iterPendingFilePaths checkout with
  | .error problem => .error problem
  | .ok (place :: _) => .ok place
  | .ok [] => .ok (if checkout.nestedDirectory then .nested else .direct)

/-- The entry of an id: the one that is declared, or a new one. -/
def entryFor (existing : List PendingEntry) (source since repo file legalId : Text) : PendingEntry :=
  (existing.find? fun entry => entry.legalId = legalId).getD
    ⟨legalId, source, since, none, repo, file⟩

/-- The entries and the issue of the declaration that exists. -/
def existingDeclaration (checkout : Checkout) (place : Place) (issue : Option Text) :
    Except Text (List PendingEntry × Option Text) :=
  match checkout.read place with
  | none => .ok ([], issue)
  | some content => do
    let existing ← loadPendingFile repr load checkout place content
    pure (existing.entries, if issue.isSome then issue else existing.issue)

/-- The declaration with the wanted ids, which is written if it differs from the file. -/
def rewriteDeclaration (checkout : Checkout) (place : Place) (existing : List PendingEntry)
    (issue : Option Text) (unmappedLegalIds : List Text) (source since : Text) :
    Checkout × SyncResult :=
  let wanted := unmappedLegalIds.dedup.insertionSort (· ≤ ·)
  let entries := wanted.map (entryFor existing source since checkout.name (checkout.pathOf place))
  let content := dumpPendingFile dump entries entries.length issue
  let changed : Bool := (checkout.read place).map universalNewlines ≠ some content
  (if changed then checkout.write content place else checkout,
    { path := checkout.pathOf place
      count := entries.length
      added := wanted.filter fun legalId => legalId ∉ existing.map PendingEntry.legalId
      dropped := ((existing.map PendingEntry.legalId).filter (· ∉ wanted)).insertionSort (· ≤ ·)
      changed })

/-- `sync_repo_pending` -/
def syncRepoPending (checkout : Checkout) (unmappedLegalIds : List Text) (source since : Text)
    (issue : Option Text) : Except Text (Checkout × SyncResult) :=
  if !checkout.canonical then
    .error ("Pending sync requires the exact canonical rulespec-<country> checkout: ".toList
      ++ checkout.path)
  else if source ∉ allowedSources then
    .error ("source ".toList ++ repr source
      ++ " must be one of ['backfill', 'bulk', 'manual', 'migration']".toList)
  else do
    let since ← coerceDate repr (.scalar (.text since)) "sync".toList
    let place ← pendingSyncPath checkout
    let (existing, issue) ← existingDeclaration repr load checkout place issue
    pure (rewriteDeclaration dump checkout place existing issue unmappedLegalIds source since)

end Sync

end AxiomEncode.Oracle
