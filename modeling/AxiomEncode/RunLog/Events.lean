/-
# RunLog.Events -- the events of a run log and their lines

A `RunLogEvent` is one stage transition of an encoding run.  `toJsonLine` writes it as
one line of JSON with sorted keys and `fromJsonLine` validates a line into an event.
Validation is pydantic's: what it takes for a text or an integer beyond the plain
values is a parameter (`Pydantic`).

An event whose attributes are JSON data is written to one line of printable ASCII and
comes back from it as it was (`fromJsonLine_toJsonLine`).
-/
import AxiomEncode.Theory.JsonLine
import AxiomEncode.Theory.Checks

namespace AxiomEncode.RunLog

open Theory
open Theory.Json (get? asDict dumpsLine sortKeys Payload)

set_option autoImplicit false

abbrev Text := List Char

/-! ## Stages and verdicts -/

def schemaVersion : Text := "axiom_encode.run_log.v1".toList

/-- `STAGE_IDS`, in the order of `PIPELINE_SPEC`. -/
def stageIds : List Text :=
  ["generate", "gate.compile", "gate.grounding", "gate.proof", "gate.ci", "gate.oracle",
    "gate.review", "judge", "apply", "pr", "ci_run", "merge", "oracle_at_merge"].map String.toList

/-- Verdict of a single stage transition. -/
inductive StageStatus where
  | started
  | passed
  | failed
  | skipped
  | error
  | superseded
  deriving DecidableEq

def StageStatus.value : StageStatus → Text
  | .started => "started".toList
  | .passed => "passed".toList
  | .failed => "failed".toList
  | .skipped => "skipped".toList
  | .error => "error".toList
  | .superseded => "superseded".toList

def StageStatus.all : List StageStatus := [.started, .passed, .failed, .skipped, .error, .superseded]

/-- `StageStatus(value)` -/
def StageStatus.ofValue (value : Text) : Option StageStatus :=
  StageStatus.all.find? fun status => status.value = value

theorem StageStatus.ofValue_value (status : StageStatus) :
    StageStatus.ofValue status.value = some status := by
  cases status <;> decide

/-- Severity of a finding. -/
inductive Severity where
  | critical
  | important
  | minor
  | info
  deriving DecidableEq

def Severity.value : Severity → Text
  | .critical => "critical".toList
  | .important => "important".toList
  | .minor => "minor".toList
  | .info => "info".toList

def Severity.all : List Severity := [.critical, .important, .minor, .info]

def Severity.ofValue (value : Text) : Option Severity :=
  Severity.all.find? fun severity => severity.value = value

theorem Severity.ofValue_value (severity : Severity) :
    Severity.ofValue severity.value = some severity := by
  cases severity <;> decide

/-! ## Events -/

structure Finding where
  code : Text
  severity : Severity
  message : Text
  locator : Option Text
  evidence : Option Text
  deriving DecidableEq

structure RunLogEvent where
  eventId : Text
  runId : Text
  seq : Nat
  ts : Text
  stage : Text
  status : StageStatus
  reasonCode : Option Text
  reason : Option Text
  durationMs : Option Nat
  attrs : List (Text × Json)
  findings : List Finding
  /-- `_validate_stage` -/
  declared : stage ∈ stageIds
  deriving DecidableEq

def optionalText : Option Text → Json
  | none => .null
  | some text => .str text

def optionalNat : Option Nat → Json
  | none => .null
  | some value => .int value

/-- `finding.model_dump(mode="json")` -/
def Finding.toDict (finding : Finding) : Json :=
  .obj [("code".toList, .str finding.code), ("severity".toList, .str finding.severity.value),
    ("message".toList, .str finding.message), ("locator".toList, optionalText finding.locator),
    ("evidence".toList, optionalText finding.evidence)]

/-- `to_dict`: the fields in their order, under their wire names. -/
def RunLogEvent.toDict (event : RunLogEvent) : Json :=
  .obj [("schema".toList, .str schemaVersion), ("event_id".toList, .str event.eventId),
    ("run_id".toList, .str event.runId), ("seq".toList, .int event.seq),
    ("ts".toList, .str event.ts), ("stage".toList, .str event.stage),
    ("status".toList, .str event.status.value),
    ("reason_code".toList, optionalText event.reasonCode),
    ("reason".toList, optionalText event.reason),
    ("duration_ms".toList, optionalNat event.durationMs), ("attrs".toList, .obj event.attrs),
    ("findings".toList, .arr (event.findings.map Finding.toDict))]

/-- `to_json_line` -/
def RunLogEvent.toJsonLine (event : RunLogEvent) : Text := dumpsLine event.toDict

/-! ## Validation -/

/-- The part of pydantic that the models use.  A plain text is a text and a plain integer an
integer; what else is taken for one is left open. -/
structure Pydantic where
  str : Json → Option Text
  int : Json → Option Int
  /-- `uuid.uuid4().hex[:16]`, for a dictionary without an identifier. -/
  newId : Text
  str_text : ∀ text, str (.str text) = some text
  int_int : ∀ value, int (.int value) = some value

section Validation

variable (pydantic : Pydantic)

/-- A field with a default. -/
def orDefault {α : Type} (default : α) (read : Json → Option α) : Option Json → Option α
  | none => some default
  | some value => read value

/-- `Optional[...]` -/
def optional {α : Type} (read : Json → Option α) : Json → Option (Option α)
  | .null => some none
  | value => (read value).map some

/-- `Field(ge=0)` -/
def natural (value : Json) : Option Nat := do
  let value ← pydantic.int value
  if 0 ≤ value then some value.toNat else none

/-- `extra="forbid"` -/
def knows (fields : List String) (members : List (Text × Json)) : Bool :=
  members.all fun member => (fields.map String.toList).contains member.1

def severityOf : Json → Option Severity
  | .str text => Severity.ofValue text
  | _ => none

def statusOf : Json → Option StageStatus
  | .str text => StageStatus.ofValue text
  | _ => none

def dictOf : Json → Option (List (Text × Json))
  | .obj members => some members
  | _ => none

/-- `Finding.model_validate` -/
def Finding.fromDict : Json → Option Finding
  | .obj members =>
    if knows ["code", "severity", "message", "locator", "evidence"] members then do
      let code ← (get? members "code").bind pydantic.str
      let severity ← orDefault .info severityOf (get? members "severity")
      let message ← orDefault [] pydantic.str (get? members "message")
      let locator ← orDefault none (optional pydantic.str) (get? members "locator")
      let evidence ← orDefault none (optional pydantic.str) (get? members "evidence")
      some { code, severity, message, locator, evidence }
    else none
  | _ => none

def findingsOf : Json → Option (List Finding)
  | .arr items => items.mapM (Finding.fromDict pydantic)
  | _ => none

def eventFields : List String :=
  ["schema", "event_id", "run_id", "seq", "ts", "stage", "status", "reason_code", "reason",
    "duration_ms", "attrs", "findings"]

/-- `from_dict` -/
def RunLogEvent.fromDict : Json → Option RunLogEvent
  | .obj members =>
    if knows eventFields members then do
      let schema ← orDefault schemaVersion pydantic.str (get? members "schema")
      let eventId ← orDefault pydantic.newId pydantic.str (get? members "event_id")
      let runId ← (get? members "run_id").bind pydantic.str
      let seq ← (get? members "seq").bind (natural pydantic)
      let ts ← (get? members "ts").bind pydantic.str
      let stage ← (get? members "stage").bind pydantic.str
      let status ← (get? members "status").bind statusOf
      let reasonCode ← orDefault none (optional pydantic.str) (get? members "reason_code")
      let reason ← orDefault none (optional pydantic.str) (get? members "reason")
      let durationMs ← orDefault none (optional (natural pydantic)) (get? members "duration_ms")
      let attrs ← orDefault [] dictOf (get? members "attrs")
      let findings ← orDefault [] (findingsOf pydantic) (get? members "findings")
      if declared : stage ∈ stageIds then
        if schema = schemaVersion then
          some { eventId, runId, seq, ts, stage, status, reasonCode, reason, durationMs, attrs,
                 findings, declared }
        else none
      else none
    else none
  | _ => none

/-- `from_json_line` -/
def fromJsonLine (line : Text) : Option RunLogEvent := do
  let value ← Json.loads line
  RunLogEvent.fromDict pydantic (asDict value)

end Validation

/-! ## The round trip -/

/-- The dictionary of a finding, listed in the order of the keys. -/
def Finding.wire (finding : Finding) : Json :=
  .obj [("code".toList, .str finding.code), ("evidence".toList, optionalText finding.evidence),
    ("locator".toList, optionalText finding.locator), ("message".toList, .str finding.message),
    ("severity".toList, .str finding.severity.value)]

/-- The dictionary of an event, listed in the order of the keys at every level. -/
def RunLogEvent.wire (event : RunLogEvent) : Json :=
  .obj [("attrs".toList, .obj event.attrs),
    ("duration_ms".toList, optionalNat event.durationMs), ("event_id".toList, .str event.eventId),
    ("findings".toList, .arr (event.findings.map Finding.wire)),
    ("reason".toList, optionalText event.reason),
    ("reason_code".toList, optionalText event.reasonCode),
    ("run_id".toList, .str event.runId), ("schema".toList, .str schemaVersion),
    ("seq".toList, .int event.seq), ("stage".toList, .str event.stage),
    ("status".toList, .str event.status.value), ("ts".toList, .str event.ts)]

theorem sortKeys_optionalText (text : Option Text) :
    sortKeys (optionalText text) = optionalText text := by
  cases text <;> rfl

theorem sortKeys_optionalNat (value : Option Nat) :
    sortKeys (optionalNat value) = optionalNat value := by
  cases value <;> rfl

theorem sortKeys_finding (finding : Finding) : sortKeys finding.toDict = finding.wire := by
  simp only [Finding.toDict, sortKeys, Json.sortKeysMembers, sortKeys_optionalText]
  rfl

theorem sortKeys_findings (findings : List Finding) :
    Json.sortKeysItems (findings.map Finding.toDict) = findings.map Finding.wire := by
  induction findings with
  | nil => rfl
  | cons finding findings ih => rw [List.map_cons, Json.sortKeysItems, sortKeys_finding, ih, List.map_cons]

/-- The attributes are JSON data. -/
def RunLogEvent.Writable (event : RunLogEvent) : Prop := Payload (.obj event.attrs)

variable {event : RunLogEvent}

theorem sortKeys_toDict (writable : event.Writable) :
    sortKeys event.toDict = event.wire := by
  have attrs := Json.sortKeys_payload _ writable
  rw [RunLogEvent.toDict, sortKeys]
  simp only [Json.sortKeysMembers, sortKeys_optionalText, sortKeys_optionalNat, attrs]
  simp only [sortKeys, sortKeys_findings]
  rfl

theorem payload_optionalText (text : Option Text) : Payload (optionalText text) := by
  cases text <;> trivial

theorem payload_optionalNat (value : Option Nat) : Payload (optionalNat value) := by
  cases value <;> trivial

theorem ordered_of_keys {members : List (Text × Json)}
    (keys : (members.map Prod.fst).Pairwise (· < ·)) : Json.Ordered members :=
  List.pairwise_map.mp keys

theorem payload_finding (finding : Finding) : Payload finding.wire := by
  refine ⟨ordered_of_keys ?_, ?_⟩
  · simp only [List.map]
    decide
  · exact ⟨trivial, payload_optionalText _, payload_optionalText _, trivial, trivial, trivial⟩

theorem payload_findings (findings : List Finding) :
    Json.PayloadItems (findings.map Finding.wire) := by
  induction findings with
  | nil => trivial
  | cons finding findings ih => exact ⟨payload_finding finding, ih⟩

theorem RunLogEvent.payload (writable : event.Writable) :
    Payload event.wire := by
  refine ⟨ordered_of_keys ?_, writable, payload_optionalNat _, trivial, payload_findings _,
    payload_optionalText _, payload_optionalText _, trivial, trivial, trivial, trivial, trivial,
    trivial, trivial⟩
  simp only [List.map]
  decide

section RoundTrip

variable (pydantic : Pydantic)

theorem optional_optionalText (text : Option Text) :
    optional pydantic.str (optionalText text) = some text := by
  cases text with
  | none => rfl
  | some text => simp [optionalText, optional, pydantic.str_text]

theorem optional_optionalNat (value : Option Nat) :
    optional (natural pydantic) (optionalNat value) = some value := by
  cases value with
  | none => rfl
  | some value => simp [optionalNat, optional, natural, pydantic.int_int]

theorem Finding.fromDict_wire (finding : Finding) :
    Finding.fromDict pydantic finding.wire = some finding := by
  have locator := optional_optionalText pydantic finding.locator
  have evidence := optional_optionalText pydantic finding.evidence
  have severity := Severity.ofValue_value finding.severity
  rw [Finding.wire, Finding.fromDict, if_pos (by rfl)]
  simp [get?, List.lookup_cons, orDefault, pydantic.str_text, locator, evidence, severityOf, severity]

theorem findingsOf_wire (findings : List Finding) :
    findingsOf pydantic (.arr (findings.map Finding.wire)) = some findings := by
  have each : (findings.map Finding.wire).mapM (Finding.fromDict pydantic) = some findings := by
    induction findings with
    | nil => rfl
    | cons finding findings ih =>
      rw [List.map_cons, List.mapM_cons, Finding.fromDict_wire, ih]
      rfl
  exact each

theorem RunLogEvent.fromDict_wire (event : RunLogEvent) :
    RunLogEvent.fromDict pydantic event.wire = some event := by
  have status := StageStatus.ofValue_value event.status
  have reason := optional_optionalText pydantic event.reason
  have reasonCode := optional_optionalText pydantic event.reasonCode
  have duration := optional_optionalNat pydantic event.durationMs
  have findings := findingsOf_wire pydantic event.findings
  have declared := event.declared
  rw [RunLogEvent.wire, RunLogEvent.fromDict, if_pos (by rfl)]
  simp [get?, List.lookup_cons, orDefault, pydantic.str_text, reason, reasonCode, duration, findings,
    statusOf, status, dictOf, natural, pydantic.int_int, declared]

/-- **An event comes back from its line as it was.** -/
theorem fromJsonLine_toJsonLine (writable : event.Writable) :
    fromJsonLine pydantic event.toJsonLine = some event := by
  have payload := RunLogEvent.payload writable
  unfold fromJsonLine RunLogEvent.toJsonLine dumpsLine
  rw [sortKeys_toDict writable, Json.loads_line payload]
  simp only [Option.bind_eq_bind, Option.bind_some, Json.asDict_payload _ payload]
  exact RunLogEvent.fromDict_wire pydantic event

end RoundTrip

end AxiomEncode.RunLog
