/-
# RunLog.Writer -- appending events and reading them back

The log of a run is one file of bytes.  `RunLogWriter.emit` appends the line of an
event; an append may stop after any number of its bytes, and then either the exception
is swallowed or the process dies and a new writer is opened on the file.  A writer
takes its first sequence number from the lines it finds.  `iterEvents` reads the file.

A run is a list of `Action`s.  Every attempt to append is remembered with what became
of it, so that what is read can be compared with what `emit` returned.
-/
import AxiomEncode.RunLog.Events

namespace AxiomEncode.RunLog

open Theory

set_option autoImplicit false

abbrev Bytes := List UInt8

/-! ## Reading -/

/-- The lines of a file opened as text: LF, CR and CR LF end one. -/
def textLinesFrom (line : Text) : Text → List Text
  | [] => if line.isEmpty then [] else [line]
  | '\r' :: '\n' :: rest => line :: textLinesFrom [] rest
  | c :: rest =>
    if c = '\n' ∨ c = '\r' then line :: textLinesFrom [] rest
    else textLinesFrom (line ++ [c]) rest

def textLines (text : Text) : List Text := textLinesFrom [] text

def isBlankLine (line : Text) : Bool := (strip line).isEmpty

/-- `_existing_event_count`, or nothing for bytes that are no UTF-8. -/
def existingEventCount (file : Bytes) : Option Nat :=
  (decodeUtf8 file).map fun text => (textLines text).countP fun line => !isBlankLine line

section Log

variable (pydantic : Pydantic)

/-- The events of the lines that are not blank, or nothing if one of them is refused. -/
def readEvents : List Text → Option (List RunLogEvent)
  | [] => some []
  | line :: lines =>
    if isBlankLine line then readEvents lines
    else do
      let event ← fromJsonLine pydantic (strip line)
      let events ← readEvents lines
      some (event :: events)

/-- `list(iter_events(path))`, or nothing if it raises. -/
def iterEvents (file : Bytes) : Option (List RunLogEvent) := do
  let text ← decodeUtf8 file
  readEvents pydantic (textLines text)

/-! ## Writing -/

/-- `RunLogWriter` -/
structure Writer where
  runId : Text
  enabled : Bool
  seq : Nat

/-- `RunLogWriter(run_id, enabled=enabled)` on what the file holds. -/
def Writer.onFile (runId : Text) (enabled : Bool) (file : Bytes) : Option Writer :=
  (existingEventCount file).map fun seq => { runId, enabled := enabled && !runId.isEmpty, seq }

/-- JSON data as the attributes of an event, its keys in order. -/
structure Attrs where
  members : List (Text × Json)
  payload : Json.Payload (.obj members)

/-- The arguments of `emit`, with the identifier and the timestamp that the call takes. -/
structure EmitArgs where
  eventId : Text
  ts : Text
  stage : Text
  status : Text
  reasonCode : Option Text
  reason : Option Text
  durationMs : Option Int
  attrs : Option Attrs
  findings : List (Finding ⊕ Json)

/-- A finding, or a dictionary of one. -/
def asFinding : Finding ⊕ Json → Option Finding
  | .inl finding => some finding
  | .inr value => Finding.fromDict pydantic value

def durationOf : Option Int → Option (Option Nat)
  | none => some none
  | some value => if 0 ≤ value then some (some value.toNat) else none

/-- `attrs or {}` -/
def attrsOf : Option Attrs → List (Text × Json)
  | none => []
  | some attrs => attrs.members

/-- The event of a call, or nothing if it is not valid. -/
def buildEvent (runId : Text) (seq : Nat) (args : EmitArgs) : Option RunLogEvent := do
  let status ← StageStatus.ofValue args.status
  let findings ← args.findings.mapM (asFinding pydantic)
  let durationMs ← durationOf args.durationMs
  if declared : args.stage ∈ stageIds then
    some { eventId := args.eventId, runId, seq, ts := args.ts, stage := args.stage, status,
           reasonCode := args.reasonCode, reason := args.reason, durationMs,
           attrs := attrsOf args.attrs, findings, declared }
  else none

/-- The bytes of an event's line, with the line feed. -/
def RunLogEvent.lineBytes (event : RunLogEvent) : Bytes := utf8 (event.toJsonLine ++ ['\n'])

/-- How an append ends. -/
inductive Outcome where
  | completes
  /-- The exception is swallowed and the writer goes on. -/
  | fails (written : Nat)
  /-- The process dies and a new writer is opened. -/
  | dies (written : Nat)

/-- What of a line reaches the file. -/
def Outcome.written (outcome : Outcome) (line : Bytes) : Bytes :=
  match outcome with
  | .completes => line
  | .fails written => line.take written
  | .dies written => line.take written

/-- An event that `emit` tried to append: whether it was returned and what reached the file. -/
structure Attempt where
  event : RunLogEvent
  returned : Bool
  written : Bytes

/-- The whole text of the event reached the file. -/
def Attempt.arrived (attempt : Attempt) : Bool :=
  attempt.event.toJsonLine.length ≤ attempt.written.length

structure Log where
  file : Bytes
  writer : Writer
  attempts : List Attempt

/-- The events whose text reached the file, in order. -/
def Log.arrived (log : Log) : List RunLogEvent :=
  (log.attempts.filter Attempt.arrived).map Attempt.event

inductive Action where
  | emit (args : EmitArgs) (outcome : Outcome)
  | reopen

/-- A new writer on the same run. -/
def Log.reopen (log : Log) : Option Log :=
  (Writer.onFile log.writer.runId log.writer.enabled log.file).map fun writer => { log with writer }

/-- The event that a call appends: none if the writer is disabled or the call is not valid. -/
def Log.appended (log : Log) (args : EmitArgs) : Option RunLogEvent :=
  if log.writer.enabled then buildEvent pydantic log.writer.runId log.writer.seq args else none

/-- The append of one event. -/
def Log.append (log : Log) (event : RunLogEvent) (outcome : Outcome) : Option Log :=
  let written := outcome.written event.lineBytes
  let file := log.file ++ written
  match outcome with
  | .completes => some { file, writer := { log.writer with seq := log.writer.seq + 1 },
                         attempts := log.attempts ++ [⟨event, true, written⟩] }
  | .fails _ => some { log with file, attempts := log.attempts ++ [⟨event, false, written⟩] }
  | .dies _ => Log.reopen { log with file, attempts := log.attempts ++ [⟨event, false, written⟩] }

/-- One action; nothing if opening the writer raises. -/
def Log.step (log : Log) : Action → Option Log
  | .reopen => log.reopen
  | .emit args outcome =>
    match log.appended pydantic args with
    | some event => log.append event outcome
    | none =>
      match outcome with
      | .dies _ => log.reopen
      | _ => some log

/-- A writer on a run that has no log yet. -/
def Log.start (runId : Text) (enabled : Bool) : Log where
  file := []
  writer := { runId, enabled := enabled && !runId.isEmpty, seq := 0 }
  attempts := []

/-! ## What is said of a log -/

/-- The reader raises nothing and yields the events that `emit` returned, with at most others whose
text reached the file, in order and with strictly increasing numbers. -/
structure Log.Intact (log : Log) : Prop where
  read : iterEvents pydantic log.file = some log.arrived
  returned : ∀ attempt ∈ log.attempts, attempt.returned = true → attempt.arrived = true
  increasing : (log.arrived.map RunLogEvent.seq).Pairwise (· < ·)

/-- Intact after every action of a run, and no writer fails to open. -/
def Log.StaysIntact (log : Log) : List Action → Prop
  | [] => log.Intact pydantic
  | action :: actions => log.Intact pydantic ∧
      ∃ next, log.step pydantic action = some next ∧ next.StaysIntact actions

/-- The file is empty or ends a line. -/
def Terminated (file : Bytes) : Prop := file = [] ∨ file.getLast? = some 10

/-- An action that leaves nothing torn: what it appends is nothing, or the whole text of an event
behind the end of a line by a writer that has counted every event of the file. -/
def Log.Safe (log : Log) : Action → Prop
  | .reopen => True
  | .emit args outcome => ∀ event ∈ log.appended pydantic args,
      outcome.written event.lineBytes = [] ∨
        (Terminated log.file ∧ existingEventCount log.file = some log.writer.seq ∧
          event.toJsonLine.length ≤ (outcome.written event.lineBytes).length)

/-- Every action of a run is safe in the log it meets. -/
def Log.StaysSafe (log : Log) : List Action → Prop
  | [] => True
  | action :: actions => log.Safe pydantic action ∧
      ∀ next, log.step pydantic action = some next → next.StaysSafe actions

end Log

end AxiomEncode.RunLog
