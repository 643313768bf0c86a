import FieldAutomation.Recording.Handle
import FieldAutomation.Recording.Transcript
import FieldAutomation.Report

/-!
# What recorders write to

All recorders of a session share their handles, the traces and the transcript that they write to,
and the log.

* `Backend`: where a recorder writes;
* `Media`: what is shared, with `Media.deliver` for events of recorders, `Media.writeEvent` for
  lines of the transcript, and the operations on the transcript file.
-/

namespace FieldAutomation

/-- Why a recording operation is refused. -/
inductive RecordingError where
  /-- A recorder was opened without a backend. -/
  | nullStream (name : String)
  /-- A recorder was opened that is not freed. -/
  | reinitialized (name : String)
  /-- A stream was configured twice. -/
  | streamReconfigured (name : String)
  /-- The file name was changed while the file is open. -/
  | databaseOpen
  /-- The file cannot be opened or written. -/
  | unwritable
  deriving DecidableEq, Repr

namespace RecordingError

/-- Why, in words. -/
def message : RecordingError → String
  | nullStream name => s!"illegal attempt to open recorder '{name}' on a null stream"
  | reinitialized name => s!"illegal attempt to re-initialize '{name}'"
  | streamReconfigured name => s!"illegal attempt to re-configure stream '{name}'"
  | databaseOpen => "cannot change file name of database while it is open"
  | unwritable => "transcript I/O error"

end RecordingError

/-- Where a recorder writes. -/
inductive Backend where
  /-- A numbered trace in memory, which any number of recorders may share. -/
  | memory (trace : Nat)
  /-- A trace that takes attributes only. -/
  | attributesOnly
  /-- A stream of the transcript. -/
  | transcript (stream : Nat)
  deriving DecidableEq, Repr

/-- What the recorders of a session share. -/
structure Media where
  handles : HandleTable := {}
  /-- The serial number of the next recorder. -/
  nextSerial : Nat := 1
  /-- Events in memory, oldest first, each with the trace that it went to. -/
  delivered : List (Backend × TraceEvent) := []
  transcript : Transcript := { fileName := "tr_db.log" }
  log : List LogEntry := []
  deriving Inhabited

namespace Media

variable (m : Media)

/-- Adds an entry to the log. -/
def logEntry (e : LogEntry) : Media := { m with log := m.log ++ [e] }

/-- Adds an entry of level debug to the log. -/
def logDebug (message : String) (attributes : List (String × String)) : Media :=
  m.logEntry ⟨.debug, message, attributes⟩

/-- The events of a numbered trace, oldest first. -/
def trace (n : Nat) : List TraceEvent :=
  m.delivered.filterMap fun d => if d.1 = .memory n then some d.2 else none

/-- The attributes of a numbered trace, oldest first. -/
def attributes (n : Nat) : List Attribute := (m.trace n).filterMap TraceEvent.attribute?

/-- Forgets the events of a numbered trace. -/
def clearTrace (n : Nat) : Media :=
  { m with delivered := m.delivered.filter (·.1 ≠ .memory n) }

/-- Writes a line to the transcript; a line that is refused is logged. -/
def writeEvent (e : TranscriptEvent) : Media :=
  let (written, transcript) := m.transcript.write (e.line m.transcript.now)
  let m := { m with transcript }
  if written then m else m.logEntry ⟨.warn, "transcript write failed", []⟩

/-- Delivers an event of a recorder to its backend. -/
def deliver (b : Backend) (e : TraceEvent) : Media :=
  match b with
  | .memory _ => { m with delivered := m.delivered ++ [(b, e)] }
  | .attributesOnly =>
    if e.attribute?.isSome then { m with delivered := m.delivered ++ [(b, e)] } else m
  | .transcript stream => m.writeEvent (.trace stream e)

/-! ### The transcript file -/

/-- Opens the transcript file, unless it is open.  `found` is what its name leads to at this moment,
and `none` when it cannot be opened. -/
def openTranscript (found : Option Outlet) : Except RecordingError Unit × Media :=
  if m.transcript.isOpen then (.ok (), m)
  else
    match found with
    | none => (.error .unwritable, m)
    | some outlet =>
      (.ok (), { m with transcript := m.transcript.attach outlet }.logDebug "transcript opened" [])

/-- Closes the transcript file, if it is open.  That fails when a line was held back. -/
def closeTranscript : Except RecordingError Unit × Media :=
  if !m.transcript.isOpen then (.ok (), m)
  else
    let closed := { m with transcript := m.transcript.detach }
    if m.transcript.heldBack then (.error .unwritable, closed)
    else (.ok (), closed.logDebug "transcript closed" [])

/-- Changes the name of the transcript file, unless it is open. -/
def renameTranscript (fileName : String) : Except RecordingError Unit × Media :=
  if m.transcript.isOpen then
    (.error .databaseOpen,
      m.logEntry ⟨.warn, "cannot change file name of an open database",
        [("id", "UVM/TXT_DB/OPEN")]⟩)
  else (.ok (), { m with transcript := { m.transcript with fileName } })

/-- Sets the time of the lines to come. -/
def setTime (now : Nat) : Media := { m with transcript := { m.transcript with now } }

theorem trace_deliver_memory (n : Nat) (e : TraceEvent) :
    (m.deliver (.memory n) e).trace n = m.trace n ++ [e] := by
  simp [deliver, trace]

end Media

end FieldAutomation
