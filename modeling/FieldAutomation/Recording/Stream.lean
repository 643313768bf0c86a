import FieldAutomation.Recording.Recorder

/-!
# Streams of the transcript

A stream groups recorders in the transcript.  It is configured once, which opens the transcript
file if need be and gives the stream its handle; while it is open recorders can be opened on it.

* `TextStream`: the state of one stream;
* `TextStream.configure`, `TextStream.openRecorder`, `TextStream.close`, `TextStream.free`.

Main statements: `TextStream.configure_of_configured`, `TextStream.openRecorder_of_not_open` (calls
out of turn change nothing but the log).
-/

namespace FieldAutomation

/-- The stage of life of a stream. -/
inductive StreamState where
  | unconfigured
  | opened
  | closed
  | freed
  deriving DecidableEq, Repr, Inhabited

/-- A stream of the transcript. -/
structure TextStream where
  name : String := ""
  scope : String := ""
  typeName : String := ""
  /-- The handle, kept when the stream is freed. -/
  number : Nat := 0
  state : StreamState := .unconfigured
  deriving DecidableEq, Repr, Inhabited

namespace TextStream

variable (t : TextStream) (m : Media)

/-- The handle of a stream; 0 before it is configured and after it is freed. -/
def handle : Nat :=
  match t.state with
  | .unconfigured | .freed => 0
  | _ => t.number

/-- Names the stream and writes its line.  `found` is what is found when the transcript file has to
be opened for this. -/
def configure (name scope typeName : String) (found : Option Outlet) :
    Except RecordingError TextStream × Media :=
  if t.state ≠ .unconfigured then
    let e := RecordingError.streamReconfigured t.name
    (.error e, m.logEntry ⟨.error, e.message, [("id", "UVM/REC_STR/RE_CFG")]⟩)
  else
    match m.openTranscript found with
    | (.error e, m) => (.error e, m)
    | (.ok (), m) =>
      let number := m.transcript.lastStream + 1
      let m := { m with transcript := { m.transcript with lastStream := number } }
      (.ok { name, scope, typeName, number, state := .opened },
        m.writeEvent (.stream number name typeName scope))

/-- A new recorder, opened on the stream; `none` unless the stream is open. -/
def openRecorder (name : String) (time : Nat) (typeName : String) : Option Recording :=
  match t.state with
  | .opened =>
    some ((m.newRecorder name {} .medium).openOn (some (.transcript t.number)) time typeName).2
  | _ => none

/-- Closes the stream if it is open. -/
def close : TextStream :=
  match t.state with
  | .opened => { t with state := .closed }
  | _ => t

/-- Frees the stream. -/
def free : TextStream := { t with state := .freed }

variable {t m}

/-- A stream that was configured is not configured again, and somebody is told. -/
theorem configure_of_configured (name scope typeName : String) (found : Option Outlet)
    (h : t.state ≠ .unconfigured) :
    t.configure m name scope typeName found =
      (.error (.streamReconfigured t.name),
        m.logEntry ⟨.error, (RecordingError.streamReconfigured t.name).message,
          [("id", "UVM/REC_STR/RE_CFG")]⟩) := by
  simp only [configure, h, ne_eq, not_false_eq_true, if_true]

theorem openRecorder_of_not_open (name : String) (time : Nat) (typeName : String)
    (h : t.state ≠ .opened) : t.openRecorder m name time typeName = none := by
  unfold openRecorder
  split
  · contradiction
  · rfl

end TextStream

end FieldAutomation
