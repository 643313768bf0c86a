import FieldAutomation.Recording.Media
import FieldAutomation.Scope
import FieldAutomation.Settings
import FieldAutomation.VisitSet

/-!
# Recorders

A recorder captures the fields of one transaction.  It is opened on a backend, closed, and freed,
after which it may be opened again; freeing an open recorder closes it first.  While it is open or
closed it has a handle and a backend, and its fields become attributes there.

* `Recorder`: the state of one recorder;
* `Recording`: a recorder together with the media that it shares with others;
* `Recording.openOn`, `Recording.close`, `Recording.free`: the life of a recorder;
* `Recording.emit` and the `record` functions: its fields.

Main statements: `Recording.close_of_not_open`, `Recording.free_of_freed`,
`Recording.emit_of_no_backend` (calls out of turn change nothing).
-/

namespace FieldAutomation

/-- The stage of life of a recorder. -/
inductive RecorderState where
  | freed
  | opened
  | closed
  deriving DecidableEq, Repr, Inhabited

/-- What a probe field notes about a recorder that passes it. -/
structure RecordNote where
  path : String
  /-- How many objects are being recorded, one within the other. -/
  depth : Nat
  deriving DecidableEq, Repr

/-- A recorder. -/
structure Recorder where
  /-- Tells recorders apart. -/
  serial : Nat
  name : String
  settings : RecorderSettings := {}
  state : RecorderState := .freed
  openTime : Nat := 0
  closeTime : Nat := 0
  typeName : String := ""
  backend : Option Backend := none
  scope : Scope := {}
  visits : VisitSet := {}
  /-- How many objects are being recorded, one within the other. -/
  depth : Nat := 0
  reporter : Reporter := {}
  /-- Notes of probe fields, oldest first. -/
  notes : List RecordNote := []
  deriving Inhabited

/-- A recorder and the media that it shares with others. -/
structure Recording where
  recorder : Recorder
  media : Media
  deriving Inhabited

namespace Media

/-- The handle of a recorder, which is handed out if it has none; 0 when it is freed. -/
def acquireHandle (m : Media) (r : Recorder) : Nat × Media :=
  match r.state with
  | .freed => (0, m)
  | _ =>
    let (handle, handles) := m.handles.acquire r.serial r.name r.typeName r.openTime
    (handle, { m with handles })

/-- The handle that a recorder is told when it asks. -/
def handleOf (m : Media) (r : Recorder) : Nat := (m.acquireHandle r).1

/-- The recorder that a handle stands for. -/
def fromHandle (m : Media) (handle : Nat) : Option RecorderInfo :=
  if handle = 0 then none else m.handles.find? handle

/-- A new recorder. -/
def newRecorder (m : Media) (name : String) (settings : RecorderSettings)
    (maxVerbosity : Verbosity) : Recording where
  recorder := { serial := m.nextSerial, name, settings, reporter := { maxVerbosity } }
  media := { m with nextSerial := m.nextSerial + 1 }

/-- Gives up a recorder: its handle is taken back, and nobody is told. -/
def dropRecorder (m : Media) (r : Recorder) : Media :=
  { m with handles := m.handles.release r.serial }

end Media

namespace Recording

variable (s : Recording)

/-- The handle of the recorder, which is handed out if it has none. -/
def acquireHandle : Nat × Recording :=
  let (handle, media) := s.media.acquireHandle s.recorder
  (handle, { s with media })

/-- The handle that the recorder is told when it asks. -/
def handle : Nat := s.media.handleOf s.recorder

/-- Adds an entry of level debug to the log. -/
def logDebug (message : String) (attributes : List (String × String)) : Recording :=
  { s with media := s.media.logDebug message attributes }

/-- Makes a report, which the log shows if it is kept. -/
def report (r : Report) : Recording :=
  { recorder := { s.recorder with reporter := s.recorder.reporter.report r }
    media := if s.recorder.reporter.accepts r then s.media.logEntry r.logEntry else s.media }

/-- Delivers an event to the backend, if there is one. -/
def deliver (e : TraceEvent) : Recording :=
  match s.recorder.backend with
  | none => s
  | some b => { s with media := s.media.deliver b e }

/-! ### The life of a recorder -/

/-- Reports why the recorder cannot be opened. -/
def refuse (id : String) (e : RecordingError) : Except RecordingError Unit × Recording :=
  (.error e, s.report ⟨.error, .none, id, e.message⟩)

/-- Opens the recorder on a backend. -/
def openOn (backend : Option Backend) (time : Nat) (typeName : String) :
    Except RecordingError Unit × Recording :=
  match backend with
  | none => s.refuse "UVM/REC/NULL_STREAM" (.nullStream s.recorder.name)
  | some b =>
    if s.recorder.state ≠ .freed then
      s.refuse "UVM/REC/RE_INIT" (.reinitialized s.recorder.name)
    else
      let r :=
        { s.recorder with
          backend := some b, state := .opened, openTime := time, closeTime := 0, typeName }
      let (handle, s) := Recording.acquireHandle ⟨r, s.media⟩
      let s := s.logDebug "recorder opened"
        [("handle", toString handle), ("name", r.name), ("open_time", toString time)]
      (.ok (), s.deliver (.opened handle r.name time typeName))

/-- Closes the recorder if it is open. -/
def close (time : Nat) : Recording :=
  match s.recorder.state with
  | .opened =>
    let (handle, s) := s.acquireHandle
    let s := s.deliver (.closed handle time)
    { s with recorder := { s.recorder with closeTime := time, state := .closed } }.logDebug
      "recorder closed" [("handle", toString handle), ("close_time", toString time)]
  | _ => s

/-- Frees the recorder, which is closed first if it is open. -/
def free (time : Nat) : Recording :=
  match s.recorder.state with
  | .freed => s
  | _ =>
    let (handle, s) := (s.close time).acquireHandle
    let s := s.deliver (.freed handle time)
    let r :=
      { s.recorder with backend := none, state := .freed, scope := s.recorder.scope.clear }
    Recording.logDebug ⟨r, s.media.dropRecorder r⟩ "recorder freed" [("handle", toString handle)]

/-! ### Fields -/

/-- Records an attribute at the current path. -/
def emit (name value : String) (radix : Radix) (bits : Nat) (typeName : Option String) :
    Recording :=
  match s.recorder.backend with
  | none => s
  | some _ =>
    let (handle, s) := s.acquireHandle
    let scope := s.recorder.scope.setPending name
    let s := { s with recorder := { s.recorder with scope := scope.unsetPending name } }
    s.deliver (.recorded ⟨handle, scope.path, value, radix, bits, typeName⟩)

/-- The radix of a field that may name none. -/
def resolve (radix : Radix) : Radix :=
  if radix = .noRadix then s.recorder.settings.defaultRadix else radix

/-- Records the low `size` bits of a number. -/
def recordNumber (name : String) (v size : Nat) (radix : Radix) : Recording :=
  let radix := s.resolve radix
  s.emit name (radix.render v size) radix size none

/-- Records a real number. -/
def recordReal (name : String) (x : Binary64) : Recording := s.emit name x.text .real 64 none

/-- Records a string. -/
def recordString (name text : String) : Recording :=
  s.emit name text .string (text.utf8ByteSize * 8) none

/-- Records a time. -/
def recordTime (name : String) (time : Nat) : Recording := s.emit name (toString time) .time 64 none

/-- Records a text of a declared type. -/
def recordGeneric (name text typeName : String) : Recording :=
  s.emit name text .string (text.utf8ByteSize * 8) (some typeName)

/-! ### Calls out of turn -/

variable {s}

theorem close_of_not_open (time : Nat) (h : s.recorder.state ≠ .opened) : s.close time = s := by
  unfold close
  split
  · contradiction
  · rfl

theorem free_of_freed (time : Nat) (h : s.recorder.state = .freed) : s.free time = s := by
  simp [free, h]

theorem emit_of_no_backend (name value : String) (radix : Radix) (bits : Nat)
    (typeName : Option String) (h : s.recorder.backend = none) :
    s.emit name value radix bits typeName = s := by
  simp [emit, h]

end Recording

end FieldAutomation
