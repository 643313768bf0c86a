import FieldAutomation.Recording.Objects
import FieldAutomation.Recording.Stream

/-!
# The recording bench

A bench holds numbered recorders and streams, the objects to be recorded, and the media that they
share.  What happens on it is a sequence of commands.  A command that may have to open the
transcript file comes with what is found then.

* `Bench`, `Command`, `Reply`;
* `Bench.step`: one command; `Bench.run`: commands in order.

Main statement: `Bench.run_cons`.
-/

namespace FieldAutomation

/-- What can be done on a bench. -/
inductive Command where
  /-- Puts a new recorder into a slot. -/
  | create (slot : Nat) (name : String) (settings : RecorderSettings) (maxVerbosity : Verbosity)
  | openOn (slot : Nat) (backend : Option Backend) (time : Nat) (typeName : String)
  | close (slot time : Nat)
  | free (slot time : Nat)
  /-- Gives up the recorder in a slot. -/
  | drop (slot : Nat)
  | configure (slot : Nat) (settings : RecorderSettings)
  | move (slot : Nat) (move : Scope.Move)
  | number (slot : Nat) (name : String) (v size : Nat) (radix : Radix)
  | real (slot : Nat) (name : String) (x : Binary64)
  | string (slot : Nat) (name text : String)
  | time (slot : Nat) (name : String) (time : Nat)
  | generic (slot : Nat) (name text typeName : String)
  /-- Records an object under a name. -/
  | object (slot : Nat) (name : String) (target : Option ObjectRef)
  /-- Records the fields of an object. -/
  | record (slot : Nat) (object : ObjectRef)
  | clearTrace (trace : Nat)
  | openTranscript (found : Option Outlet)
  | closeTranscript
  | renameTranscript (fileName : String)
  | setTime (now : Nat)
  /-- Puts a new stream into a slot. -/
  | openStream (slot : Nat) (name scope typeName : String) (found : Option Outlet)
  | configureStream (slot : Nat) (name scope typeName : String) (found : Option Outlet)
  | closeStream (slot : Nat)
  | freeStream (slot : Nat)
  /-- Puts a new recorder into a slot, opened on a stream. -/
  | openOnStream (slot stream : Nat) (name : String) (time : Nat) (typeName : String)
  /-- Relates two recorders in the transcript. -/
  | link (left right : Nat) (relation : String)
  /-- Asks the recorder in a slot for its handle. -/
  | handle (slot : Nat)
  /-- Asks which recorder has a handle. -/
  | lookUp (handle : Nat)
  deriving DecidableEq

/-- How a command ends. -/
inductive Reply where
  /-- There is nothing to say. -/
  | done
  | ok
  | refused (e : RecordingError)
  /-- There is no recorder. -/
  | absent
  | handle (handle : Nat)
  | found (info : RecorderInfo)
  deriving DecidableEq, Repr

namespace Reply

/-- The reply to an operation that can be refused. -/
def ofExcept {α : Type} : Except RecordingError α → Reply
  | .ok _ => ok
  | .error e => refused e

end Reply

/-- Recorders, streams, objects, and the media they share. -/
structure Bench where
  graph : ObjectGraph := {}
  recorders : Slots Recorder := {}
  streams : Slots TextStream := {}
  media : Media := {}
  deriving Inhabited

namespace Bench

variable (b : Bench)

/-- Puts a recorder into a slot; one that was there is given up. -/
def install (slot : Nat) (s : Recording) : Bench :=
  { b with
    recorders := b.recorders.put slot s.recorder
    media := (b.recorders.find? slot).elim s.media s.media.dropRecorder }

/-- Does something to the recorder in a slot, if there is one. -/
def onRecorder (slot : Nat) (f : Recording → Recording) : Bench :=
  match b.recorders.find? slot with
  | none => b
  | some r =>
    let s := f ⟨r, b.media⟩
    { b with recorders := b.recorders.put slot s.recorder, media := s.media }

/-- Does something to the stream in a slot, if there is one. -/
def onStream (slot : Nat) (f : TextStream → TextStream) : Bench :=
  match b.streams.find? slot with
  | none => b
  | some t => { b with streams := b.streams.put slot (f t) }

/-- Configures a stream and puts it into a slot, which keeps what it has when that is refused. -/
def configureInto (slot : Nat) (t : TextStream) (name scope typeName : String)
    (found : Option Outlet) : Reply × Bench :=
  match t.configure b.media name scope typeName found with
  | (.error e, media) => (.refused e, { b with media })
  | (.ok t, media) => (.ok, { b with streams := b.streams.put slot t, media })

/-- One command. -/
def step (b : Bench) : Command → Reply × Bench
  | .create slot name settings maxVerbosity =>
    (.done, b.install slot (b.media.newRecorder name settings maxVerbosity))
  | .openOn slot backend time typeName =>
    match b.recorders.find? slot with
    | none => (.done, b)
    | some r =>
      let (outcome, s) := (Recording.mk r b.media).openOn backend time typeName
      (.ofExcept outcome,
        { b with recorders := b.recorders.put slot s.recorder, media := s.media })
  | .close slot time => (.done, b.onRecorder slot (·.close time))
  | .free slot time => (.done, b.onRecorder slot (·.free time))
  | .drop slot =>
    (.done,
      { b with
        recorders := b.recorders.erase slot
        media := (b.recorders.find? slot).elim b.media b.media.dropRecorder })
  | .configure slot settings =>
    (.done, b.onRecorder slot fun s => { s with recorder := { s.recorder with settings } })
  | .move slot m => (.done, b.onRecorder slot (·.moveScope m))
  | .number slot name v size radix => (.done, b.onRecorder slot (·.recordNumber name v size radix))
  | .real slot name x => (.done, b.onRecorder slot (·.recordReal name x))
  | .string slot name text => (.done, b.onRecorder slot (·.recordString name text))
  | .time slot name time => (.done, b.onRecorder slot (·.recordTime name time))
  | .generic slot name text typeName =>
    (.done, b.onRecorder slot (·.recordGeneric name text typeName))
  | .object slot name target => (.done, b.onRecorder slot (b.graph.recordObject name target))
  | .record slot object => (.done, b.onRecorder slot (b.graph.record object))
  | .clearTrace trace => (.done, { b with media := b.media.clearTrace trace })
  | .openTranscript found =>
    let (outcome, media) := b.media.openTranscript found
    (.ofExcept outcome, { b with media })
  | .closeTranscript =>
    let (outcome, media) := b.media.closeTranscript
    (.ofExcept outcome, { b with media })
  | .renameTranscript fileName =>
    let (outcome, media) := b.media.renameTranscript fileName
    (.ofExcept outcome, { b with media })
  | .setTime now => (.done, { b with media := b.media.setTime now })
  | .openStream slot name scope typeName found => b.configureInto slot {} name scope typeName found
  | .configureStream slot name scope typeName found =>
    match b.streams.find? slot with
    | none => (.done, b)
    | some t => b.configureInto slot t name scope typeName found
  | .closeStream slot => (.done, b.onStream slot TextStream.close)
  | .freeStream slot => (.done, b.onStream slot TextStream.free)
  | .openOnStream slot stream name time typeName =>
    match (b.streams.find? stream).bind fun t => t.openRecorder b.media name time typeName with
    | none => (.absent, b)
    | some s => (.ok, b.install slot s)
  | .link left right relation =>
    match b.recorders.find? left, b.recorders.find? right with
    | some l, some r =>
      let (leftHandle, media) := b.media.acquireHandle l
      let (rightHandle, media) := media.acquireHandle r
      (.done, { b with media := media.writeEvent (.link leftHandle rightHandle relation) })
    | _, _ => (.done, b)
  | .handle slot =>
    match b.recorders.find? slot with
    | none => (.absent, b)
    | some r =>
      let (handle, media) := b.media.acquireHandle r
      (.handle handle, { b with media })
  | .lookUp handle =>
    match b.media.fromHandle handle with
    | none => (.absent, b)
    | some info => (.found info, b)

/-- Commands in order. -/
def run (b : Bench) (commands : List Command) : Bench :=
  commands.foldl (fun b c => (b.step c).2) b

@[simp] theorem run_nil : b.run [] = b := rfl

@[simp] theorem run_cons (c : Command) (rest : List Command) :
    b.run (c :: rest) = (b.step c).2.run rest := rfl

end Bench

end FieldAutomation
