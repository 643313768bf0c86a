import FieldAutomation.Proofs.Recording.Fields
import Mathlib.Data.Option.Basic

/-!
# Recording to memory in place of the transcript

What a recorder tells does not depend on where it writes.  A recorder that writes to streams of the
transcript has a mirror image that writes to traces in memory, one trace per stream.  Whatever is
done to the two of them, the transcript gets the lines of what the image is told in memory.

* `TranscriptStatus`, `ChronicleEntry.linesIn`: events, and what becomes of them in each file;
* `Recorder.inMemory`: the mirror image of a recorder;
* `Recording.Mirrors`: a recorder with its media, and the image with its own;
* `Recording.Tandem`: the two before and after the same was done to both;
* `Recording.EvenHanded`: operations after which recorder and image are in tandem.

Main statements: `Recording.evenHanded_close`, `Recording.evenHanded_free`,
`Recording.evenHanded_emit`, `Recording.Mirrors.openOn`, `ObjectGraph.evenHanded_record` and
`ObjectGraph.evenHanded_recordObject`.
-/

namespace FieldAutomation

/-! ### Lines in files -/

/-- What decides where a line of the transcript goes and how it is stamped. -/
structure TranscriptStatus where
  fileName : String
  opened : Option Outlet := none
  now : Nat := 0
  deriving DecidableEq, Repr

/-- An event, and the status of the transcript when it happened. -/
structure ChronicleEntry where
  status : TranscriptStatus
  event : TranscriptEvent
  deriving DecidableEq, Repr

namespace ChronicleEntry

/-- The line that tells of an event, stamped with the time at which it happened. -/
def line (e : ChronicleEntry) : String := e.event.line e.status.now ++ "\n"

/-- The lines of all events that happened while a file was open, in order. -/
def linesIn (name : String) (entries : List ChronicleEntry) : String :=
  String.join ((entries.filter (·.status.opened = some (.file name))).map line)

theorem linesIn_nil (name : String) : linesIn name [] = "" := rfl

theorem linesIn_append (name : String) (entries entries' : List ChronicleEntry) :
    linesIn name (entries ++ entries') = linesIn name entries ++ linesIn name entries' := by
  simp [linesIn, String.join_append]

end ChronicleEntry

open ChronicleEntry (linesIn linesIn_nil linesIn_append)

namespace Transcript

/-- The status of a transcript. -/
def status (t : Transcript) : TranscriptStatus := ⟨t.fileName, t.opened, t.now⟩

/-- The text in a file, which is empty when there is no file. -/
def textIn (t : Transcript) (name : String) : String := (t.content? name).getD ""

/-- Every file of `t₁` has the text that it has in `t`, followed by the lines of its entries. -/
def Extends (t t₁ : Transcript) (entries : List ChronicleEntry) : Prop :=
  ∀ name, t₁.textIn name = t.textIn name ++ linesIn name entries

variable {t t₁ t₂ : Transcript} {entries entries' : List ChronicleEntry}

theorem extends_of_textIn_eq (h : ∀ name, t₁.textIn name = t.textIn name) : t.Extends t₁ [] := by
  intro name
  rw [h, linesIn_nil, String.append_empty]

theorem Extends.trans (h : t.Extends t₁ entries) (h' : t₁.Extends t₂ entries') :
    t.Extends t₂ (entries ++ entries') := by
  intro name
  rw [h', h, String.append_assoc, linesIn_append]

/-- A file is not changed by opening it. -/
theorem textIn_attach (t : Transcript) (outlet : Outlet) (name : String) :
    (t.attach outlet).textIn name = t.textIn name := by
  cases outlet with
  | refusing | swallowing => rfl
  | file opened =>
    simp only [attach, textIn, content?]
    by_cases h : name = opened
    · rw [h, lookup_append_self, Option.getD_some, String.append_empty]
    · rw [lookup_append_of_ne _ _ h]

/-- A line is written to the file that is open. -/
theorem extends_write (t : Transcript) (e : TranscriptEvent) :
    t.Extends (t.write (e.line t.now)).2 [⟨t.status, e⟩] := by
  intro name
  by_cases h : t.opened = some (.file name)
  · simp [textIn, content_write_self t h, linesIn, status, h, ChronicleEntry.line]
  · simp [textIn, content_write_of_ne t h, linesIn, status, h]

theorem status_write (t : Transcript) (line : String) : (t.write line).2.status = t.status := by
  unfold write status
  split <;> rfl

theorem lastStream_write (t : Transcript) (line : String) :
    (t.write line).2.lastStream = t.lastStream := by
  unfold write
  split <;> rfl

end Transcript

/-! ### Mirror images -/

/-- Where the mirror image of a recorder writes: what goes to a stream goes to the trace with the
number of the stream, and nothing else goes to a trace. -/
def Backend.inMemory : Backend → Backend
  | transcript stream => memory stream
  | memory _ | attributesOnly => attributesOnly

/-- The mirror image of a recorder. -/
def Recorder.inMemory (r : Recorder) : Recorder :=
  { r with backend := r.backend.map Backend.inMemory }

/-- A recorder that is opened on a backend. -/
def Recorder.openedOn (r : Recorder) (b : Backend) (time : Nat) (typeName : String) : Recorder :=
  { r with backend := some b, state := .opened, openTime := time, closeTime := 0, typeName }

namespace Media

/-- The events in numbered traces, oldest first, each with the number of its trace. -/
def streamed (m : Media) : List (Nat × TraceEvent) :=
  m.delivered.filterMap fun d =>
    match d.1 with
    | .memory stream => some (stream, d.2)
    | _ => none

/-- What is shared by recorders agrees with what is shared by their images. -/
structure Mirrors (m m' : Media) : Prop where
  handles : m'.handles = m.handles
  nextSerial : m'.nextSerial = m.nextSerial
  status : m'.transcript.status = m.transcript.status
  lastStream : m'.transcript.lastStream = m.transcript.lastStream

/-- `m₁` is `m` after the lines of events were written to the transcript. -/
structure Writes (m m₁ : Media) (events : List TranscriptEvent) : Prop where
  status : m₁.transcript.status = m.transcript.status
  lastStream : m₁.transcript.lastStream = m.transcript.lastStream
  text : m.transcript.Extends m₁.transcript (events.map (⟨m.transcript.status, ·⟩))

variable {m m' m₁ m₂ : Media} {events events' : List TranscriptEvent}

theorem writes_of_transcript_eq (h : m₁.transcript = m.transcript) : Writes m m₁ [] :=
  ⟨by rw [h], by rw [h], Transcript.extends_of_textIn_eq fun _ => by rw [h]⟩

/-- Only the transcript is looked at. -/
theorem Writes.of_transcript_eq (h : Writes m m₁ events) (h₂ : m₂.transcript = m₁.transcript) :
    Writes m m₂ events :=
  ⟨by rw [h₂, h.status], by rw [h₂, h.lastStream], by rw [h₂]; exact h.text⟩

theorem Writes.trans (h : Writes m m₁ events) (h' : Writes m₁ m₂ events') :
    Writes m m₂ (events ++ events') where
  status := h'.status.trans h.status
  lastStream := h'.lastStream.trans h.lastStream
  text := by
    have h'text := h'.text
    rw [h.status] at h'text
    rw [List.map_append]
    exact h.text.trans h'text

theorem transcript_acquireHandle (m : Media) (r : Recorder) :
    (m.acquireHandle r).2.transcript = m.transcript := by
  unfold Media.acquireHandle
  split <;> rfl

theorem delivered_acquireHandle (m : Media) (r : Recorder) :
    (m.acquireHandle r).2.delivered = m.delivered := by
  unfold Media.acquireHandle
  split <;> rfl

theorem transcript_writeEvent (m : Media) (e : TranscriptEvent) :
    (m.writeEvent e).transcript = (m.transcript.write (e.line m.transcript.now)).2 := by
  unfold writeEvent
  dsimp only
  split <;> rfl

theorem delivered_writeEvent (m : Media) (e : TranscriptEvent) :
    (m.writeEvent e).delivered = m.delivered := by
  unfold writeEvent
  dsimp only
  split <;> rfl

theorem writes_writeEvent (m : Media) (e : TranscriptEvent) : Writes m (m.writeEvent e) [e] where
  status := by rw [transcript_writeEvent, Transcript.status_write]
  lastStream := by rw [transcript_writeEvent, Transcript.lastStream_write]
  text := by
    rw [transcript_writeEvent]
    exact m.transcript.extends_write e

/-- An event that does not go to the transcript goes to no trace of the image. -/
theorem deliver_of_attributesOnly (m m' : Media) {b : Backend}
    (hb : b.inMemory = .attributesOnly) (e : TraceEvent) :
    (m.deliver b e).transcript = m.transcript ∧
      (m'.deliver b.inMemory e).transcript = m'.transcript ∧
      (m'.deliver b.inMemory e).streamed = m'.streamed := by
  refine ⟨?_, ?_, ?_⟩
  · cases b with
    | transcript stream => cases hb
    | memory stream => rfl
    | attributesOnly =>
      simp only [deliver]
      split <;> rfl
  all_goals
    rw [hb]
    simp only [deliver]
    split
    · simp [streamed]
    · rfl

namespace Mirrors

/-- The log is not looked at. -/
theorem logEntry (h : Mirrors m m') (e e' : LogEntry) : Mirrors (m.logEntry e) (m'.logEntry e') :=
  ⟨h.handles, h.nextSerial, h.status, h.lastStream⟩

/-- What is written to the transcript of the image is not looked at. -/
theorem writeEvent (h : Mirrors m m') (e e' : TranscriptEvent) :
    Mirrors (m.writeEvent e) (m'.writeEvent e') where
  handles := by rw [(m.quiet_writeEvent e).handles, (m'.quiet_writeEvent e').handles, h.handles]
  nextSerial := by
    rw [(m.quiet_writeEvent e).nextSerial, (m'.quiet_writeEvent e').nextSerial, h.nextSerial]
  status := by rw [(m.writes_writeEvent e).status, (m'.writes_writeEvent e').status, h.status]
  lastStream := by
    rw [(m.writes_writeEvent e).lastStream, (m'.writes_writeEvent e').lastStream, h.lastStream]

theorem dropRecorder (h : Mirrors m m') (r : Recorder) :
    Mirrors (m.dropRecorder r) (m'.dropRecorder r.inMemory) :=
  ⟨by simp only [Media.dropRecorder, h.handles, Recorder.inMemory], h.nextSerial, h.status,
    h.lastStream⟩

theorem acquireHandle (h : Mirrors m m') (r : Recorder) :
    (m'.acquireHandle r.inMemory).1 = (m.acquireHandle r).1 ∧
      Mirrors (m.acquireHandle r).2 (m'.acquireHandle r.inMemory).2 := by
  simp only [Media.acquireHandle, Recorder.inMemory, h.handles]
  split
  · exact ⟨rfl, h⟩
  · exact ⟨rfl, rfl, h.nextSerial, h.status, h.lastStream⟩

theorem handleOf (h : Mirrors m m') (r : Recorder) : m'.handleOf r.inMemory = m.handleOf r :=
  (h.acquireHandle r).1

/-- An event goes to the transcript on one side and to memory on the other. -/
theorem deliver (h : Mirrors m m') (b : Backend) (e : TraceEvent) :
    Mirrors (m.deliver b e) (m'.deliver b.inMemory e) ∧
      ∃ new, (m'.deliver b.inMemory e).streamed = m'.streamed ++ new ∧
        Writes m (m.deliver b e) (new.map fun d => .trace d.1 d.2) := by
  have hhandles : (m'.deliver b.inMemory e).handles = (m.deliver b e).handles := by
    rw [handles_deliver, handles_deliver, h.handles]
  have hnext : (m'.deliver b.inMemory e).nextSerial = (m.deliver b e).nextSerial := by
    rw [nextSerial_deliver, nextSerial_deliver, h.nextSerial]
  by_cases hb : b.inMemory = .attributesOnly
  · obtain ⟨htranscript, htranscript', hstreamed⟩ := deliver_of_attributesOnly m m' hb e
    refine ⟨⟨hhandles, hnext, ?_, ?_⟩, [], ?_, writes_of_transcript_eq htranscript⟩
    · rw [htranscript, htranscript', h.status]
    · rw [htranscript, htranscript', h.lastStream]
    · rw [hstreamed, List.append_nil]
  · cases b with
    | memory | attributesOnly => exact absurd rfl hb
    | transcript stream =>
      have hw := m.writes_writeEvent (.trace stream e)
      refine ⟨⟨hhandles, hnext, h.status.trans hw.status.symm,
        h.lastStream.trans hw.lastStream.symm⟩, [(stream, e)], ?_, hw⟩
      simp [Backend.inMemory, Media.deliver, streamed]

end Mirrors

end Media

namespace Recording

/-- `s'` is the mirror image of `s`. -/
structure Mirrors (s s' : Recording) : Prop where
  recorder : s'.recorder = s.recorder.inMemory
  media : s.media.Mirrors s'.media

/-- While `s` became `t`, its image `s'` became the image of `t`, and the transcript got the lines
of what the image was told in memory. -/
structure Tandem (s s' t t' : Recording) : Prop where
  mirrors : t.Mirrors t'
  told : ∃ new, t'.media.streamed = s'.media.streamed ++ new ∧
    Media.Writes s.media t.media (new.map fun d => .trace d.1 d.2)

variable {s s' t t' u u' : Recording}

/-- Nothing was told. -/
theorem Mirrors.tandem_of_silent (h : t.Mirrors t')
    (htranscript : t.media.transcript = s.media.transcript)
    (hdelivered : t'.media.delivered = s'.media.delivered) : Tandem s s' t t' :=
  ⟨h, [], by rw [Media.streamed, hdelivered, List.append_nil, Media.streamed],
    Media.writes_of_transcript_eq htranscript⟩

theorem Mirrors.tandem (h : s.Mirrors s') : Tandem s s' s s' := h.tandem_of_silent rfl rfl

theorem Tandem.trans (h : Tandem s s' t t') (h' : Tandem t t' u u') : Tandem s s' u u' := by
  obtain ⟨new, hnew, hwrites⟩ := h.told
  obtain ⟨new', hnew', hwrites'⟩ := h'.told
  refine ⟨h'.mirrors, new ++ new', by rw [hnew', hnew, List.append_assoc], ?_⟩
  rw [List.map_append]
  exact hwrites.trans hwrites'

/-- An operation that does the same to a recorder and to its image. -/
def EvenHanded (f : Recording → Recording) : Prop :=
  ∀ ⦃s s' : Recording⦄, s.Mirrors s' → Tandem s s' (f s) (f s')

theorem Tandem.andThen {f : Recording → Recording} (h : Tandem s s' t t') (hf : EvenHanded f) :
    Tandem s s' (f t) (f t') := h.trans (hf h.mirrors)

/-! ### Single operations -/

theorem Mirrors.backend (h : s.Mirrors s') :
    s'.recorder.backend = s.recorder.backend.map Backend.inMemory := by
  rw [h.recorder, Recorder.inMemory]

/-- Asking for a handle. -/
theorem Mirrors.acquireHandle (h : s.Mirrors s') :
    s'.acquireHandle.1 = s.acquireHandle.1 ∧
      Tandem s s' s.acquireHandle.2 s'.acquireHandle.2 := by
  obtain ⟨r, m⟩ := s
  obtain ⟨_, m'⟩ := s'
  obtain ⟨rfl, hm⟩ := h
  obtain ⟨hfst, hsnd⟩ := hm.acquireHandle r
  exact ⟨hfst, Mirrors.tandem_of_silent ⟨rfl, hsnd⟩ (m.transcript_acquireHandle r)
    (m'.delivered_acquireHandle r.inMemory)⟩

/-- What a recorder itself keeps, but for its backend. -/
theorem evenHanded_recorder {g : Recorder → Recorder} (hg : ∀ r, (g r).inMemory = g r.inMemory) :
    EvenHanded fun s => { s with recorder := g s.recorder } := by
  intro s s' h
  refine Mirrors.tandem_of_silent ⟨?_, h.media⟩ rfl rfl
  dsimp only
  rw [hg, h.recorder]

theorem evenHanded_logDebug (message : String) (attributes : List (String × String)) :
    EvenHanded (·.logDebug message attributes) := by
  intro s s' h
  exact Mirrors.tandem_of_silent ⟨h.recorder, h.media.logEntry _ _⟩ rfl rfl

theorem evenHanded_report (r : Report) : EvenHanded (·.report r) := by
  intro s s' h
  have hrecorder := h.recorder
  have hreporter : s'.recorder.reporter = s.recorder.reporter := by
    rw [hrecorder, Recorder.inMemory]
  refine Mirrors.tandem_of_silent ⟨?_, ?_⟩ ?_ ?_
  · simp only [report, hrecorder, Recorder.inMemory]
  all_goals
    simp only [report, hreporter]
    split
  · exact h.media.logEntry _ _
  · exact h.media
  all_goals rfl

theorem evenHanded_moveScope (m : Scope.Move) : EvenHanded (·.moveScope m) :=
  evenHanded_recorder (g := fun r => { r with scope := r.scope.move m }) fun _ => rfl

/-- **What goes to the transcript** on one side goes to memory on the other. -/
theorem evenHanded_deliver (e : TraceEvent) : EvenHanded (·.deliver e) := by
  intro s s' h
  cases hb : s.recorder.backend with
  | none =>
    have hb' : s'.recorder.backend = none := by rw [h.backend, hb, Option.map_none]
    simp only [deliver, hb, hb']
    exact h.tandem
  | some b =>
    have hb' : s'.recorder.backend = some b.inMemory := by rw [h.backend, hb, Option.map_some]
    simp only [deliver, hb, hb']
    obtain ⟨hm, hnew⟩ := h.media.deliver b e
    exact ⟨⟨h.recorder, hm⟩, hnew⟩

/-! ### The life of a recorder -/

theorem Mirrors.state (h : s.Mirrors s') : s'.recorder.state = s.recorder.state := by
  rw [h.recorder, Recorder.inMemory]

theorem evenHanded_close (time : Nat) : EvenHanded (·.close time) := by
  intro s s' h
  dsimp only
  by_cases hst : s.recorder.state = .opened
  · obtain ⟨hhandle, ht⟩ := h.acquireHandle
    have hclosed : EvenHanded fun s =>
        { s with recorder := { s.recorder with closeTime := time, state := .closed } } :=
      evenHanded_recorder (g := fun r => { r with closeTime := time, state := .closed })
        fun _ => rfl
    simp only [close, h.state, hst, hhandle]
    exact ((ht.andThen (evenHanded_deliver _)).andThen hclosed).andThen (evenHanded_logDebug _ _)
  · rw [close_of_not_open time hst, close_of_not_open time (h.state ▸ hst)]
    exact h.tandem

/-- What a recorder gives up when it is freed. -/
theorem evenHanded_giveUp : EvenHanded fun s =>
    let r :=
      { s.recorder with backend := none, state := .freed, scope := s.recorder.scope.clear }
    ⟨r, s.media.dropRecorder r⟩ := by
  intro s s' h
  refine Mirrors.tandem_of_silent ⟨?_, ?_⟩ rfl rfl
  · simp only [h.recorder, Recorder.inMemory, Option.map_none]
  · simp only [h.recorder, Recorder.inMemory]
    exact h.media.dropRecorder _

theorem evenHanded_free (time : Nat) : EvenHanded (·.free time) := by
  intro s s' h
  dsimp only
  by_cases hst : s.recorder.state = .freed
  · rw [free_of_freed time hst, free_of_freed time (h.state.trans hst)]
    exact h.tandem
  · have hclose := evenHanded_close time h
    obtain ⟨hhandle, ht⟩ := hclose.mirrors.acquireHandle
    simp only [free, h.state, hhandle]
    exact ((hclose.trans ht).andThen (evenHanded_deliver _)).andThen evenHanded_giveUp |>.andThen
      (evenHanded_logDebug _ _)

/-- When a recorder is opened on a stream its image is opened on the trace of that stream. -/
theorem Mirrors.openOn (h : s.Mirrors s') (backend : Option Backend) (time : Nat)
    (typeName : String) :
    Tandem s s' (s.openOn backend time typeName).2
      (s'.openOn (backend.map Backend.inMemory) time typeName).2 := by
  have hname : s'.recorder.name = s.recorder.name := by rw [h.recorder, Recorder.inMemory]
  cases backend with
  | none =>
    simp only [Recording.openOn, Option.map_none, refuse, hname]
    exact evenHanded_report _ h
  | some b =>
    simp only [Recording.openOn, Option.map_some, h.state, hname]
    split
    · simp only [refuse]
      exact evenHanded_report _ h
    · have hopened : Tandem s s' ⟨s.recorder.openedOn b time typeName, s.media⟩
          ⟨s'.recorder.openedOn b.inMemory time typeName, s'.media⟩ :=
        Mirrors.tandem_of_silent ⟨by rw [h.recorder]; rfl, h.media⟩ rfl rfl
      obtain ⟨hhandle, ht⟩ := hopened.mirrors.acquireHandle
      simp only [Recorder.openedOn, hname] at hhandle hopened ht
      simp only [hhandle]
      exact ((hopened.trans ht).andThen (evenHanded_logDebug _ _)).andThen (evenHanded_deliver _)

/-! ### Fields -/

theorem evenHanded_emit (name value : String) (radix : Radix) (bits : Nat)
    (typeName : Option String) : EvenHanded (·.emit name value radix bits typeName) := by
  intro s s' h
  dsimp only
  cases hb : s.recorder.backend with
  | none =>
    have hb' : s'.recorder.backend = none := by rw [h.backend, hb, Option.map_none]
    rw [emit_of_no_backend _ _ _ _ _ hb, emit_of_no_backend _ _ _ _ _ hb']
    exact h.tandem
  | some b =>
    have hb' : s'.recorder.backend = some b.inMemory := by rw [h.backend, hb, Option.map_some]
    obtain ⟨hhandle, ht⟩ := h.acquireHandle
    have hscope : s'.acquireHandle.2.recorder.scope = s.acquireHandle.2.recorder.scope := by
      rw [ht.mirrors.recorder, Recorder.inMemory]
    have hpending : EvenHanded fun s =>
        { s with
          recorder :=
            { s.recorder with scope := (s.recorder.scope.setPending name).unsetPending name } } :=
      evenHanded_recorder
        (g := fun r => { r with scope := (r.scope.setPending name).unsetPending name }) fun _ => rfl
    have ht := (ht.andThen hpending).andThen (evenHanded_deliver (.recorded ⟨s.acquireHandle.1,
      (s.acquireHandle.2.recorder.scope.setPending name).path, value, radix, bits, typeName⟩))
    simp only [emit, hb, hb', hhandle]
    simp only [hscope] at ht ⊢
    exact ht

theorem Mirrors.resolve (h : s.Mirrors s') (radix : Radix) :
    s'.resolve radix = s.resolve radix := by
  simp only [Recording.resolve, h.recorder, Recorder.inMemory]

theorem evenHanded_recordNumber (name : String) (v size : Nat) (radix : Radix) :
    EvenHanded (·.recordNumber name v size radix) := by
  intro s s' h
  simp only [recordNumber, h.resolve]
  exact evenHanded_emit _ _ _ _ _ h

theorem evenHanded_recordWords (name : String) (radix : Radix) (index : Nat) (values : List Nat) :
    EvenHanded (recordWords name radix index values) := by
  intro s s' h
  induction values generalizing index s s' with
  | nil => exact h.tandem
  | cons v rest ih =>
    have hv := evenHanded_recordNumber (name ++ Scope.element index) v 32 radix h
    exact hv.trans (ih (index + 1) hv.mirrors)

theorem evenHanded_recordElements (size : Nat) (radix : Radix) (index : Nat)
    (values : List Nat) : EvenHanded (recordElements size radix index values) := by
  intro s s' h
  induction values generalizing index s s' with
  | nil => exact h.tandem
  | cons v rest ih =>
    have hv := ((evenHanded_moveScope (.downElement index) h).andThen
      (evenHanded_recordNumber "" v size radix)).andThen (evenHanded_moveScope .upElement)
    exact hv.trans (ih (index + 1) hv.mirrors)

/-! ### Objects -/

/-- An operation that may not come to an end does the same to a recorder and to its image. -/
def EvenHanded? (f : Recording → Option Recording) : Prop :=
  ∀ ⦃s s' : Recording⦄, s.Mirrors s' → Option.Rel (Tandem s s') (f s) (f s')

theorem EvenHanded.some {f : Recording → Recording} (hf : EvenHanded f) :
    EvenHanded? fun s => some (f s) := fun _ _ h => .some (hf h)

theorem Tandem.andThen? {f : Recording → Option Recording} (h : Tandem s s' t t')
    (hf : EvenHanded? f) : Option.Rel (Tandem s s') (f t) (f t') := by
  have hf := hf h.mirrors
  generalize f t = o at hf ⊢
  generalize f t' = o' at hf ⊢
  cases hf with
  | none => exact .none
  | some h' => exact .some (h.trans h')

theorem EvenHanded?.bind {f g : Recording → Option Recording} (hf : EvenHanded? f)
    (hg : EvenHanded? g) : EvenHanded? fun s => (f s).bind g := by
  intro s s' h
  have hf := hf h
  dsimp only
  generalize f s = o at hf ⊢
  generalize f s' = o' at hf ⊢
  cases hf with
  | none => exact .none
  | some ht => exact ht.andThen? hg

theorem EvenHanded?.getD {f : Recording → Option Recording} (hf : EvenHanded? f) :
    EvenHanded fun s => (f s).getD s := by
  intro s s' h
  have hf := hf h
  dsimp only
  generalize f s = o at hf ⊢
  generalize f s' = o' at hf ⊢
  cases hf with
  | none => exact h.tandem
  | some ht => exact ht

theorem Mirrors.settings (h : s.Mirrors s') :
    s'.recorder.settings = s.recorder.settings := by
  rw [h.recorder, Recorder.inMemory]

section Objects

variable {sub : String → Option ObjectRef → Recording → Option Recording}

theorem evenHanded_recordField (hsub : ∀ name target, EvenHanded? (sub name target)) (f : Field) :
    EvenHanded? (recordField sub f) := by
  intro s s' h
  have hincludes : s'.includes f = s.includes f := by simp only [includes, h.settings]
  cases hf : s.includes f with
  | false =>
    simp only [recordField, hincludes, hf, Bool.false_eq_true, if_false]
    exact .some h.tandem
  | true =>
    simp only [recordField, hincludes, hf, if_true]
    cases f.data with
    | int | wide => exact .some (evenHanded_recordNumber _ _ _ _ h)
    | real | str | time | generic => exact .some (evenHanded_emit _ _ _ _ _ h)
    | array kind values size radix =>
      cases kind with
      | bytes => exact .some (evenHanded_emit _ _ _ _ _ h)
      | words => exact .some (evenHanded_recordWords _ _ _ _ h)
    | elements values size radix =>
      exact .some (((evenHanded_moveScope (.down f.name) h).andThen
        (evenHanded_recordElements size radix 0 values)).andThen (evenHanded_moveScope .up))
    | child target => exact hsub f.name target h
    | probe =>
      refine .some (Mirrors.tandem_of_silent ⟨?_, h.media⟩ rfl rfl)
      simp only [h.recorder, Recorder.inMemory]

theorem evenHanded_recordFields (hsub : ∀ name target, EvenHanded? (sub name target))
    (fields : List Field) : EvenHanded? (recordFields sub fields) := by
  induction fields with
  | nil => exact fun _ _ h => .some h.tandem
  | cons f rest ih => exact (evenHanded_recordField hsub f).bind ih

theorem evenHanded_recordBody (hsub : ∀ name target, EvenHanded? (sub name target))
    (o : DataObject) : EvenHanded? (recordBody sub o) := by
  have hdeeper : EvenHanded fun s =>
      { s with recorder := { s.recorder with depth := s.recorder.depth + 1 } } :=
    evenHanded_recorder (g := fun r => { r with depth := r.depth + 1 }) fun _ => rfl
  have hback : EvenHanded fun s =>
      { s with recorder := { s.recorder with depth := s.recorder.depth - 1 } } :=
    evenHanded_recorder (g := fun r => { r with depth := r.depth - 1 }) fun _ => rfl
  exact hdeeper.some.bind ((evenHanded_recordFields hsub o.fields).bind hback.some)

/-- However deep the traversal goes. -/
theorem evenHanded_recordObject (g : ObjectGraph) (fuel : Nat) (name : String)
    (target : Option ObjectRef) : EvenHanded? (recordObject g fuel name target) := by
  induction fuel generalizing name target with
  | zero => exact fun _ _ _ => .none
  | succ fuel ih =>
    intro s s' h
    have hbackend : s'.recorder.backend = none ↔ s.recorder.backend = none := by
      rw [h.backend, Option.map_eq_none_iff]
    simp only [recordObject, hbackend, h.settings]
    split
    · exact .some h.tandem
    · -- the instance id comes first, if it is recorded
      have hid : ∀ id, Tandem s s'
          (if s.recorder.settings.identifier then s.recordNumber name id 32 .dec else s)
          (if s.recorder.settings.identifier then s'.recordNumber name id 32 .dec else s') := by
        intro id
        split
        · exact evenHanded_recordNumber _ _ _ _ h
        · exact h.tandem
      have ht := hid ((g.resolve target).elim 0 fun found => ObjectGraph.instanceId found.1)
      generalize (if s.recorder.settings.identifier then _ else s) = t at ht ⊢
      generalize (if s.recorder.settings.identifier then _ else s') = t' at ht ⊢
      -- both find the same of the objects in their visit sets
      have hvisits : t'.recorder.visits = t.recorder.visits := by
        rw [ht.mirrors.recorder, Recorder.inMemory]
      cases g.resolve target with
      | none => exact .some ht
      | some found =>
        obtain ⟨r, o⟩ := found
        dsimp only
        by_cases hp : t.recorder.settings.policy = .reference
        · have hp' : t'.recorder.settings.policy = .reference := by rw [ht.mirrors.settings, hp]
          rw [if_pos hp, if_pos hp']
          exact .some ht
        · have hp' : t'.recorder.settings.policy ≠ .reference := by rwa [ht.mirrors.settings]
          rw [if_neg hp, if_neg hp', hvisits]
          cases t.recorder.visits.enter? (ObjectGraph.instanceId r) with
          | none => exact .some (ht.andThen (evenHanded_report _))
          | some visits =>
            have hvisit : EvenHanded fun s => { s with recorder := { s.recorder with visits } } :=
              evenHanded_recorder (g := fun r => { r with visits }) fun _ => rfl
            have hleave : EvenHanded fun s =>
                { s with
                  recorder :=
                    { s.recorder with
                      scope := s.recorder.scope.move .up
                      visits := s.recorder.visits.leave (ObjectGraph.instanceId r) } } :=
              evenHanded_recorder (g := fun recorder =>
                { recorder with
                  scope := recorder.scope.move .up
                  visits := recorder.visits.leave (ObjectGraph.instanceId r) }) fun _ => rfl
            have hentered := (ht.andThen hvisit).andThen (evenHanded_moveScope (.down name))
            exact hentered.andThen? ((evenHanded_recordBody ih o).bind hleave.some)

end Objects

end Recording

namespace ObjectGraph

open Recording (EvenHanded)

theorem evenHanded_record (g : ObjectGraph) (r : ObjectRef) : EvenHanded (g.record r) := by
  unfold record
  cases g.object? r with
  | none => exact fun _ _ h => h.tandem
  | some o =>
    exact (Recording.evenHanded_recordBody
      (Recording.evenHanded_recordObject g g.recordBound) o).getD

theorem evenHanded_recordObject (g : ObjectGraph) (name : String) (target : Option ObjectRef) :
    EvenHanded (g.recordObject name target) :=
  (Recording.evenHanded_recordObject g g.recordBound name target).getD

end ObjectGraph

end FieldAutomation
