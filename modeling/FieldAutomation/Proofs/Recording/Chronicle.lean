import FieldAutomation.Proofs.Recording.Changes
import FieldAutomation.Proofs.Recording.Mirror

/-!
# What the transcript tells

The files of the transcript are the chronicle of a run: each of them holds, after what was in it
before, the lines of the events that happened while it was open.  Which events happen is read off
a bench on which recorders write to memory, and not to the transcript.

* `TranscriptStatus.after`: the name of the file, whether it is open, and the time;
* `Bench.stepInMemory`, `Bench.tells`: a command on the bench with the images of all recorders, and
  the events that happen;
* `Bench.chronicle`: the events of a run;
* `Bench.Mirrors`: a bench and the one with the images.

Main statements: `Bench.Mirrors.chronicled_step` (one command), `Bench.Mirrors.chronicled_run`
(commands in order) and `Bench.keepsChronicle_run`.
-/

namespace FieldAutomation

open ChronicleEntry (linesIn linesIn_nil linesIn_append)

namespace TranscriptStatus

variable (s : TranscriptStatus)

/-- The status after the file was opened, unless it was open. -/
def opening (found : Option Outlet) : TranscriptStatus := { s with opened := s.opened.or found }

/-- The status after the file was given a name, unless it was open. -/
def naming (fileName : String) : TranscriptStatus :=
  if s.opened.isSome then s else { s with fileName }

/-- The status after a command. -/
def after : Command → TranscriptStatus
  | .openTranscript found | .openStream _ _ _ _ found => s.opening found
  | .closeTranscript => { s with opened := none }
  | .renameTranscript fileName => s.naming fileName
  | .setTime now => { s with now }
  | _ => s

/-- The status after commands in order. -/
def afterAll (commands : List Command) : TranscriptStatus := commands.foldl after s

end TranscriptStatus

/-- The event of a recorder that a line tells of, with the stream of the recorder. -/
def TranscriptEvent.trace? : TranscriptEvent → Option (Nat × TraceEvent)
  | trace owner e => some (owner, e)
  | stream .. | link .. => none

theorem TranscriptEvent.filterMap_trace? (new : List (Nat × TraceEvent)) :
    (new.map fun d => TranscriptEvent.trace d.1 d.2).filterMap trace? = new := by
  rw [List.filterMap_map]
  exact List.filterMap_some

/-! ### The transcript file -/

namespace Media

/-- `m₁` is `m` after the transcript was given the status `s`; files are as they were. -/
structure SetsStatus (m m₁ : Media) (s : TranscriptStatus) : Prop where
  handles : m₁.handles = m.handles
  nextSerial : m₁.nextSerial = m.nextSerial
  delivered : m₁.delivered = m.delivered
  lastStream : m₁.transcript.lastStream = m.transcript.lastStream
  textIn : ∀ name, m₁.transcript.textIn name = m.transcript.textIn name
  status : m₁.transcript.status = s

variable {m m' m₁ m₁' : Media} {s : TranscriptStatus}

theorem setsStatus_self (m : Media) : SetsStatus m m m.transcript.status :=
  ⟨rfl, rfl, rfl, rfl, fun _ => rfl, rfl⟩

/-- Both sides are given the same status. -/
theorem Mirrors.setsStatus (h : Mirrors m m') (hm : SetsStatus m m₁ s)
    (hm' : SetsStatus m' m₁' s) : Mirrors m₁ m₁' where
  handles := by rw [hm'.handles, hm.handles, h.handles]
  nextSerial := by rw [hm'.nextSerial, hm.nextSerial, h.nextSerial]
  status := by rw [hm'.status, hm.status]
  lastStream := by rw [hm'.lastStream, hm.lastStream, h.lastStream]

theorem opened_of_isOpen (h : m.transcript.isOpen = true) :
    ∃ outlet, m.transcript.opened = some outlet :=
  Option.isSome_iff_exists.1 h

theorem opened_of_not_isOpen (h : ¬ m.transcript.isOpen = true) : m.transcript.opened = none := by
  simpa [Transcript.isOpen] using h

theorem setsStatus_openTranscript (m : Media) (found : Option Outlet) :
    SetsStatus m (m.openTranscript found).2 (m.transcript.status.opening found) := by
  unfold openTranscript
  split
  next hopen =>
    obtain ⟨outlet, ho⟩ := opened_of_isOpen hopen
    convert m.setsStatus_self
    simp [TranscriptStatus.opening, Transcript.status, ho]
  next hopen =>
    have ho := opened_of_not_isOpen hopen
    cases found with
    | none =>
      convert m.setsStatus_self
      simp [TranscriptStatus.opening, Transcript.status, ho]
    | some outlet =>
      refine ⟨rfl, rfl, rfl, ?_, m.transcript.textIn_attach outlet, ?_⟩
      · cases outlet <;> rfl
      · cases outlet <;>
          simp [TranscriptStatus.opening, Transcript.status, Transcript.attach, ho, logDebug,
            logEntry]

/-- The file is open in the end, or that was refused. -/
theorem openTranscript_fst (m : Media) (found : Option Outlet) :
    (m.openTranscript found).1 =
      if (m.transcript.status.opening found).opened.isSome then .ok ()
      else .error .unwritable := by
  unfold openTranscript TranscriptStatus.opening
  split
  next hopen =>
    obtain ⟨outlet, ho⟩ := opened_of_isOpen hopen
    simp [Transcript.status, ho]
  next hopen =>
    have ho := opened_of_not_isOpen hopen
    cases found <;> simp [Transcript.status, ho]

theorem setsStatus_closeTranscript (m : Media) :
    SetsStatus m m.closeTranscript.2 { m.transcript.status with opened := none } := by
  unfold closeTranscript
  split
  next hclosed =>
    have ho := opened_of_not_isOpen (m := m) (by simpa using hclosed)
    convert m.setsStatus_self
    simp [Transcript.status, ho]
  next =>
    dsimp only
    split <;> exact ⟨rfl, rfl, rfl, rfl, fun _ => rfl, rfl⟩

theorem setsStatus_renameTranscript (m : Media) (fileName : String) :
    SetsStatus m (m.renameTranscript fileName).2 (m.transcript.status.naming fileName) := by
  unfold renameTranscript TranscriptStatus.naming
  by_cases hopen : m.transcript.isOpen = true
  · have hopen' : m.transcript.status.opened.isSome = true := hopen
    rw [if_pos hopen, if_pos hopen']
    exact ⟨rfl, rfl, rfl, rfl, fun _ => rfl, rfl⟩
  · have hopen' : ¬ m.transcript.status.opened.isSome = true := hopen
    rw [if_neg hopen, if_neg hopen']
    exact ⟨rfl, rfl, rfl, rfl, fun _ => rfl, rfl⟩

/-- The next stream handle is handed out. -/
def countStream (m : Media) : Media :=
  { m with transcript := { m.transcript with lastStream := m.transcript.lastStream + 1 } }

theorem Mirrors.countStream (h : Mirrors m m') : Mirrors m.countStream m'.countStream :=
  ⟨h.handles, h.nextSerial, h.status, congrArg (· + 1) h.lastStream⟩

end Media

/-- A new stream gets the next handle, once the file is open. -/
theorem TextStream.configure_new (m : Media) (name scope typeName : String)
    (found : Option Outlet) :
    TextStream.configure {} m name scope typeName found =
      match m.openTranscript found with
      | (.error e, m) => (.error e, m)
      | (.ok (), m) =>
        (.ok ⟨name, scope, typeName, m.transcript.lastStream + 1, .opened⟩,
          m.countStream.writeEvent
            (.stream (m.transcript.lastStream + 1) name typeName scope)) := rfl

namespace Bench

/-! ### Recording to memory -/

/-- A command on a bench where recorders write to memory: what is opened on a stream is opened on
the trace that has the handle of the stream for its number, and traces are kept. -/
def stepInMemory (b : Bench) : Command → Bench
  | .openOn slot backend time typeName =>
    (b.step (.openOn slot (backend.map Backend.inMemory) time typeName)).2
  | .openOnStream slot stream name time typeName =>
    match b.streams.find? stream with
    | none => b
    | some t =>
      if t.state = .opened then
        b.install slot
          ((b.media.newRecorder name {} .medium).openOn (some (.memory t.handle)) time typeName).2
      else b
  | .clearTrace _ => b
  | c => (b.step c).2

/-- The events that are new in the traces of a bench. -/
def newlyStreamed (b b₁ : Bench) : List TranscriptEvent :=
  (b₁.media.streamed.drop b.media.streamed.length).map fun d => .trace d.1 d.2

/-- The events that happen when a command is carried out: a stream is created, recorders are
related, or traces get new events. -/
def tells (b : Bench) (c : Command) : List TranscriptEvent :=
  match c with
  | .openStream _ name scope typeName found =>
    match TextStream.configure {} b.media name scope typeName found with
    | (.error _, _) => []
    | (.ok t, _) => [.stream t.handle t.name t.typeName t.scope]
  | .link left right relation =>
    match b.recorders.find? left, b.recorders.find? right with
    | some l, some r => [.link (b.media.handleOf l) (b.media.handleOf r) relation]
    | _, _ => []
  | _ => newlyStreamed b (b.stepInMemory c)

/-- The events of a run, each with the status of the transcript when it happens. -/
def chronicle (b : Bench) (s : TranscriptStatus) : List Command → List ChronicleEntry
  | [] => []
  | c :: rest =>
    (b.tells c).map (⟨s.after c, ·⟩) ++ (b.stepInMemory c).chronicle (s.after c) rest

/-- A bench and the one with the images of its recorders. -/
structure Mirrors (b b' : Bench) : Prop where
  graph : b'.graph = b.graph
  recorders : ∀ k, b'.recorders.find? k = (b.recorders.find? k).map Recorder.inMemory
  streams : b'.streams = b.streams
  media : b.media.Mirrors b'.media
  /-- Streams in slots were configured. -/
  configured : ∀ k t, b.streams.find? k = some t → t.state ≠ .unconfigured

/-- A command keeps a bench and its image in step, and the transcript gets the lines of what
happens on the image.  What recorders tell there is in memory. -/
structure Chronicled (c : Command) (b b' : Bench) : Prop where
  mirrors : (b.step c).2.Mirrors (b'.stepInMemory c)
  status : (b.step c).2.media.transcript.status = b.media.transcript.status.after c
  text : b.media.transcript.Extends (b.step c).2.media.transcript
    ((b'.tells c).map (⟨b.media.transcript.status.after c, ·⟩))
  told : (b'.stepInMemory c).media.streamed =
    b'.media.streamed ++ (b'.tells c).filterMap TranscriptEvent.trace?

variable {b b' : Bench} {c : Command} {past : List Opening} {slot : Nat}

theorem Mirrors.withMedia (h : b.Mirrors b') {m m' : Media} (hm : m.Mirrors m') :
    Mirrors { b with media := m } { b' with media := m' } :=
  ⟨h.graph, h.recorders, h.streams, hm, h.configured⟩

theorem Mirrors.withStream (h : b.Mirrors b') {t : TextStream} (ht : t.state ≠ .unconfigured)
    (slot : Nat) :
    Mirrors { b with streams := b.streams.put slot t }
      { b' with streams := b'.streams.put slot t } := by
  refine ⟨h.graph, h.recorders, by rw [h.streams], h.media, fun k u hu => ?_⟩
  rw [Slots.find?_put] at hu
  split at hu
  next => exact Option.some.inj hu ▸ ht
  next => exact h.configured k u hu

/-- Nothing happens that is told of. -/
theorem chronicled_of_silent (hmirrors : (b.step c).2.Mirrors (b'.stepInMemory c))
    (hstatus : (b.step c).2.media.transcript.status = b.media.transcript.status.after c)
    (htext : ∀ name,
      (b.step c).2.media.transcript.textIn name = b.media.transcript.textIn name)
    (hstreamed : (b'.stepInMemory c).media.streamed = b'.media.streamed)
    (htells : b'.tells c = []) : Chronicled c b b' where
  mirrors := hmirrors
  status := hstatus
  text := by
    rw [htells]
    exact Transcript.extends_of_textIn_eq htext
  told := by rw [hstreamed, htells, List.filterMap_nil, List.append_nil]

/-- Nothing at all happens to the transcript. -/
theorem chronicled_of_still (hmirrors : (b.step c).2.Mirrors (b'.stepInMemory c))
    (hafter : b.media.transcript.status.after c = b.media.transcript.status)
    (htranscript : (b.step c).2.media.transcript = b.media.transcript)
    (hstreamed : (b'.stepInMemory c).media.streamed = b'.media.streamed)
    (htells : b'.tells c = []) : Chronicled c b b' :=
  chronicled_of_silent hmirrors (by rw [hafter, htranscript]) (fun _ => by rw [htranscript])
    hstreamed htells

/-- Lines are written while the status stays as it is. -/
theorem chronicled_of_writes (hmirrors : (b.step c).2.Mirrors (b'.stepInMemory c))
    (hafter : b.media.transcript.status.after c = b.media.transcript.status)
    (hwrites : Media.Writes b.media (b.step c).2.media (b'.tells c))
    (htold : (b'.stepInMemory c).media.streamed =
      b'.media.streamed ++ (b'.tells c).filterMap TranscriptEvent.trace?) : Chronicled c b b' where
  mirrors := hmirrors
  status := hwrites.status.trans hafter.symm
  text := by
    rw [hafter]
    exact hwrites.text
  told := htold

/-- The lines of what is new in traces are written. -/
theorem chronicled_of_streamed {new : List (Nat × TraceEvent)}
    (hmirrors : (b.step c).2.Mirrors (b'.stepInMemory c))
    (hafter : b.media.transcript.status.after c = b.media.transcript.status)
    (hwrites : Media.Writes b.media (b.step c).2.media (new.map fun d => .trace d.1 d.2))
    (hstreamed : (b'.stepInMemory c).media.streamed = b'.media.streamed ++ new)
    (htells : b'.tells c = newlyStreamed b' (b'.stepInMemory c)) : Chronicled c b b' := by
  rw [newlyStreamed, hstreamed, List.drop_left] at htells
  refine chronicled_of_writes hmirrors hafter (htells ▸ hwrites) ?_
  rw [htells, TranscriptEvent.filterMap_trace?, hstreamed]

/-! ### Commands for recorders -/

theorem newlyStreamed_eq_nil {b₁ : Bench} (h : b₁.media.streamed = b.media.streamed) :
    newlyStreamed b b₁ = [] := by
  rw [newlyStreamed, h, List.drop_length, List.map_nil]

/-- There is a recorder in a slot on both sides, or on neither. -/
theorem Mirrors.find?_recorders (h : b.Mirrors b') (slot : Nat) :
    b.recorders.find? slot = none ∧ b'.recorders.find? slot = none ∨
      ∃ r, b.recorders.find? slot = some r ∧ b'.recorders.find? slot = some r.inMemory := by
  rw [h.recorders]
  cases b.recorders.find? slot with
  | none => exact .inl ⟨rfl, rfl⟩
  | some r => exact .inr ⟨r, rfl, rfl⟩

/-- A command for something that is not there does nothing on both sides. -/
theorem Mirrors.chronicled_absent (h : b.Mirrors b') (hstep : (b.step c).2 = b)
    (hstep' : b'.stepInMemory c = b')
    (hafter : b.media.transcript.status.after c = b.media.transcript.status)
    (htells : b'.tells c = []) : Chronicled c b b' :=
  chronicled_of_still (by rwa [hstep, hstep']) hafter (by rw [hstep]) (by rw [hstep']) htells

/-- So does a command that tells what is new in traces. -/
theorem Mirrors.chronicled_self (h : b.Mirrors b') (hstep : (b.step c).2 = b)
    (hstep' : b'.stepInMemory c = b')
    (hafter : b.media.transcript.status.after c = b.media.transcript.status)
    (htells : b'.tells c = newlyStreamed b' (b'.stepInMemory c)) : Chronicled c b b' :=
  h.chronicled_absent hstep hstep' hafter (htells.trans (newlyStreamed_eq_nil (by rw [hstep'])))

/-- A recorder is put into a slot, and its image into that of the image. -/
theorem Mirrors.put (h : b.Mirrors b') {s s' : Recording} (hs : s.Mirrors s') (slot k : Nat) :
    (b'.recorders.put slot s'.recorder).find? k =
      ((b.recorders.put slot s.recorder).find? k).map Recorder.inMemory := by
  rw [Slots.find?_put, Slots.find?_put, h.recorders, hs.recorder]
  split <;> rfl

/-- Something is done to a recorder and to its image. -/
theorem Mirrors.chronicled_onRecorder (h : b.Mirrors b') {f : Recording → Recording}
    (hf : Recording.EvenHanded f) (hstep : (b.step c).2 = b.onRecorder slot f)
    (hstep' : b'.stepInMemory c = b'.onRecorder slot f)
    (hafter : b.media.transcript.status.after c = b.media.transcript.status)
    (htells : b'.tells c = newlyStreamed b' (b'.stepInMemory c)) : Chronicled c b b' := by
  rw [onRecorder] at hstep hstep'
  rcases h.find?_recorders slot with ⟨hr, hr'⟩ | ⟨r, hr, hr'⟩
  · rw [hr] at hstep
    rw [hr'] at hstep'
    exact h.chronicled_self hstep hstep' hafter htells
  · rw [hr] at hstep
    rw [hr'] at hstep'
    have hs : Recording.Mirrors ⟨r, b.media⟩ ⟨r.inMemory, b'.media⟩ := ⟨rfl, h.media⟩
    have ht := hf hs
    obtain ⟨new, hnew, hwrites⟩ := ht.told
    refine chronicled_of_streamed ?_ hafter ?_ (by rw [hstep']; exact hnew) htells
    · rw [hstep, hstep']
      exact ⟨h.graph, h.put ht.mirrors slot, h.streams, ht.mirrors.media, h.configured⟩
    · rw [hstep]
      exact hwrites

/-- A recorder in a slot is opened. -/
theorem Mirrors.chronicled_openOn (h : b.Mirrors b') (slot : Nat) (backend : Option Backend)
    (time : Nat) (typeName : String) :
    Chronicled (.openOn slot backend time typeName) b b' := by
  rcases h.find?_recorders slot with ⟨hr, hr'⟩ | ⟨r, hr, hr'⟩
  · have hstep : (b.step (.openOn slot backend time typeName)).2 = b := by simp only [step, hr]
    have hstep' : b'.stepInMemory (.openOn slot backend time typeName) = b' := by
      simp only [stepInMemory, step, hr']
    exact h.chronicled_self hstep hstep' rfl rfl
  · have hs : Recording.Mirrors ⟨r, b.media⟩ ⟨r.inMemory, b'.media⟩ := ⟨rfl, h.media⟩
    have ht := hs.openOn backend time typeName
    obtain ⟨new, hnew, hwrites⟩ := ht.told
    have hstreamed : (b'.stepInMemory (.openOn slot backend time typeName)).media.streamed =
        b'.media.streamed ++ new := by
      simp only [step, stepInMemory, hr']
      exact hnew
    refine chronicled_of_streamed ?_ rfl ?_ hstreamed rfl
    · simp only [step, stepInMemory, hr, hr']
      exact ⟨h.graph, h.put ht.mirrors slot, h.streams, ht.mirrors.media, h.configured⟩
    · simp only [step, hr]
      exact hwrites

/-- A recorder is put into a slot, and its image too. -/
theorem Mirrors.install (h : b.Mirrors b') {s s' : Recording} (hs : s.Mirrors s') (slot : Nat) :
    (b.install slot s).Mirrors (b'.install slot s') := by
  refine ⟨h.graph, h.put hs slot, h.streams, ?_, h.configured⟩
  simp only [Bench.install, h.recorders]
  cases b.recorders.find? slot with
  | none => exact hs.media
  | some r => exact hs.media.dropRecorder r

theorem transcript_install (b : Bench) (slot : Nat) (s : Recording) :
    (b.install slot s).media.transcript = s.media.transcript := by
  simp only [install]
  cases b.recorders.find? slot <;> rfl

theorem streamed_install (b : Bench) (slot : Nat) (s : Recording) :
    (b.install slot s).media.streamed = s.media.streamed := by
  simp only [install]
  cases b.recorders.find? slot <;> rfl

theorem Mirrors.newRecorder (h : b.Mirrors b') (name : String) (settings : RecorderSettings)
    (maxVerbosity : Verbosity) :
    (b.media.newRecorder name settings maxVerbosity).Mirrors
      (b'.media.newRecorder name settings maxVerbosity) := by
  refine ⟨?_, h.media.handles, congrArg (· + 1) h.media.nextSerial, h.media.status,
    h.media.lastStream⟩
  simp only [Media.newRecorder, h.media.nextSerial, Recorder.inMemory, Option.map_none]

theorem Mirrors.chronicled_create (h : b.Mirrors b') (slot : Nat) (name : String)
    (settings : RecorderSettings) (maxVerbosity : Verbosity) :
    Chronicled (.create slot name settings maxVerbosity) b b' :=
  chronicled_of_still (h.install (h.newRecorder ..) slot) rfl (transcript_install ..)
    (streamed_install ..) (newlyStreamed_eq_nil (streamed_install ..))

/-- A recorder is given up, and its image too. -/
theorem Mirrors.chronicled_drop (h : b.Mirrors b') (slot : Nat) : Chronicled (.drop slot) b b' := by
  have herase : ∀ k, (b'.recorders.erase slot).find? k =
      ((b.recorders.erase slot).find? k).map Recorder.inMemory := by
    intro k
    rw [Slots.find?_erase, Slots.find?_erase, h.recorders]
    split <;> rfl
  have hstreamed : (b'.stepInMemory (.drop slot)).media.streamed = b'.media.streamed := by
    simp only [step, stepInMemory]
    cases b'.recorders.find? slot <;> rfl
  refine chronicled_of_still ⟨h.graph, herase, h.streams, ?_, h.configured⟩ rfl ?_ hstreamed
    (newlyStreamed_eq_nil hstreamed)
  · simp only [step, stepInMemory, h.recorders]
    cases b.recorders.find? slot with
    | none => exact h.media
    | some r => exact h.media.dropRecorder r
  · simp only [step]
    cases b.recorders.find? slot <;> rfl

/-- A new recorder is opened on a stream. -/
theorem Mirrors.chronicled_openOnStream (h : b.Mirrors b') (slot stream : Nat) (name : String)
    (time : Nat) (typeName : String) :
    Chronicled (.openOnStream slot stream name time typeName) b b' := by
  by_cases hopen : ∃ t, b.streams.find? stream = some t ∧ t.state = .opened
  · obtain ⟨t, ht, hst⟩ := hopen
    have hhandle : t.handle = t.number := by simp only [TextStream.handle, hst]
    have htandem := (h.newRecorder name {} .medium).openOn (some (.transcript t.number)) time
      typeName
    obtain ⟨new, hnew, hwrites⟩ := htandem.told
    have hstreamed :
        (b'.stepInMemory (.openOnStream slot stream name time typeName)).media.streamed =
          b'.media.streamed ++ new := by
      simp only [stepInMemory, h.streams, ht, hst, hhandle, if_true, streamed_install]
      exact hnew
    refine chronicled_of_streamed ?_ rfl ?_ hstreamed rfl
    · simp only [step, stepInMemory, h.streams, ht, hst, hhandle, Option.bind_some,
        TextStream.openRecorder, if_true]
      exact h.install htandem.mirrors slot
    · simp only [step, ht, hst, Option.bind_some, TextStream.openRecorder]
      have htranscript := transcript_install b slot
        ((b.media.newRecorder name {} .medium).openOn (some (.transcript t.number)) time typeName).2
      have hcreated : Media.Writes b.media (b.media.newRecorder name {} .medium).media [] :=
        Media.writes_of_transcript_eq rfl
      exact hcreated.trans (hwrites.of_transcript_eq htranscript)
  · have hstep : (b.step (.openOnStream slot stream name time typeName)).2 = b := by
      rw [step_openOnStream_of_not_opened fun t ht hst => hopen ⟨t, ht, hst⟩]
    have hstep' : b'.stepInMemory (.openOnStream slot stream name time typeName) = b' := by
      simp only [stepInMemory, h.streams]
      cases ht : b.streams.find? stream with
      | none => rfl
      | some t => exact if_neg fun hst => hopen ⟨t, ht, hst⟩
    exact h.chronicled_self hstep hstep' rfl rfl

/-- Recorders are related. -/
theorem Mirrors.chronicled_link (h : b.Mirrors b') (ho : Orderly b past) (left right : Nat)
    (relation : String) : Chronicled (.link left right relation) b b' := by
  rcases h.find?_recorders left with ⟨hl, hl'⟩ | ⟨l, hl, hl'⟩
  · exact h.chronicled_absent (by simp only [step, hl]) (by simp only [stepInMemory, step, hl']) rfl
      (by simp only [tells, hl'])
  rcases h.find?_recorders right with ⟨hr, hr'⟩ | ⟨r, hr, hr'⟩
  · exact h.chronicled_absent (by simp only [step, hl, hr])
      (by simp only [stepInMemory, step, hl', hr']) rfl (by simp only [tells, hl', hr'])
  -- asking for a handle changes nothing
  have hasked := (h.media.acquireHandle l).2
  rw [ho.acquireHandle hl] at hasked
  have hboth := (hasked.acquireHandle r).2
  rw [ho.acquireHandle hr] at hboth
  have htells : b'.tells (.link left right relation) =
      [.link (b.media.handleOf l) (b.media.handleOf r) relation] := by
    simp only [tells, hl', hr', h.media.handleOf]
  refine chronicled_of_writes ?_ rfl ?_ ?_
  · simp only [step, stepInMemory, hl, hr, hl', hr', ho.acquireHandle hl, ho.acquireHandle hr]
    exact h.withMedia (hboth.writeEvent _ _)
  · simp only [htells, step, hl, hr, ho.acquireHandle hl, ho.acquireHandle hr]
    exact b.media.writes_writeEvent _
  · simp [htells, step, stepInMemory, hl', hr', Media.streamed, Media.delivered_writeEvent,
      Media.delivered_acquireHandle, TranscriptEvent.trace?]

/-- The recorder in a slot is asked for its handle. -/
theorem Mirrors.chronicled_handle (h : b.Mirrors b') (slot : Nat) :
    Chronicled (.handle slot) b b' := by
  rcases h.find?_recorders slot with ⟨hr, hr'⟩ | ⟨r, hr, hr'⟩
  · have hstep : (b.step (.handle slot)).2 = b := by simp only [step, hr]
    have hstep' : b'.stepInMemory (.handle slot) = b' := by simp only [stepInMemory, step, hr']
    exact h.chronicled_self hstep hstep' rfl rfl
  · have hstreamed : (b'.stepInMemory (.handle slot)).media.streamed = b'.media.streamed := by
      simp only [stepInMemory, step, hr', Media.streamed, Media.delivered_acquireHandle]
    refine chronicled_of_still ?_ rfl ?_ hstreamed (newlyStreamed_eq_nil hstreamed)
    · simp only [step, stepInMemory, hr, hr']
      exact h.withMedia (h.media.acquireHandle r).2
    · simp only [step, hr]
      exact b.media.transcript_acquireHandle r

/-! ### Commands for streams and for the file -/

/-- The transcript is given another status. -/
theorem Mirrors.chronicled_setsStatus (h : b.Mirrors b') {f : Media → Media}
    (hf : ∀ m, Media.SetsStatus m (f m) (m.transcript.status.after c))
    (hstep : ∀ b : Bench, (b.step c).2 = { b with media := f b.media })
    (hstep' : b'.stepInMemory c = (b'.step c).2)
    (htells : b'.tells c = newlyStreamed b' (b'.stepInMemory c)) : Chronicled c b b' := by
  rw [hstep] at hstep'
  have hstreamed : (b'.stepInMemory c).media.streamed = b'.media.streamed := by
    rw [hstep', Media.streamed, (hf b'.media).delivered, Media.streamed]
  refine chronicled_of_silent ?_ ?_ ?_ hstreamed (htells.trans (newlyStreamed_eq_nil hstreamed))
  · rw [hstep, hstep']
    have hm' := hf b'.media
    rw [h.media.status] at hm'
    exact h.withMedia (h.media.setsStatus (hf b.media) hm')
  · rw [hstep]
    exact (hf b.media).status
  · rw [hstep]
    exact (hf b.media).textIn

/-- A stream is created. -/
theorem Mirrors.chronicled_openStream (h : b.Mirrors b') (slot : Nat)
    (name scope typeName : String) (found : Option Outlet) :
    Chronicled (.openStream slot name scope typeName found) b b' := by
  have hm := b.media.setsStatus_openTranscript found
  have hm' := b'.media.setsStatus_openTranscript found
  rw [h.media.status] at hm'
  have hmirrors := h.media.setsStatus hm hm'
  -- the file can be opened on both sides or on neither
  have hfst : (b'.media.openTranscript found).1 = (b.media.openTranscript found).1 := by
    rw [Media.openTranscript_fst, Media.openTranscript_fst, h.media.status]
  rcases heq : b.media.openTranscript found with ⟨outcome, m⟩
  rcases heq' : b'.media.openTranscript found with ⟨outcome', m'⟩
  rw [heq] at hm hmirrors hfst
  rw [heq'] at hm' hmirrors hfst
  have hdelivered : m'.delivered = b'.media.delivered := hm'.delivered
  cases hfst
  cases outcome with
  | error e =>
    refine chronicled_of_silent ?_ ?_ ?_ ?_ ?_
    · simp only [step, stepInMemory, configureInto, TextStream.configure_new, heq, heq']
      exact h.withMedia hmirrors
    · simp only [step, configureInto, TextStream.configure_new, heq]
      exact hm.status
    · simp only [step, configureInto, TextStream.configure_new, heq]
      exact hm.textIn
    · simp only [step, stepInMemory, configureInto, TextStream.configure_new, heq',
        Media.streamed, hdelivered]
    · simp only [tells, TextStream.configure_new, heq']
  | ok =>
    have hnumber : m'.transcript.lastStream = m.transcript.lastStream := hmirrors.lastStream
    have hwrites := m.countStream.writes_writeEvent
      (.stream (m.transcript.lastStream + 1) name typeName scope)
    have hopened : (TextStream.mk name scope typeName (m.transcript.lastStream + 1) .opened).state ≠
        .unconfigured := by simp
    refine ⟨?_, ?_, ?_, ?_⟩
    · simp only [step, stepInMemory, configureInto, TextStream.configure_new, heq, heq', hnumber]
      exact (h.withMedia (hmirrors.countStream.writeEvent _ _)).withStream hopened slot
    · simp only [step, configureInto, TextStream.configure_new, heq]
      exact hwrites.status.trans hm.status
    · have htext := (Transcript.extends_of_textIn_eq hm.textIn).trans hwrites.text
      have hstatus : m.countStream.transcript.status =
          b.media.transcript.status.opening found := hm.status
      rw [hstatus] at htext
      simp only [step, tells, configureInto, TextStream.configure_new, heq, heq', hnumber]
      exact htext
    · simp only [step, stepInMemory, tells, configureInto, TextStream.configure_new, heq',
        Media.streamed, Media.delivered_writeEvent, Media.countStream, hdelivered]
      exact (List.append_nil _).symm

/-- A stream in a slot was configured before. -/
theorem Mirrors.chronicled_configureStream (h : b.Mirrors b') (slot : Nat)
    (name scope typeName : String) (found : Option Outlet) :
    Chronicled (.configureStream slot name scope typeName found) b b' := by
  cases ht : b.streams.find? slot with
  | none =>
    have ht' : b'.streams.find? slot = none := by rw [h.streams, ht]
    exact h.chronicled_self (by simp only [step, ht]) (by simp only [step, stepInMemory, ht']) rfl
      rfl
  | some t =>
    have ht' : b'.streams.find? slot = some t := by rw [h.streams, ht]
    have hst := h.configured slot t ht
    have hstreamed :
        (b'.stepInMemory (.configureStream slot name scope typeName found)).media.streamed =
          b'.media.streamed := by
      simp only [step, stepInMemory, ht', configureInto,
        TextStream.configure_of_configured _ _ _ _ hst]
      rfl
    refine chronicled_of_still ?_ rfl ?_ hstreamed (newlyStreamed_eq_nil hstreamed)
    · simp only [step, stepInMemory, ht, ht', configureInto,
        TextStream.configure_of_configured _ _ _ _ hst]
      exact h.withMedia (h.media.logEntry _ _)
    · simp only [step, ht, configureInto, TextStream.configure_of_configured _ _ _ _ hst]
      rfl

/-- Something is done to a stream. -/
theorem Mirrors.chronicled_onStream (h : b.Mirrors b') {f : TextStream → TextStream} (slot : Nat)
    (hf : ∀ t, t.state ≠ .unconfigured → (f t).state ≠ .unconfigured)
    (hstep : ∀ b : Bench, (b.step c).2 = b.onStream slot f)
    (hstep' : b'.stepInMemory c = (b'.step c).2)
    (hafter : b.media.transcript.status.after c = b.media.transcript.status)
    (htells : b'.tells c = newlyStreamed b' (b'.stepInMemory c)) : Chronicled c b b' := by
  rw [hstep, onStream] at hstep'
  have hstep := hstep b
  rw [onStream] at hstep
  have hslot : b'.streams.find? slot = b.streams.find? slot := by rw [h.streams]
  cases ht : b.streams.find? slot with
  | none =>
    rw [ht] at hstep hslot
    rw [hslot] at hstep'
    exact h.chronicled_self hstep hstep' hafter htells
  | some t =>
    rw [ht] at hstep hslot
    rw [hslot] at hstep'
    have hstreamed : (b'.stepInMemory c).media.streamed = b'.media.streamed := by rw [hstep']
    refine chronicled_of_still ?_ hafter (by rw [hstep]) hstreamed
      (htells.trans (newlyStreamed_eq_nil hstreamed))
    rw [hstep, hstep']
    exact h.withStream (hf t (h.configured slot t ht)) slot

/-- **What one command tells**: the bench and its image stay in step, and the transcript gets the
lines of what happens on the image. -/
theorem Mirrors.chronicled_step (h : b.Mirrors b') (ho : Orderly b past) (c : Command) :
    Chronicled c b b' := by
  cases c with
  | create => exact h.chronicled_create ..
  | openOn => exact h.chronicled_openOn ..
  | close slot time =>
    exact h.chronicled_onRecorder (Recording.evenHanded_close time) rfl rfl rfl rfl
  | free slot time =>
    exact h.chronicled_onRecorder (Recording.evenHanded_free time) rfl rfl rfl rfl
  | drop slot => exact h.chronicled_drop slot
  | configure slot settings =>
    have hsettings : Recording.EvenHanded fun s =>
        { s with recorder := { s.recorder with settings } } :=
      Recording.evenHanded_recorder (g := fun r => { r with settings }) fun _ => rfl
    exact h.chronicled_onRecorder hsettings rfl rfl rfl rfl
  | move slot m =>
    exact h.chronicled_onRecorder (Recording.evenHanded_moveScope m) rfl rfl rfl rfl
  | number =>
    exact h.chronicled_onRecorder (Recording.evenHanded_recordNumber ..) rfl rfl rfl rfl
  | real | string | time | generic =>
    exact h.chronicled_onRecorder (Recording.evenHanded_emit ..) rfl rfl rfl rfl
  | object slot name target =>
    refine h.chronicled_onRecorder (b.graph.evenHanded_recordObject name target) rfl ?_ rfl rfl
    rw [← h.graph]
    rfl
  | record slot r =>
    refine h.chronicled_onRecorder (b.graph.evenHanded_record r) rfl ?_ rfl rfl
    rw [← h.graph]
    rfl
  | clearTrace n =>
    -- the image keeps its traces, since what they told is in the transcript
    have hm : (b.media.clearTrace n).Mirrors b'.media :=
      ⟨h.media.handles, h.media.nextSerial, h.media.status, h.media.lastStream⟩
    exact chronicled_of_still (h.withMedia hm) rfl rfl rfl (newlyStreamed_eq_nil rfl)
  | openTranscript found =>
    exact h.chronicled_setsStatus (Media.setsStatus_openTranscript · found) (fun _ => rfl) rfl rfl
  | closeTranscript =>
    exact h.chronicled_setsStatus Media.setsStatus_closeTranscript (fun _ => rfl) rfl rfl
  | renameTranscript fileName =>
    exact h.chronicled_setsStatus (Media.setsStatus_renameTranscript · fileName) (fun _ => rfl) rfl
      rfl
  | setTime now =>
    exact h.chronicled_setsStatus (f := (·.setTime now))
      (fun _ => ⟨rfl, rfl, rfl, rfl, fun _ => rfl, rfl⟩) (fun _ => rfl) rfl rfl
  | openStream => exact h.chronicled_openStream ..
  | configureStream => exact h.chronicled_configureStream ..
  | closeStream slot =>
    refine h.chronicled_onStream (f := TextStream.close) slot (fun t ht => ?_) (fun _ => rfl) rfl
      rfl rfl
    unfold TextStream.close
    split
    · nofun
    · exact ht
  | freeStream slot =>
    exact h.chronicled_onStream (f := TextStream.free) slot (fun _ _ => nofun) (fun _ => rfl) rfl
      rfl rfl
  | openOnStream => exact h.chronicled_openOnStream ..
  | link => exact h.chronicled_link ho ..
  | handle slot => exact h.chronicled_handle slot
  | lookUp handle =>
    have hstep : ∀ b : Bench, (b.step (.lookUp handle)).2 = b := by
      intro b
      simp only [step]
      split <;> rfl
    exact h.chronicled_self (hstep b) (hstep b') rfl rfl

/-! ### Runs -/

/-- Commands in order, where recorders write to memory. -/
def runInMemory (b : Bench) (commands : List Command) : Bench := commands.foldl stepInMemory b

theorem chronicle_append (b : Bench) (s : TranscriptStatus) (commands later : List Command) :
    b.chronicle s (commands ++ later) =
      b.chronicle s commands ++ (b.runInMemory commands).chronicle (s.afterAll commands) later := by
  induction commands generalizing b s with
  | nil => rfl
  | cons c rest ih =>
    rw [List.cons_append, chronicle, ih, chronicle, List.append_assoc]
    rfl

/-- **What commands tell**: the chronicle of the image is what is added to the files. -/
theorem Mirrors.chronicled_run (h : b.Mirrors b') (ho : Orderly b past) (commands : List Command) :
    b.media.transcript.Extends (b.run commands).media.transcript
        (b'.chronicle b.media.transcript.status commands) ∧
      (b.run commands).media.transcript.status = b.media.transcript.status.afterAll commands ∧
      (b'.runInMemory commands).media.streamed = b'.media.streamed ++
        (b'.chronicle b.media.transcript.status commands).filterMap (·.event.trace?) := by
  induction commands generalizing b b' past with
  | nil => exact ⟨Transcript.extends_of_textIn_eq fun _ => rfl, rfl, (List.append_nil _).symm⟩
  | cons c rest ih =>
    have hc := h.chronicled_step ho c
    obtain ⟨htext, hstatus, htold⟩ := ih hc.mirrors (orderly_step ho c)
    rw [hc.status] at htext hstatus htold
    refine ⟨hc.text.trans htext, hstatus, htold.trans ?_⟩
    rw [hc.told, chronicle, List.filterMap_append, List.filterMap_map, List.append_assoc]
    rfl

/-- A bench on which nothing has happened, over files that are there already. -/
def startOn (graph : ObjectGraph) (fileName : String) (files : List (String × String)) : Bench where
  graph := graph
  media := { transcript := { fileName, files } }

theorem orderly_startOn (graph : ObjectGraph) (fileName : String)
    (files : List (String × String)) : Orderly (startOn graph fileName files) [] :=
  (orderly_start graph fileName).of_eq (fun _ => rfl) rfl rfl

theorem mirrors_startOn (graph : ObjectGraph) (fileName : String)
    (files : List (String × String)) :
    (startOn graph fileName files).Mirrors (start graph fileName) :=
  ⟨rfl, fun _ => rfl, rfl, ⟨rfl, rfl, rfl, rfl⟩, fun _ _ => nofun⟩

/-- The file keeps its name while it is open, and somebody is warned. -/
theorem step_renameTranscript_of_isOpen (h : b.media.transcript.isOpen = true) (fileName : String) :
    b.step (.renameTranscript fileName) = (.refused .databaseOpen,
      { b with
        media := b.media.logEntry ⟨.warn, "cannot change file name of an open database",
          [("id", "UVM/TXT_DB/OPEN")]⟩ }) := by
  simp only [step, Media.renameTranscript, h, if_true, Reply.ofExcept]

theorem step_renameTranscript_of_not_isOpen (h : b.media.transcript.isOpen = false)
    (fileName : String) :
    b.step (.renameTranscript fileName) = (.ok,
      { b with media := { b.media with transcript := { b.media.transcript with fileName } } }) := by
  simp only [step, Media.renameTranscript, h, Bool.false_eq_true, if_false, Reply.ofExcept]

/-! ### The transcript -/

/-- The transcript when commands were carried out over files that were there before. -/
structure KeepsChronicle (graph : ObjectGraph) (fileName : String)
    (files : List (String × String)) (commands : List Command) : Prop where
  /-- Each file has what it had before, and then the lines of the events that happened while it was
  open, in order. -/
  text : ∀ name, ((startOn graph fileName files).run commands).media.transcript.textIn name =
    (files.lookup name).getD "" ++
      linesIn name ((start graph fileName).chronicle { fileName } commands)
  /-- The events of recorders among these are what is in memory when they write to memory. -/
  told : ((start graph fileName).chronicle { fileName } commands).filterMap (·.event.trace?) =
    ((start graph fileName).runInMemory commands).media.streamed
  /-- Whatever comes later adds to that. -/
  kept : ∀ later name, ∃ more,
    ((startOn graph fileName files).run (commands ++ later)).media.transcript.textIn name =
      ((startOn graph fileName files).run commands).media.transcript.textIn name ++ more
  /-- While the file is open it keeps its name, and nothing changes but the log … -/
  locked : (TranscriptStatus.afterAll { fileName } commands).opened.isSome → ∀ newName,
    let b := (startOn graph fileName files).run commands
    b.step (.renameTranscript newName) = (.refused .databaseOpen,
      { b with
        media := b.media.logEntry ⟨.warn, "cannot change file name of an open database",
          [("id", "UVM/TXT_DB/OPEN")]⟩ })
  /-- … and when it is not open it gets the name. -/
  renamed : (TranscriptStatus.afterAll { fileName } commands).opened = none → ∀ newName,
    let b := (startOn graph fileName files).run commands
    b.step (.renameTranscript newName) = (.ok,
      { b with
        media := { b.media with transcript := { b.media.transcript with fileName := newName } } })

/-- A recorder goes on while the file is closed and open again. -/
example :
    (start {} "a").chronicle { fileName := "a" }
      [.openStream 0 "bus" "top" "t" (some (.file "a")), .openOnStream 0 0 "rd" 3 "t", .setTime 5,
        .string 0 "x" "v", .closeTranscript, .close 0 7, .openTranscript (some (.file "a")),
        .free 0 9] =
      [⟨⟨"a", some (.file "a"), 0⟩, .stream 1 "bus" "t" "top"⟩,
        ⟨⟨"a", some (.file "a"), 0⟩, .trace 1 (.opened 1 "rd" 3 "t")⟩,
        ⟨⟨"a", some (.file "a"), 5⟩, .trace 1 (.recorded ⟨1, "x", "v", .string, 8, none⟩)⟩,
        ⟨⟨"a", none, 5⟩, .trace 1 (.closed 1 7)⟩,
        ⟨⟨"a", some (.file "a"), 5⟩, .trace 1 (.freed 1 9)⟩] := by
  decide

end Bench

end FieldAutomation
