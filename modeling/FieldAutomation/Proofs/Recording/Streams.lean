import FieldAutomation.Proofs.Recording.Chronicle

/-!
# Streams over a run

Every stream that is configured gets the next handle of the transcript.  It is open then, until it
is closed or freed, and never opens again; only while it is open recorders can be opened on it.
Any number of streams live on a bench at the same time, and the file of the transcript is opened,
closed and renamed meanwhile.

* `Configured`: a stream that was configured; `Bench.configurations`: all that are configured in a
  run;
* `StreamState.after`: the stage of life of a stream after a command;
* `Bench.Configures`, `Bench.OpensOn`: what happens when a stream is configured, and when a recorder
  is opened on it;
* `Bench.StreamChange`: what a command does to the streams of a bench;
* `Bench.StreamsInOrder`: what the streams of a bench tell.

Main statements: `Bench.streamChange_step` (one command), `Bench.streamsHeld_run` (commands in
order) and `Bench.streamsInOrder_run`.
-/

namespace FieldAutomation

/-! ### Streams that are configured -/

/-- A stream that was configured. -/
structure Configured where
  slot : Nat
  /-- The handle that it got. -/
  handle : Nat
  name : String
  scope : String
  typeName : String
  deriving DecidableEq, Repr

namespace Configured

/-- The stream as it was then. -/
def stream (new : Configured) : TextStream :=
  ⟨new.name, new.scope, new.typeName, new.handle, .opened⟩

/-- What the transcript tells of it. -/
def event (new : Configured) : TranscriptEvent :=
  .stream new.handle new.name new.typeName new.scope

/-- The stream that was configured last in a slot. -/
def latest? (past : List Configured) (slot : Nat) : Option Configured :=
  past.reverse.find? (·.slot = slot)

theorem latest?_append (past : List Configured) (new : Configured) (slot : Nat) :
    latest? (past ++ [new]) slot = if new.slot = slot then some new else latest? past slot := by
  rw [latest?, List.reverse_append, List.reverse_singleton, List.singleton_append, List.find?_cons]
  by_cases h : new.slot = slot <;> simp [h, latest?]

theorem mem_of_latest? {past : List Configured} {slot : Nat} {new : Configured}
    (h : latest? past slot = some new) : new ∈ past :=
  List.mem_reverse.1 (List.mem_of_find?_eq_some h)

end Configured

namespace StreamState

/-- The stage of life of the stream in a slot after a command: an open stream is closed, and any
stream is freed. -/
def after (slot : Nat) (s : StreamState) : Command → StreamState
  | .closeStream k => if k = slot ∧ s = .opened then .closed else s
  | .freeStream k => if k = slot then .freed else s
  | _ => s

/-- The stage of life after commands in order. -/
def afterAll (slot : Nat) (s : StreamState) (commands : List Command) : StreamState :=
  commands.foldl (after slot) s

/-- The stages of life in order. -/
def stage : StreamState → Nat
  | unconfigured => 0
  | opened => 1
  | closed => 2
  | freed => 3

/-- No command takes a stream back to an earlier stage. -/
theorem stage_le_after (slot : Nat) (s : StreamState) (c : Command) :
    s.stage ≤ (s.after slot c).stage := by
  unfold after
  split
  next =>
    split
    next h => rw [h.2]; decide
    next => exact Nat.le_refl _
  next =>
    split
    · cases s <;> decide
    · exact Nat.le_refl _
  next => exact Nat.le_refl _

theorem stage_le_afterAll (slot : Nat) (s : StreamState) (commands : List Command) :
    s.stage ≤ (s.afterAll slot commands).stage := by
  induction commands generalizing s with
  | nil => exact Nat.le_refl _
  | cons c rest ih => exact Nat.le_trans (stage_le_after slot s c) (ih _)

variable {s : StreamState}

theorem stage_pos_iff : 0 < s.stage ↔ s ≠ .unconfigured := by
  cases s <;> decide

theorem one_lt_stage_iff : 1 < s.stage ↔ s = .closed ∨ s = .freed := by
  cases s <;> decide

theorem two_lt_stage_iff : 2 < s.stage ↔ s = .freed := by
  cases s <;> decide

theorem after_ne_unconfigured {slot : Nat} {c : Command} (h : s ≠ .unconfigured) :
    s.after slot c ≠ .unconfigured :=
  stage_pos_iff.1 (Nat.lt_of_lt_of_le (stage_pos_iff.2 h) (stage_le_after slot s c))

/-- A stream that is over is over for good. -/
theorem afterAll_of_over {slot : Nat} {commands : List Command} (h : s = .closed ∨ s = .freed) :
    s.afterAll slot commands = .closed ∨ s.afterAll slot commands = .freed :=
  one_lt_stage_iff.1
    (Nat.lt_of_lt_of_le (one_lt_stage_iff.2 h) (stage_le_afterAll slot s commands))

/-- A stream that is not configured is not opened by closing or freeing it. -/
theorem after_of_idle {slot : Nat} {c : Command} (h : s = .unconfigured ∨ s = .freed) :
    s.after slot c = .unconfigured ∨ s.after slot c = .freed := by
  unfold after
  split
  next => rcases h with rfl | rfl <;> simp
  next =>
    split
    · exact .inr rfl
    · exact h
  next => exact h

end StreamState

/-- The command puts a new stream into a slot, if it can. -/
def Command.Replaces (slot : Nat) : Command → Prop
  | .openStream k .. => k = slot
  | _ => False

namespace TextStream

variable (slot : Nat) (t : TextStream)

/-- A stream in a slot after a command that does not configure it. -/
def after (c : Command) : TextStream := { t with state := t.state.after slot c }

theorem close_eq (k : Nat) :
    (if k = slot then t.close else t) = t.after slot (.closeStream k) := by
  obtain ⟨name, scope, typeName, number, state⟩ := t
  by_cases hk : k = slot
  · cases state <;> simp [after, StreamState.after, close, hk]
  · simp [after, StreamState.after, hk]

theorem handle_of_idle {t : TextStream} (h : t.state = .unconfigured ∨ t.state = .freed) :
    t.handle = 0 := by
  rcases h with h | h <;> simp [handle, h]

theorem handle_of_live {t : TextStream} (h : ¬ (t.state = .unconfigured ∨ t.state = .freed)) :
    t.handle = t.number := by
  unfold handle
  split
  next h' => exact absurd (.inl h') h
  next h' => exact absurd (.inr h') h
  next => rfl

/-- A stream that is not freed has the handle that it had when it was configured. -/
theorem handle_afterAll {slot : Nat} {t : TextStream} {commands : List Command}
    (h : t.state ≠ .unconfigured) (hlive : t.state.afterAll slot commands ≠ .freed) :
    ({ t with state := t.state.afterAll slot commands } : TextStream).handle = t.handle := by
  -- stages do not fall, so the stream was configured and not freed all the time
  have hle := StreamState.stage_le_afterAll slot t.state commands
  have hpos := StreamState.stage_pos_iff.2 h
  have hlt : ¬ 2 < (t.state.afterAll slot commands).stage := mt StreamState.two_lt_stage_iff.1 hlive
  have hbefore : t.state ≠ .freed := mt StreamState.two_lt_stage_iff.2 (by omega)
  have hafter : t.state.afterAll slot commands ≠ .unconfigured :=
    StreamState.stage_pos_iff.1 (by omega)
  rw [handle_of_live (not_or.2 ⟨hafter, hlive⟩), handle_of_live (not_or.2 ⟨h, hbefore⟩)]

theorem free_eq (k : Nat) : (if k = slot then t.free else t) = t.after slot (.freeStream k) := by
  by_cases hk : k = slot <;> simp [after, StreamState.after, free, hk]

end TextStream

/-! ### The file of the transcript -/

namespace Media

variable {m : Media}

/-- The file of the transcript is open, or something is found where its name leads. -/
def canOpen (m : Media) (found : Option Outlet) : Bool := m.transcript.isOpen || found.isSome

theorem openTranscript_of_canOpen {found : Option Outlet} (h : m.canOpen found = true) :
    ∃ m₁, m.openTranscript found = (.ok (), m₁) ∧
      SetsStatus m m₁ (m.transcript.status.opening found) := by
  have hopened : (m.transcript.status.opening found).opened.isSome = true := by
    rw [← h]
    exact Option.isSome_or
  have hfst := m.openTranscript_fst found
  rw [if_pos hopened] at hfst
  exact ⟨(m.openTranscript found).2, Prod.ext hfst rfl, m.setsStatus_openTranscript found⟩

theorem openTranscript_of_not_canOpen {found : Option Outlet} (h : m.canOpen found = false) :
    m.openTranscript found = (.error .unwritable, m) := by
  obtain ⟨hclosed, rfl⟩ : m.transcript.isOpen = false ∧ found = none := by
    simpa [canOpen] using h
  simp only [openTranscript, hclosed, Bool.false_eq_true, if_false]

theorem writes_writeEvent_of_eq {m' : Media} (h : m'.transcript = m.transcript)
    (e : TranscriptEvent) : Writes m (m'.writeEvent e) [e] :=
  (writes_of_transcript_eq h).trans (m'.writes_writeEvent e)

end Media

/-- Opening a recorder on a stream writes its line. -/
theorem Recording.writes_openOn {s : Recording} (hs : s.Registered)
    (hst : s.recorder.state = .freed) (stream time : Nat) (typeName : String) :
    Media.Writes s.media (s.openOn (some (.transcript stream)) time typeName).2.media
      [.trace stream (.opened (s.media.handles.last + 1) s.recorder.name time typeName)] := by
  have hn := hs.consistent.info?_eq_none_iff.1 (hs.freed hst).1
  have hacquire := HandleTable.acquire_of_none hs.consistent hn s.recorder.name typeName time
  simp only [openOn, hst, ne_eq, not_true_eq_false, if_false, acquireHandle, Media.acquireHandle,
    hacquire, deliver, logDebug, Media.deliver]
  exact Media.writes_writeEvent_of_eq (by rfl) _

namespace Bench

/-! ### Configuring a stream -/

/-- `b'` is `b` after a stream was configured, where `found` is what was found if the file had to be
opened. -/
structure Configures (b b' : Bench) (new : Configured) (found : Option Outlet) : Prop where
  recorders : b'.recorders = b.recorders
  handles : b'.media.handles = b.media.handles
  streams : b'.streams = b.streams.put new.slot new.stream
  handle : new.handle = b.media.transcript.lastStream + 1
  last : b'.media.transcript.lastStream = new.handle
  /-- The file is open, and gets the line of the stream. -/
  status : b'.media.transcript.status = b.media.transcript.status.opening found
  text : b.media.transcript.Extends b'.media.transcript [⟨b'.media.transcript.status, new.event⟩]

/-- The command configures the stream in a slot if the file of the transcript is open or can be
opened, and otherwise changes nothing. -/
def Attempts (b : Bench) (c : Command) (slot : Nat) (name scope typeName : String)
    (found : Option Outlet) : Prop :=
  if b.media.canOpen found then
    (b.step c).1 = .ok ∧ b.Configures (b.step c).2
      ⟨slot, b.media.transcript.lastStream + 1, name, scope, typeName⟩ found
  else b.step c = (.refused .unwritable, b)

variable {b b' : Bench} {c : Command} {past : List Configured} {found : Option Outlet}

/-- A stream that is not configured gets the next handle, if the file can be opened. -/
theorem attempts_of_step {slot : Nat} {t : TextStream} {name scope typeName : String}
    (ht : t.state = .unconfigured)
    (hstep : b.step c = b.configureInto slot t name scope typeName found) :
    b.Attempts c slot name scope typeName found := by
  unfold Attempts
  rw [hstep]
  split
  next h =>
    -- the file is opened first, then the handle is counted and the line is written
    obtain ⟨m, hm, hstatus⟩ := Media.openTranscript_of_canOpen h
    have hwrites := m.countStream.writes_writeEvent
      (.stream (m.transcript.lastStream + 1) name typeName scope)
    have hlast : m.transcript.lastStream = b.media.transcript.lastStream := hstatus.lastStream
    have hopened : m.countStream.transcript.status = b.media.transcript.status.opening found :=
      hstatus.status
    have htext := (Transcript.extends_of_textIn_eq hstatus.textIn).trans hwrites.text
    have hhandles := (m.countStream.quiet_writeEvent
      (.stream (m.transcript.lastStream + 1) name typeName scope)).handles
    rw [← hwrites.status] at htext
    simp only [configureInto, TextStream.configure, ht, ne_eq, not_true_eq_false, if_false, hm]
    rw [← hlast]
    exact ⟨trivial, rfl, hhandles.trans hstatus.handles, rfl, by rw [hlast], hwrites.lastStream,
      hwrites.status.trans hopened, htext⟩
  next h =>
    have hm := Media.openTranscript_of_not_canOpen (Bool.eq_false_iff.2 h)
    simp only [configureInto, TextStream.configure, ht, ne_eq, not_true_eq_false, if_false, hm]

theorem attempts_openStream (b : Bench) (slot : Nat) (name scope typeName : String)
    (found : Option Outlet) :
    b.Attempts (.openStream slot name scope typeName found) slot name scope typeName found :=
  attempts_of_step (t := {}) rfl rfl

theorem attempts_configureStream {slot : Nat} {t : TextStream} (ht : b.streams.find? slot = some t)
    (hst : t.state = .unconfigured) (name scope typeName : String) (found : Option Outlet) :
    b.Attempts (.configureStream slot name scope typeName found) slot name scope typeName found :=
  attempts_of_step hst (by simp only [step, ht])

/-- A stream that was configured before is left as it is, and somebody is told. -/
theorem step_configureStream_of_configured {slot : Nat} {t : TextStream}
    (ht : b.streams.find? slot = some t) (hst : t.state ≠ .unconfigured)
    (name scope typeName : String) (found : Option Outlet) :
    b.step (.configureStream slot name scope typeName found) =
      (.refused (.streamReconfigured t.name),
        { b with
          media := b.media.logEntry ⟨.error, (RecordingError.streamReconfigured t.name).message,
            [("id", "UVM/REC_STR/RE_CFG")]⟩ }) := by
  simp only [step, ht, configureInto, TextStream.configure_of_configured _ _ _ _ hst]

/-- What is configured when a command is carried out. -/
def configured? (b : Bench) (c : Command) : Option Configured :=
  match c with
  | .openStream slot name scope typeName _ | .configureStream slot name scope typeName _ =>
    if (b.step c).1 = .ok then
      ((b.step c).2.streams.find? slot).map fun t => ⟨slot, t.handle, name, scope, typeName⟩
    else none
  | _ => none

/-- What is configured when commands are carried out, in order. -/
def configurations (b : Bench) : List Command → List Configured
  | [] => []
  | c :: rest => (b.configured? c).toList ++ (b.step c).2.configurations rest

/-! ### What a command does to streams -/

/-- What can happen to the streams of a bench while a command is carried out, and what is
configured by it. -/
inductive StreamChange (c : Command) (b b' : Bench) : Option Configured → Prop where
  /-- At most one stream is closed or freed. -/
  | steady (hlast : b'.media.transcript.lastStream = b.media.transcript.lastStream)
      (hfind : ∀ k, b'.streams.find? k = (b.streams.find? k).map (·.after k c)) :
      StreamChange c b b' none
  /-- A new stream is put into a slot and configured, or one that was not configured yet. -/
  | configures {new : Configured} {found : Option Outlet} (h : b.Configures b' new found)
      (hslot : c.Replaces new.slot ∧ (b.step c).1 = .ok ∨
        ∃ t, b.streams.find? new.slot = some t ∧ t.state = .unconfigured)
      (hafter : ∀ k (t : TextStream), t.after k c = t) : StreamChange c b b' (some new)

/-- The streams of a bench stay as they are. -/
structure StreamsStay (b b' : Bench) : Prop where
  streams : b'.streams = b.streams
  last : b'.media.transcript.lastStream = b.media.transcript.lastStream

theorem StreamsStay.streamChange (h : b.StreamsStay b') (hafter : ∀ k (t : TextStream),
    t.after k c = t) : StreamChange c b b' none :=
  .steady h.last fun k => by simp [h.streams, hafter]

theorem streamsStay_self (b : Bench) : b.StreamsStay b := ⟨rfl, rfl⟩

/-- What is done to a recorder may write lines, and these count no streams. -/
theorem streamsStay_onRecorder (b : Bench) (slot : Nat) {f : Recording → Recording}
    (hf : Recording.EvenHanded f) : b.StreamsStay (b.onRecorder slot f) := by
  unfold onRecorder
  split
  next => exact b.streamsStay_self
  next r hr =>
    have hs : Recording.Mirrors ⟨r, b.media⟩ ⟨r.inMemory, b.media⟩ := ⟨rfl, rfl, rfl, rfl, rfl⟩
    obtain ⟨new, -, hwrites⟩ := (hf hs).told
    exact ⟨rfl, hwrites.lastStream⟩

theorem streamsStay_openOn (b : Bench) (slot : Nat) (backend : Option Backend) (time : Nat)
    (typeName : String) :
    b.StreamsStay (b.step (.openOn slot backend time typeName)).2 := by
  simp only [step]
  split
  next => exact b.streamsStay_self
  next r hr =>
    have hs : Recording.Mirrors ⟨r, b.media⟩ ⟨r.inMemory, b.media⟩ := ⟨rfl, rfl, rfl, rfl, rfl⟩
    obtain ⟨new, -, hwrites⟩ := (hs.openOn backend time typeName).told
    exact ⟨rfl, hwrites.lastStream⟩

theorem streamsStay_install (slot : Nat) {s : Recording}
    (h : s.media.transcript.lastStream = b.media.transcript.lastStream) :
    b.StreamsStay (b.install slot s) :=
  ⟨rfl, by rw [transcript_install, h]⟩

/-- `b'` is `b` after a new recorder was put into a slot and opened on a stream. -/
structure OpensOn (b b' : Bench) (slot stream : Nat) (info : RecorderInfo) : Prop where
  recorder : ∃ r, b'.recorders.find? slot = some r ∧ r.state = .opened ∧
    r.backend = some (.transcript stream) ∧ b'.media.handleOf r = info.handle ∧
    r.infoAs info.handle = info
  handle : info.handle = b.media.handles.last + 1
  last : b'.media.handles.last = info.handle
  /-- The line of the recorder tells of the stream. -/
  text : b.media.transcript.Extends b'.media.transcript
    [⟨b.media.transcript.status, .trace stream info.opening⟩]
  status : b'.media.transcript.status = b.media.transcript.status
  stay : b.StreamsStay b'

/-- A recorder is opened on a stream that is open. -/
theorem step_openOnStream_of_opened {openings : List Opening} (ho : Orderly b openings)
    {stream : Nat} {t : TextStream} (ht : b.streams.find? stream = some t)
    (hst : t.state = .opened) (slot : Nat) (name : String) (time : Nat) (typeName : String) :
    (b.step (.openOnStream slot stream name time typeName)).1 = .ok ∧
      b.OpensOn (b.step (.openOnStream slot stream name time typeName)).2 slot t.handle
        ⟨b.media.handles.last + 1, name, typeName, time⟩ := by
  have hhandle : t.handle = t.number := by simp only [TextStream.handle, hst]
  have hreg := ho.registered_newRecorder name {} .medium
  obtain ⟨-, hopens⟩ := Recording.opens_openOn hreg rfl (.transcript t.number) time typeName
  have hwrites := Recording.writes_openOn hreg rfl t.number time typeName
  have hinstall := ho.opens_install hopens rfl ho.consistent slot
  simp only [step, ht, Option.bind_some, TextStream.openRecorder, hst, hhandle]
  generalize ((b.media.newRecorder name {} .medium).openOn (some (.transcript t.number)) time
    typeName).2 = s at hopens hwrites hinstall ⊢
  have htranscript := transcript_install b slot s
  refine ⟨trivial, ⟨s.recorder, Slots.find?_put_self .., hopens.state, hopens.backend,
    hinstall.handle_eq, hopens.infoAs⟩, rfl, hinstall.last.trans hinstall.handle.symm, ?_, ?_,
    streamsStay_install slot ?_⟩
  · rw [htranscript]
    exact hwrites.text
  · rw [htranscript]
    exact hwrites.status
  · exact hwrites.lastStream

/-- The streams of a bench change by what is done to one of them. -/
theorem streamChange_onStream {f : TextStream → TextStream} (slot : Nat)
    (hf : ∀ k t, (if slot = k then f t else t) = t.after k c) :
    StreamChange c b (b.onStream slot f) none := by
  unfold onStream
  split
  next hnone =>
    refine .steady rfl fun k => ?_
    by_cases hk : k = slot
    · rw [hk, hnone, Option.map_none]
    · simp [← hf, Ne.symm hk]
  next t ht =>
    refine .steady rfl fun k => ?_
    rw [Slots.find?_put]
    by_cases hk : k = slot
    · rw [if_pos hk, hk, ht, Option.map_some, ← hf, if_pos rfl]
    · simp [← hf, hk, Ne.symm hk]

/-- A stream is configured, or nothing happens. -/
theorem Attempts.streamChange {slot : Nat} {name scope typeName : String}
    (h : b.Attempts c slot name scope typeName found)
    (hslot : c.Replaces slot ∨ ∃ t, b.streams.find? slot = some t ∧ t.state = .unconfigured)
    (hafter : ∀ k (t : TextStream), t.after k c = t)
    (hconfigured : b.configured? c = if (b.step c).1 = .ok then
        ((b.step c).2.streams.find? slot).map fun t => ⟨slot, t.handle, name, scope, typeName⟩
      else none) : StreamChange c b (b.step c).2 (b.configured? c) := by
  unfold Attempts at h
  split at h
  next =>
    obtain ⟨hok, hnew⟩ := h
    rw [if_pos hok, hnew.streams, Slots.find?_put_self, Option.map_some] at hconfigured
    rw [hconfigured]
    exact .configures hnew (hslot.imp_left (⟨·, hok⟩)) hafter
  next =>
    rw [hconfigured, h]
    exact b.streamsStay_self.streamChange hafter

theorem streamChange_configureStream (b : Bench) (slot : Nat) (name scope typeName : String)
    (found : Option Outlet) :
    StreamChange (.configureStream slot name scope typeName found) b
      (b.step (.configureStream slot name scope typeName found)).2
      (b.configured? (.configureStream slot name scope typeName found)) := by
  cases ht : b.streams.find? slot with
  | none =>
    simp only [configured?, step, ht]
    exact b.streamsStay_self.streamChange fun _ _ => rfl
  | some t =>
    by_cases hst : t.state = .unconfigured
    · exact (attempts_configureStream ht hst name scope typeName found).streamChange
        (.inr ⟨t, ht, hst⟩) (fun _ _ => rfl) rfl
    · simp only [configured?, step_configureStream_of_configured ht hst]
      exact StreamsStay.streamChange ⟨rfl, rfl⟩ fun _ _ => rfl

theorem streamsStay_openOnStream {openings : List Opening} (ho : Orderly b openings)
    (slot stream : Nat) (name : String) (time : Nat) (typeName : String) :
    b.StreamsStay (b.step (.openOnStream slot stream name time typeName)).2 := by
  by_cases h : ∃ t, b.streams.find? stream = some t ∧ t.state = .opened
  · obtain ⟨t, ht, hst⟩ := h
    exact (step_openOnStream_of_opened ho ht hst slot name time typeName).2.stay
  · rw [step_openOnStream_of_not_opened fun t ht hst => h ⟨t, ht, hst⟩]
    exact b.streamsStay_self

theorem streamsStay_link (b : Bench) (left right : Nat) (relation : String) :
    b.StreamsStay (b.step (.link left right relation)).2 := by
  simp only [step]
  split
  next =>
    refine ⟨rfl, ?_⟩
    dsimp only
    rw [(Media.writes_writeEvent _ _).lastStream, Media.transcript_acquireHandle,
      Media.transcript_acquireHandle]
  next => exact b.streamsStay_self

/-- **What one command does to streams**: it configures one, closes or frees one, or leaves them
all as they are. -/
theorem streamChange_step {openings : List Opening} (ho : Orderly b openings) (c : Command) :
    StreamChange c b (b.step c).2 (b.configured? c) := by
  -- all commands but four leave the streams as they are
  have hstay (hc : b.StreamsStay (b.step c).2) (hafter : ∀ k (t : TextStream), t.after k c = t)
      (hnone : b.configured? c = none) : StreamChange c b (b.step c).2 (b.configured? c) :=
    hnone ▸ hc.streamChange hafter
  have hdone {slot : Nat} {f : Recording → Recording} (hf : Recording.EvenHanded f) :=
    b.streamsStay_onRecorder slot hf
  cases c with
  | openStream =>
    exact (b.attempts_openStream ..).streamChange (.inl rfl) (fun _ _ => rfl) rfl
  | configureStream => exact b.streamChange_configureStream ..
  | closeStream slot => exact streamChange_onStream slot fun k t => TextStream.close_eq ..
  | freeStream slot => exact streamChange_onStream slot fun k t => TextStream.free_eq ..
  | openOnStream => exact hstay (streamsStay_openOnStream ho ..) (fun _ _ => rfl) rfl
  | openOn => exact hstay (b.streamsStay_openOn ..) (fun _ _ => rfl) rfl
  | create => exact hstay (streamsStay_install _ rfl) (fun _ _ => rfl) rfl
  | drop slot =>
    refine hstay ⟨rfl, ?_⟩ (fun _ _ => rfl) rfl
    simp only [step]
    cases b.recorders.find? slot <;> rfl
  | clearTrace | setTime => exact hstay ⟨rfl, rfl⟩ (fun _ _ => rfl) rfl
  | openTranscript found =>
    exact hstay ⟨rfl, (b.media.setsStatus_openTranscript found).lastStream⟩ (fun _ _ => rfl) rfl
  | closeTranscript =>
    exact hstay ⟨rfl, b.media.setsStatus_closeTranscript.lastStream⟩ (fun _ _ => rfl) rfl
  | renameTranscript =>
    exact hstay ⟨rfl, (b.media.setsStatus_renameTranscript _).lastStream⟩ (fun _ _ => rfl) rfl
  | link => exact hstay (b.streamsStay_link ..) (fun _ _ => rfl) rfl
  | handle slot =>
    refine hstay ?_ (fun _ _ => rfl) rfl
    simp only [step]
    split
    · exact b.streamsStay_self
    · exact ⟨rfl, congrArg Transcript.lastStream (b.media.transcript_acquireHandle _)⟩
  | lookUp handle =>
    refine hstay ?_ (fun _ _ => rfl) rfl
    simp only [step]
    split <;> exact b.streamsStay_self
  | close slot time => exact hstay (hdone (Recording.evenHanded_close time)) (fun _ _ => rfl) rfl
  | free slot time => exact hstay (hdone (Recording.evenHanded_free time)) (fun _ _ => rfl) rfl
  | configure slot settings =>
    exact hstay (hdone (Recording.evenHanded_recorder (g := fun r => { r with settings })
      fun _ => rfl)) (fun _ _ => rfl) rfl
  | move slot m => exact hstay (hdone (Recording.evenHanded_moveScope m)) (fun _ _ => rfl) rfl
  | number => exact hstay (hdone (Recording.evenHanded_recordNumber ..)) (fun _ _ => rfl) rfl
  | real | string | time | generic =>
    exact hstay (hdone (Recording.evenHanded_emit ..)) (fun _ _ => rfl) rfl
  | object slot name target =>
    exact hstay (hdone (b.graph.evenHanded_recordObject name target)) (fun _ _ => rfl) rfl
  | record slot r => exact hstay (hdone (b.graph.evenHanded_record r)) (fun _ _ => rfl) rfl

/-! ### Streams and what was configured -/

/-- A stream in a slot is what was configured there last; if nothing was, it is not configured or
freed, and has no number. -/
def HeldAs (slot : Nat) (t : TextStream) : Option Configured → Prop
  | some new => new = ⟨slot, t.number, t.name, t.scope, t.typeName⟩ ∧ t.state ≠ .unconfigured
  | none => t.number = 0 ∧ (t.state = .unconfigured ∨ t.state = .freed)

theorem HeldAs.after {slot : Nat} {t : TextStream} {last : Option Configured}
    (h : HeldAs slot t last) (c : Command) : HeldAs slot (t.after slot c) last := by
  cases last with
  | some new => exact ⟨h.1, StreamState.after_ne_unconfigured h.2⟩
  | none => exact ⟨h.1, StreamState.after_of_idle h.2⟩

/-- The streams of a bench are those that were configured so far, under the handles that they got
one after the other. -/
structure StreamsHeld (b : Bench) (past : List Configured) : Prop where
  handles : past.map (·.handle) = List.range' 1 b.media.transcript.lastStream
  held : ∀ slot t, b.streams.find? slot = some t → HeldAs slot t (Configured.latest? past slot)

/-- **Each change** keeps the streams those that were configured. -/
theorem StreamChange.streamsHeld {o : Option Configured} (h : StreamsHeld b past)
    (hc : StreamChange c b b' o) : StreamsHeld b' (past ++ o.toList) := by
  cases hc with
  | steady hlast hfind =>
    rw [Option.toList_none, List.append_nil]
    refine ⟨by rw [hlast, h.handles], fun slot t' ht' => ?_⟩
    rw [hfind] at ht'
    obtain ⟨t, ht, rfl⟩ := Option.map_eq_some_iff.1 ht'
    exact (h.held slot t ht).after c
  | @configures new _ hnew =>
    refine ⟨?_, fun slot t ht => ?_⟩
    · rw [Option.toList_some, List.map_append, h.handles, hnew.last, hnew.handle,
        List.range'_concat]
      simp [hnew.handle, Nat.add_comm]
    · rw [hnew.streams, Slots.find?_put] at ht
      rw [Option.toList_some, Configured.latest?_append]
      by_cases hslot : slot = new.slot
      · rw [if_pos hslot] at ht
        obtain rfl := Option.some.inj ht
        rw [if_pos hslot.symm, hslot]
        exact ⟨rfl, by simp [Configured.stream]⟩
      · rw [if_neg hslot] at ht
        rw [if_neg (Ne.symm hslot)]
        exact h.held slot t ht

/-- So do commands in order. -/
theorem streamsHeld_run {openings : List Opening} (ho : Orderly b openings)
    (h : StreamsHeld b past) (commands : List Command) :
    StreamsHeld (b.run commands) (past ++ b.configurations commands) := by
  induction commands generalizing b past openings with
  | nil => simpa [configurations] using h
  | cons c rest ih =>
    rw [configurations, ← List.append_assoc]
    exact ih (orderly_step ho c) ((streamChange_step ho c).streamsHeld h)

/-- Whatever the commands do, they put no new stream into a slot. -/
def Stays (slot : Nat) : Bench → List Command → Prop
  | _, [] => True
  | b, c :: rest => ¬ (c.Replaces slot ∧ (b.step c).1 = .ok) ∧ Stays slot (b.step c).2 rest

/-- A stream that was configured goes on with its life. -/
theorem StreamChange.find?_of_stays {slot : Nat} {t : TextStream} {o : Option Configured}
    (hc : StreamChange c b b' o) (ht : b.streams.find? slot = some t)
    (hst : t.state ≠ .unconfigured) (hstays : ¬ (c.Replaces slot ∧ (b.step c).1 = .ok)) :
    b'.streams.find? slot = some (t.after slot c) := by
  cases hc with
  | steady hlast hfind => rw [hfind, ht, Option.map_some]
  | @configures new _ hnew hslot hafter =>
    -- what is configured here would be a new stream, or one that was not configured yet
    have hne : slot ≠ new.slot := by
      rintro rfl
      rcases hslot with hreplaced | ⟨u, hu, hunconfigured⟩
      · exact hstays hreplaced
      · rw [ht, Option.some.injEq] at hu
        exact hst (hu ▸ hunconfigured)
    rw [hnew.streams, Slots.find?_put, if_neg hne, ht, hafter]

theorem find?_streams_run {openings : List Opening} (ho : Orderly b openings) {slot : Nat}
    {t : TextStream} (ht : b.streams.find? slot = some t) (hst : t.state ≠ .unconfigured)
    {commands : List Command} (hstays : b.Stays slot commands) :
    (b.run commands).streams.find? slot =
      some { t with state := t.state.afterAll slot commands } := by
  induction commands generalizing b t openings with
  | nil => exact ht
  | cons c rest ih =>
    have hnext := (streamChange_step ho c).find?_of_stays ht hst hstays.1
    exact ih (orderly_step ho c) hnext (StreamState.after_ne_unconfigured hst) hstays.2

/-- A bench on which nothing has happened, over files that are there already, and with streams in
some slots that are not configured. -/
def startWithStreams (graph : ObjectGraph) (fileName : String) (files : List (String × String))
    (slots : List Nat) : Bench :=
  { startOn graph fileName files with streams := slots.foldr (fun slot s => s.put slot {}) {} }

theorem orderly_startWithStreams (graph : ObjectGraph) (fileName : String)
    (files : List (String × String)) (slots : List Nat) :
    Orderly (startWithStreams graph fileName files slots) [] :=
  (orderly_startOn graph fileName files).of_eq (fun _ => rfl) rfl rfl

theorem streamsHeld_startWithStreams (graph : ObjectGraph) (fileName : String)
    (files : List (String × String)) (slots : List Nat) :
    StreamsHeld (startWithStreams graph fileName files slots) [] := by
  refine ⟨rfl, fun slot t ht => ?_⟩
  have hnew : t = {} := by
    simp only [startWithStreams] at ht
    induction slots with
    | nil => cases ht
    | cons k rest ih =>
      rw [List.foldr_cons, Slots.find?_put] at ht
      split at ht
      · exact (Option.some.inj ht).symm
      · exact ih ht
  rw [hnew]
  exact ⟨rfl, .inl rfl⟩

/-! ### Streams in order -/

/-- The streams of a bench on which `past` was configured. -/
structure StreamsInOrder (b : Bench) (past : List Configured) : Prop where
  /-- Handles are handed out one after the other, one to each stream that is configured. -/
  counted : past.map (·.handle) = List.range' 1 b.media.transcript.lastStream
  /-- A stream has handle 0 before it is configured and after it is freed, and not in between. -/
  zero_iff : ∀ slot t, b.streams.find? slot = some t →
    (t.handle = 0 ↔ t.state = .unconfigured ∨ t.state = .freed)
  before : ∀ slot t, b.streams.find? slot = some t → t.state = .unconfigured →
    Configured.latest? past slot = none
  /-- In between it is as it was configured … -/
  own : ∀ slot t, b.streams.find? slot = some t → t.handle ≠ 0 →
    Configured.latest? past slot = some ⟨slot, t.handle, t.name, t.scope, t.typeName⟩
  /-- … and no other stream has its handle. -/
  distinct : ∀ slot slot' t t', b.streams.find? slot = some t → b.streams.find? slot' = some t' →
    t.handle ≠ 0 → t.handle = t'.handle → slot = slot'
  /-- A new stream, or one that is not configured, is configured if the file is open or can be
  opened this time; if it cannot, nothing changes. -/
  opens : ∀ slot name scope typeName found,
    b.Attempts (.openStream slot name scope typeName found) slot name scope typeName found
  configures : ∀ slot t name scope typeName found, b.streams.find? slot = some t →
    t.state = .unconfigured →
    b.Attempts (.configureStream slot name scope typeName found) slot name scope typeName found
  /-- Any other stream is left as it is, and nothing changes but the log. -/
  refuses : ∀ slot t name scope typeName found, b.streams.find? slot = some t →
    t.state ≠ .unconfigured → b.step (.configureStream slot name scope typeName found) =
      (.refused (.streamReconfigured t.name),
        { b with
          media := b.media.logEntry ⟨.error, (RecordingError.streamReconfigured t.name).message,
            [("id", "UVM/REC_STR/RE_CFG")]⟩ })
  /-- A recorder is opened on a stream that is open, and on no other. -/
  records : ∀ slot stream t name time typeName, b.streams.find? stream = some t →
    t.state = .opened → (b.step (.openOnStream slot stream name time typeName)).1 = .ok ∧
      b.OpensOn (b.step (.openOnStream slot stream name time typeName)).2 slot t.handle
        ⟨b.media.handles.last + 1, name, typeName, time⟩
  ignores : ∀ slot stream name time typeName,
    (∀ t, b.streams.find? stream = some t → t.state ≠ .opened) →
      b.step (.openOnStream slot stream name time typeName) = (.absent, b)
  /-- Whatever happens, a stream that was configured stays in its slot until a new one is put
  there.  It is only closed and freed, keeps its handle until it is freed, and does not open
  again. -/
  kept : ∀ slot t commands, b.streams.find? slot = some t → t.state ≠ .unconfigured →
    b.Stays slot commands → ∃ t', (b.run commands).streams.find? slot = some t' ∧
      t' = { t with state := t.state.afterAll slot commands } ∧
      (t'.state ≠ .freed → t'.handle = t.handle) ∧
      (t.state = .closed ∨ t.state = .freed → t'.state = .closed ∨ t'.state = .freed)

namespace StreamsHeld

variable {slot : Nat} {t : TextStream}

theorem handle_pos (h : StreamsHeld b past) {new : Configured} (hnew : new ∈ past) :
    0 < new.handle := by
  have := List.mem_map_of_mem (f := (·.handle)) hnew
  rw [h.handles, List.mem_range'_1] at this
  omega

theorem eq_of_handle_eq (h : StreamsHeld b past) {new new' : Configured} (hnew : new ∈ past)
    (hnew' : new' ∈ past) (heq : new.handle = new'.handle) : new = new' := by
  have hnodup : (past.map (·.handle)).Nodup := by
    rw [h.handles]
    exact List.nodup_range'
  exact List.inj_on_of_nodup_map hnodup hnew hnew' heq

/-- A stream in use is as it was configured. -/
theorem latest?_eq (h : StreamsHeld b past) (ht : b.streams.find? slot = some t)
    (hst : ¬ (t.state = .unconfigured ∨ t.state = .freed)) :
    Configured.latest? past slot = some ⟨slot, t.handle, t.name, t.scope, t.typeName⟩ := by
  have hheld := h.held slot t ht
  cases hlast : Configured.latest? past slot with
  | none =>
    rw [hlast] at hheld
    exact absurd hheld.2 hst
  | some new =>
    rw [hlast] at hheld
    rw [hheld.1, TextStream.handle_of_live hst]

theorem handle_eq_zero_iff (h : StreamsHeld b past) (ht : b.streams.find? slot = some t) :
    t.handle = 0 ↔ t.state = .unconfigured ∨ t.state = .freed := by
  refine ⟨fun hzero => Decidable.byContradiction fun hst => ?_, TextStream.handle_of_idle⟩
  have hpos : 0 < t.handle := h.handle_pos (Configured.mem_of_latest? (h.latest?_eq ht hst))
  omega

theorem handle_inj (h : StreamsHeld b past) {slot' : Nat} {t' : TextStream}
    (ht : b.streams.find? slot = some t) (ht' : b.streams.find? slot' = some t')
    (hne : t.handle ≠ 0) (heq : t.handle = t'.handle) : slot = slot' := by
  have hlast := h.latest?_eq ht (mt (h.handle_eq_zero_iff ht).2 hne)
  have hlast' := h.latest?_eq ht' (mt (h.handle_eq_zero_iff ht').2 (heq ▸ hne))
  exact congrArg Configured.slot (h.eq_of_handle_eq (Configured.mem_of_latest? hlast)
    (Configured.mem_of_latest? hlast') heq)

theorem latest?_eq_none (h : StreamsHeld b past) (ht : b.streams.find? slot = some t)
    (hst : t.state = .unconfigured) : Configured.latest? past slot = none := by
  have hheld := h.held slot t ht
  cases hlast : Configured.latest? past slot with
  | none => rfl
  | some new =>
    rw [hlast] at hheld
    exact absurd hst hheld.2

/-- Streams that are those configured so far are in order. -/
theorem streamsInOrder {openings : List Opening} (ho : Orderly b openings)
    (h : StreamsHeld b past) : StreamsInOrder b past where
  counted := h.handles
  zero_iff := fun _ _ => h.handle_eq_zero_iff
  before := fun _ _ => h.latest?_eq_none
  own := fun _ _ ht hne => h.latest?_eq ht (mt (h.handle_eq_zero_iff ht).2 hne)
  distinct := fun _ _ _ _ => h.handle_inj
  opens := b.attempts_openStream
  configures := fun _ _ _ _ _ _ ht hst => attempts_configureStream ht hst ..
  refuses := fun _ _ _ _ _ _ ht hst => step_configureStream_of_configured ht hst ..
  records := fun _ _ _ _ _ _ ht hst => step_openOnStream_of_opened ho ht hst ..
  ignores := fun _ _ _ _ _ hno => step_openOnStream_of_not_opened hno ..
  kept := fun slot t commands ht hst hstays => by
    refine ⟨_, find?_streams_run ho ht hst hstays, rfl, fun hlive => ?_, fun hover => ?_⟩
    · exact TextStream.handle_afterAll hst hlive
    · exact StreamState.afterAll_of_over hover

end StreamsHeld

/-- A stream whose file could not be opened the first time takes no handle, and one that was freed
gives none back. -/
example :
    let b := start {} "f"
    let found := some (Outlet.file "f")
    let commands : List Command :=
      [.openStream 0 "a" "top" "t" none, .openStream 0 "b" "top" "t" found, .freeStream 0,
        .openStream 1 "c" "top" "t" none, .configureStream 1 "d" "top" "t" found, .closeStream 1]
    b.configurations commands = [⟨0, 1, "b", "top", "t"⟩, ⟨1, 2, "c", "top", "t"⟩] ∧
      (b.run commands).streams.find? 0 = some ⟨"b", "top", "t", 1, .freed⟩ ∧
      (b.run commands).streams.find? 1 = some ⟨"c", "top", "t", 2, .closed⟩ := by
  decide

end Bench

end FieldAutomation
