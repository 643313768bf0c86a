import FieldAutomation.Proofs.Recording.Fields

/-!
# The life of a recorder

A recorder that is opened gets the next handle and tells its backend so.  From then on all it
tells are attributes, then that it is closed, attributes again, and that it is freed.

* `Lifetime`: what a recorder has told up to a stage of its life;
* `Recording.Opens`: a freed recorder and what opening makes of it;
* `Recording.GoesOn`: a recorder before and after any part of its life in which it is not opened.

Main statements: `Recording.opens_openOn`, `Recording.GoesOn.trans`, `Recording.goesOn_close` and
`Recording.goesOn_free`; `Lifetime.livesThrough` spells the events out.
-/

namespace FieldAutomation

/-! ### Lifetimes -/

/-- What a recorder tells when it is opened. -/
def RecorderInfo.opening (info : RecorderInfo) : TraceEvent :=
  .opened info.handle info.name info.openTime info.typeName

/-- What a recorder that was opened as `info` says has told up to a stage of its life. -/
inductive Lifetime (info : RecorderInfo) : RecorderState → List TraceEvent → Prop where
  | opened : Lifetime info .opened [info.opening]
  | recorded {state : RecorderState} {past : List TraceEvent} (attr : Attribute)
      (h : Lifetime info state past) (hstate : state ≠ .freed)
      (hattr : attr.handle = info.handle) : Lifetime info state (past ++ [.recorded attr])
  | closed {past : List TraceEvent} (time : Nat) (h : Lifetime info .opened past) :
    Lifetime info .closed (past ++ [.closed info.handle time])
  | freed {past : List TraceEvent} (time : Nat) (h : Lifetime info .closed past) :
    Lifetime info .freed (past ++ [.freed info.handle time])

/-- What a recorder that was opened has told when it gets to a stage of its life, with attributes
while it was open and after it was closed. -/
def RecorderInfo.told (info : RecorderInfo) (open_ closed : List Attribute)
    (closeTime freeTime : Nat) : RecorderState → List TraceEvent
  | .opened => info.opening :: open_.map .recorded
  | .closed =>
    info.opening :: open_.map .recorded ++
      (.closed info.handle closeTime :: closed.map .recorded)
  | .freed =>
    info.opening :: open_.map .recorded ++
      (.closed info.handle closeTime :: closed.map .recorded) ++ [.freed info.handle freeTime]

/-- The events begin with the opening that `info` tells of, and go on with attributes, one
closing, attributes and one freeing, as far as they go. -/
def RecorderInfo.LivesThrough (info : RecorderInfo) (events : List TraceEvent) : Prop :=
  ∃ (open_ closed : List Attribute) (closeTime freeTime : Nat), events ≠ [] ∧
    events <+: info.told open_ closed closeTime freeTime .freed

namespace Lifetime

variable {info : RecorderInfo} {state : RecorderState} {past : List TraceEvent}

theorem attributes (h : Lifetime info state past) (hstate : state ≠ .freed)
    {attrs : List Attribute} (hattrs : ∀ a ∈ attrs, a.handle = info.handle) :
    Lifetime info state (past ++ attrs.map .recorded) := by
  induction attrs generalizing past with
  | nil => simpa using h
  | cons a rest ih =>
    have := ih (h.recorded a hstate (hattrs a (by simp))) fun a ha => hattrs a (by simp [ha])
    simpa using this

/-- What has been told at each stage. -/
theorem eq_told (h : Lifetime info state past) :
    ∃ (open_ closed : List Attribute) (closeTime freeTime : Nat),
      past = info.told open_ closed closeTime freeTime state := by
  induction h with
  | opened => exact ⟨[], [], 0, 0, rfl⟩
  | @recorded state past attr _ hstate _ ih =>
    obtain ⟨open_, closed, closeTime, freeTime, rfl⟩ := ih
    cases state with
    | freed => exact absurd rfl hstate
    | opened =>
      exact ⟨open_ ++ [attr], closed, closeTime, freeTime, by simp [RecorderInfo.told]⟩
    | closed =>
      exact ⟨open_, closed ++ [attr], closeTime, freeTime, by simp [RecorderInfo.told]⟩
  | closed time _ ih =>
    obtain ⟨open_, -, -, freeTime, rfl⟩ := ih
    exact ⟨open_, [], time, freeTime, by simp [RecorderInfo.told]⟩
  | freed time _ ih =>
    obtain ⟨open_, closed, closeTime, -, rfl⟩ := ih
    exact ⟨open_, closed, closeTime, time, by simp [RecorderInfo.told]⟩

theorem livesThrough (h : Lifetime info state past) : info.LivesThrough past := by
  obtain ⟨open_, closed, closeTime, freeTime, rfl⟩ := h.eq_told
  refine ⟨open_, closed, closeTime, freeTime, ?_, ?_⟩
  · cases state <;> simp [RecorderInfo.told]
  · cases state <;> simp [RecorderInfo.told]

end Lifetime

namespace Recording

variable {s t u : Recording}

/-! ### Opening -/

/-- `t` is the freed recorder `s` after it was opened on a backend, of which `info` tells. -/
structure Opens (s t : Recording) (b : Backend) (info : RecorderInfo) : Prop where
  serial : t.recorder.serial = s.recorder.serial
  name : t.recorder.name = s.recorder.name
  state : t.recorder.state = .opened
  backend : t.recorder.backend = some b
  infoAs : t.recorder.infoAs info.handle = info
  consistent : t.media.handles.Consistent
  handle : info.handle = s.media.handles.last + 1
  last : t.media.handles.last = s.media.handles.last + 1
  info?_eq : ∀ serial, t.media.handles.info? serial =
    if serial = s.recorder.serial then some info else s.media.handles.info? serial
  nextSerial : t.media.nextSerial = s.media.nextSerial
  trace : ∀ n, t.media.trace n =
    s.media.trace n ++ if b = .memory n then [info.opening] else []

/-- What a registered recorder that is freed does when it is opened. -/
theorem opens_openOn (hs : s.Registered) (hst : s.recorder.state = .freed) (backend : Backend)
    (time : Nat) (typeName : String) :
    (s.openOn (some backend) time typeName).1 = .ok () ∧
      Opens s (s.openOn (some backend) time typeName).2 backend
        ⟨s.media.handles.last + 1, s.recorder.name, typeName, time⟩ := by
  have hn := hs.consistent.info?_eq_none_iff.1 (hs.freed hst).1
  have hacquire := HandleTable.acquire_of_none hs.consistent hn s.recorder.name typeName time
  simp only [openOn, hst, ne_eq, not_true_eq_false, if_false, acquireHandle, Media.acquireHandle,
    hacquire, deliver, logDebug, true_and]
  refine ⟨rfl, rfl, rfl, rfl, rfl, ?_, rfl, ?_, fun serial => ?_, Media.nextSerial_deliver ..,
    fun n => ?_⟩
  · rw [Media.handles_deliver]
    exact HandleTable.consistent_grant hs.consistent hn ..
  · exact congrArg HandleTable.last (Media.handles_deliver ..)
  · rw [Media.handles_deliver]
    exact HandleTable.info?_grant hs.consistent hn ..
  · rw [Media.trace_deliver]
    rfl

namespace Opens

variable {backend : Backend} {info : RecorderInfo}

theorem registered (h : Opens s t backend info) : t.Registered where
  consistent := h.consistent
  freed := by
    rw [h.state]
    exact nofun
  live := by
    intro _
    refine ⟨by rw [h.backend]; exact nofun, info.handle, ?_⟩
    rw [h.info?_eq, h.serial, if_pos rfl, h.infoAs]

theorem handle_eq (h : Opens s t backend info) : t.handle = info.handle := by
  refine handle_of_info? h.registered ?_
  rw [h.info?_eq, h.serial, if_pos rfl]

/-- Whether another recorder is given up before or after makes no difference. -/
theorem dropRecorder (h : Opens s t backend info) (hs : s.media.handles.Consistent)
    {r : Recorder} (hne : r.serial ≠ s.recorder.serial) :
    Opens ⟨s.recorder, s.media.dropRecorder r⟩ ⟨t.recorder, t.media.dropRecorder r⟩ backend info
    where
  serial := h.serial
  name := h.name
  state := h.state
  backend := h.backend
  infoAs := h.infoAs
  consistent := HandleTable.consistent_release h.consistent r.serial
  handle := h.handle.trans (congrArg (· + 1) (HandleTable.last_release ..).symm)
  last := by
    simp only [Media.dropRecorder, HandleTable.last_release]
    exact h.last
  info?_eq := by
    intro serial
    simp only [Media.dropRecorder, HandleTable.info?_release h.consistent,
      HandleTable.info?_release hs, h.info?_eq]
    split
    next heq => rw [if_neg (heq ▸ hne)]
    next => rfl
  nextSerial := h.nextSerial
  trace := h.trace

end Opens

/-! ### Being refused -/

theorem openOn_none (s : Recording) (time : Nat) (typeName : String) :
    s.openOn none time typeName = s.refuse "UVM/REC/NULL_STREAM" (.nullStream s.recorder.name) :=
  rfl

theorem openOn_of_not_freed (hst : s.recorder.state ≠ .freed) (b : Backend) (time : Nat)
    (typeName : String) : s.openOn (some b) time typeName =
      s.refuse "UVM/REC/RE_INIT" (.reinitialized s.recorder.name) :=
  if_pos hst

/-! ### Going on -/

/-- `t` is `s` after a part of its life in which it is not opened, and `events` is what it has
told. -/
structure GoesOn (s t : Recording) (events : List TraceEvent) : Prop where
  registered : t.Registered
  serial : t.recorder.serial = s.recorder.serial
  nextSerial : t.media.nextSerial = s.media.nextSerial
  last : t.media.handles.last = s.media.handles.last
  others : ∀ serial, serial ≠ s.recorder.serial →
    t.media.handles.info? serial = s.media.handles.info? serial
  kept : t.recorder.state ≠ .freed → s.recorder.state ≠ .freed ∧
    t.recorder.backend = s.recorder.backend ∧
    t.media.handles.info? s.recorder.serial = s.media.handles.info? s.recorder.serial
  trace : ∀ n, t.media.trace n =
    s.media.trace n ++ if s.recorder.backend = some (.memory n) then events else []
  handle : ∀ e ∈ events, e.handle = s.handle
  lifetime : s.recorder.state ≠ .freed → ∀ past,
    Lifetime (s.recorder.infoAs s.handle) s.recorder.state past →
      Lifetime (s.recorder.infoAs s.handle) t.recorder.state (past ++ events)
  silent : s.recorder.state = .freed → events = []

namespace GoesOn

variable {events events' : List TraceEvent}

theorem infoAs_eq (h : GoesOn s t events) (hs : s.Registered) (ht : t.recorder.state ≠ .freed) :
    t.recorder.infoAs t.handle = s.recorder.infoAs s.handle := by
  obtain ⟨hst, -, hi⟩ := h.kept ht
  have hti := h.registered.info?_eq ht
  rw [h.serial, hi, hs.info?_eq hst] at hti
  exact (Option.some.inj hti).symm

theorem handle_eq (h : GoesOn s t events) (hs : s.Registered) (ht : t.recorder.state ≠ .freed) :
    t.handle = s.handle :=
  congrArg RecorderInfo.handle (h.infoAs_eq hs ht)

/-- A freed recorder stays so. -/
theorem freed (h : GoesOn s t events) (hst : s.recorder.state = .freed) :
    t.recorder.state = .freed :=
  Decidable.byContradiction fun ht => (h.kept ht).1 hst

/-- A recorder that is freed tells nothing more, so that the parts of a life join. -/
theorem trans (hs : s.Registered) (h : GoesOn s t events) (h' : GoesOn t u events') :
    GoesOn s u (events ++ events') where
  registered := h'.registered
  serial := h'.serial.trans h.serial
  nextSerial := h'.nextSerial.trans h.nextSerial
  last := h'.last.trans h.last
  others := fun serial hne =>
    (h'.others serial (h.serial.symm ▸ hne)).trans (h.others serial hne)
  kept := by
    intro hu
    obtain ⟨ht, hb', hi'⟩ := h'.kept hu
    obtain ⟨hst, hb, hi⟩ := h.kept ht
    rw [h.serial] at hi'
    exact ⟨hst, hb'.trans hb, hi'.trans hi⟩
  trace := by
    intro n
    rw [h'.trace, h.trace, List.append_assoc]
    by_cases ht : t.recorder.state = .freed
    · rw [h'.silent ht]
      split <;> split <;> simp
    · rw [(h.kept ht).2.1]
      split <;> simp
  handle := by
    intro e he
    rcases List.mem_append.1 he with he | he
    · exact h.handle e he
    · have ht : t.recorder.state ≠ .freed := fun ht => by simp [h'.silent ht] at he
      exact (h'.handle e he).trans (h.handle_eq hs ht)
  lifetime := by
    intro hst past hp
    have hmid := h.lifetime hst past hp
    rw [← List.append_assoc]
    by_cases ht : t.recorder.state = .freed
    · rw [h'.silent ht, List.append_nil, h'.freed ht]
      rwa [ht] at hmid
    · have hlater := h'.lifetime ht
      rw [h.infoAs_eq hs ht] at hlater
      exact hlater _ hmid
  silent := by
    intro hst
    rw [h.silent hst, h'.silent (h.freed hst), List.append_nil]

end GoesOn

theorem Records.goesOn {attrs : List Attribute} (h : Records s t attrs) (hs : s.Registered) :
    GoesOn s t (attrs.map .recorded) where
  registered := h.registered hs
  serial := h.serial
  nextSerial := h.nextSerial
  last := by rw [h.handles]
  others := fun _ _ => by rw [h.handles]
  kept := by
    rw [h.state]
    exact fun hst => ⟨hst, h.backend, by rw [h.handles]⟩
  trace := h.trace
  handle := by
    intro e he
    obtain ⟨a, ha, rfl⟩ := List.mem_map.1 he
    exact h.handle a ha
  lifetime := by
    intro hst past hp
    rw [h.state]
    exact hp.attributes hst h.handle
  silent := by
    intro hst
    rw [h.silent (hs.freed hst).2, List.map_nil]

theorem GoesOn.refl (hs : s.Registered) : GoesOn s s [] := (Records.refl s).goesOn hs

/-! ### Closing and freeing -/

/-- Closing an open recorder tells that it is closed. -/
theorem goesOn_close (hs : s.Registered) (hst : s.recorder.state = .opened) (time : Nat) :
    GoesOn s (s.close time) [.closed s.handle time] ∧
      (s.close time).recorder.state = .closed := by
  have hlive : s.recorder.state ≠ .freed := by simp [hst]
  obtain ⟨b, hb⟩ := Option.ne_none_iff_exists'.1 (hs.live hlive).1
  have hi := hs.info?_eq hlive
  simp only [close, hst, hs.acquireHandle, deliver, hb, logDebug, and_true]
  have hhandles : ((s.media.deliver b (.closed s.handle time)).logDebug "recorder closed"
      [("handle", toString s.handle), ("close_time", toString time)]).handles = s.media.handles :=
    Media.handles_deliver ..
  refine ⟨⟨?_, ?_, fun _ => ⟨?_, s.handle, ?_⟩⟩, rfl, Media.nextSerial_deliver .., ?_,
    fun serial _ => ?_, fun _ => ⟨hlive, hb.symm, ?_⟩,
    fun n => Media.trace_deliver_of_eq_some _ hb _ n, ?_, fun _ past hp => ?_, ?_⟩
  · exact hhandles ▸ hs.consistent
  · rintro ⟨⟩
  · exact Option.some_ne_none b
  · rw [hhandles]
    exact hi
  · rw [hhandles]
  · rw [hhandles]
  · rw [hhandles]
  · simp [TraceEvent.handle]
  · rw [hst] at hp
    exact hp.closed time
  · exact fun h => absurd h hlive

/-- Freeing a closed recorder tells that it is freed, and takes its handle back. -/
theorem goesOn_free_of_closed (hs : s.Registered) (hst : s.recorder.state = .closed)
    (time : Nat) : GoesOn s (s.free time) [.freed s.handle time] := by
  have hlive : s.recorder.state ≠ .freed := by simp [hst]
  obtain ⟨b, hb⟩ := Option.ne_none_iff_exists'.1 (hs.live hlive).1
  simp only [free, hst, close_of_not_open time (by simp [hst] : s.recorder.state ≠ .opened),
    hs.acquireHandle, deliver, hb, logDebug, Media.dropRecorder]
  have hi := HandleTable.info?_release hs.consistent s.recorder.serial
  have hr := HandleTable.consistent_release hs.consistent s.recorder.serial
  have hhandles := Media.handles_deliver s.media b (.freed s.handle time)
  generalize hm : s.media.deliver b (.freed s.handle time) = m at hhandles
  refine ⟨⟨?_, fun _ => ⟨?_, rfl⟩, fun h => absurd rfl h⟩, rfl, ?_, ?_, fun serial hne => ?_,
    fun h => absurd rfl h, fun n => ?_, ?_, fun _ past hp => ?_, ?_⟩
  · simpa only [Media.logDebug, Media.logEntry, hhandles] using hr
  · simp only [Media.logDebug, Media.logEntry, hhandles, hi, if_true]
  · exact hm ▸ Media.nextSerial_deliver ..
  · simp only [Media.logDebug, Media.logEntry, hhandles, HandleTable.last_release]
  · simp only [Media.logDebug, Media.logEntry, hhandles, hi, if_neg hne]
  · exact hm ▸ Media.trace_deliver_of_eq_some _ hb _ n
  · simp [TraceEvent.handle]
  · rw [hst] at hp
    exact hp.freed time
  · exact fun h => absurd h hlive

/-- Freeing an open recorder closes it at the same time. -/
theorem free_of_opened (hst : s.recorder.state = .opened) (time : Nat) :
    s.free time = (s.close time).free time := by
  have hclosed : (s.close time).recorder.state = .closed := by
    simp only [close, hst]
    rfl
  have hclose := close_of_not_open time (by rw [hclosed]; exact nofun)
  simp only [free, hst, hclosed, hclose]

/-- **Freeing** a recorder tells what is left of its life. -/
theorem goesOn_free (hs : s.Registered) (time : Nat) :
    ∃ events, GoesOn s (s.free time) events ∧
      (s.recorder.state = .opened → events = [.closed s.handle time, .freed s.handle time]) := by
  cases hst : s.recorder.state with
  | freed =>
    rw [free_of_freed time hst]
    exact ⟨[], .refl hs, nofun⟩
  | closed => exact ⟨_, goesOn_free_of_closed hs hst time, nofun⟩
  | opened =>
    obtain ⟨hclose, hclosed⟩ := goesOn_close hs hst time
    have hfree := goesOn_free_of_closed hclose.registered hclosed time
    rw [hclose.handle_eq hs (by rw [hclosed]; exact nofun)] at hfree
    rw [free_of_opened hst]
    exact ⟨_, hclose.trans hs hfree, fun _ => rfl⟩

end Recording

end FieldAutomation
