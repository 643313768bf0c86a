import FieldAutomation.Proofs.Recording.Handles

/-!
# What a trace tells

Recorders in any number write into a trace in turn.  Sorted by handle, what it tells are the lives
of recorders, one for each that was opened on the trace.

* `Media.told`: what a trace tells under a handle;
* `Bench.TellsInOrder`: what a trace tells, and what each command adds to it;
* `Recording.AnswersOutOfTurn`: calls that a recorder refuses or ignores.

Main statement: `Bench.tellsInOrder_run`.
-/

namespace FieldAutomation

/-- The events of a trace that carry a handle. -/
def Media.told (m : Media) (n handle : Nat) : List TraceEvent :=
  (m.trace n).filter (·.handle = handle)

/-! ### Calls out of turn -/

namespace Recording

variable (s : Recording)

/-- A recorder after one more error was reported, and nothing else happened. -/
def withError (id message : String) : Recording where
  recorder := { s.recorder with
    reporter := { s.recorder.reporter with
      reports := s.recorder.reporter.reports ++ [⟨.error, .none, id, message⟩] } }
  media := s.media.logEntry ⟨.error, message, [("id", id)]⟩

/-- How a recorder answers a call out of turn. -/
structure AnswersOutOfTurn : Prop where
  close : ∀ time, s.recorder.state ≠ .opened → s.close time = s
  free : ∀ time, s.recorder.state = .freed → s.free time = s
  /-- It is opened exactly if it is freed and there is a backend. -/
  openOn_iff : ∀ backend time typeName, (s.openOn backend time typeName).1 = .ok () ↔
    backend ≠ none ∧ s.recorder.state = .freed
  openOn_none : ∀ time typeName, s.openOn none time typeName =
    (.error (.nullStream s.recorder.name), s.withError "UVM/REC/NULL_STREAM"
      (RecordingError.nullStream s.recorder.name).message)
  openOn_again : ∀ backend time typeName, s.recorder.state ≠ .freed →
    s.openOn (some backend) time typeName =
      (.error (.reinitialized s.recorder.name), s.withError "UVM/REC/RE_INIT"
        (RecordingError.reinitialized s.recorder.name).message)

theorem refuse_eq (id : String) (e : RecordingError) :
    s.refuse id e = (.error e, s.withError id e.message) := rfl

theorem answersOutOfTurn : s.AnswersOutOfTurn where
  close := fun _ => close_of_not_open _
  free := fun _ => free_of_freed _
  openOn_iff := by
    intro backend time typeName
    cases backend with
    | none => simp [openOn_none, refuse_eq]
    | some b =>
      by_cases hst : s.recorder.state = .freed
      · simp [openOn, hst]
      · simp [openOn_of_not_freed hst, refuse_eq, hst]
  openOn_none := fun _ _ => rfl
  openOn_again := fun _ _ _ hst => openOn_of_not_freed hst ..

end Recording

namespace Bench

variable {b b' : Bench} {past : List Opening} {c : Command} {o : Option Opening} {n : Nat}

/-! ### Lives -/

/-- Under the handle of each opening a trace tells of a life up to where the recorder is now, and
under all other handles nothing. -/
structure Traced (b : Bench) (past : List Opening) (n : Nat) : Prop where
  lives : ∀ o ∈ past, o.backend = .memory n →
    ∃ state, Lifetime o.info state (b.media.told n o.info.handle) ∧
      ∀ slot r, b.recorders.find? slot = some r →
        b.media.handles.info? r.serial = some o.info → r.state = state
  silent : ∀ handle, (∀ o ∈ past, o.backend = .memory n → o.info.handle ≠ handle) →
    b.media.told n handle = []

theorem told_append {m m' : Media} {new : List TraceEvent} (h : m'.trace n = m.trace n ++ new)
    (handle : Nat) : m'.told n handle = m.told n handle ++ new.filter (·.handle = handle) := by
  rw [Media.told, h, List.filter_append, Media.told]

/-- What is told stays when nothing is added and no recorder moves on. -/
theorem Traced.of_trace_eq (h : Traced b past n) (htrace : b'.media.trace n = b.media.trace n)
    (hfind : ∀ slot r info, b'.recorders.find? slot = some r →
      b'.media.handles.info? r.serial = some info →
      b.recorders.find? slot = some r ∧ b.media.handles.info? r.serial = some info) :
    Traced b' past n := by
  have htold : ∀ handle, b'.media.told n handle = b.media.told n handle := by
    intro handle
    rw [Media.told, htrace, Media.told]
  refine ⟨fun o ho hbackend => ?_, fun handle hno => ?_⟩
  · obtain ⟨state, hlife, hst⟩ := h.lives o ho hbackend
    refine ⟨state, htold _ ▸ hlife, fun slot r hr hi => ?_⟩
    obtain ⟨hr, hi⟩ := hfind slot r o.info hr hi
    exact hst slot r hr hi
  · rw [htold]
    exact h.silent handle hno

section InSlot

variable {slot handle : Nat} {r r' : Recorder} {new : List TraceEvent}

theorem told_of_ne {m m' : Media} (htrace : m'.trace n = m.trace n ++ new)
    (hne : ∀ e ∈ new, e.handle ≠ handle) : m'.told n handle = m.told n handle := by
  have hnone : new.filter (·.handle = handle) = [] := by simpa using hne
  rw [told_append htrace, hnone, List.append_nil]

theorem told_of_eq {m m' : Media} (htrace : m'.trace n = m.trace n ++ new)
    (hnew : ∀ e ∈ new, e.handle = handle) : m'.told n handle = m.told n handle ++ new := by
  have hall : new.filter (·.handle = handle) = new := by simpa using hnew
  rw [told_append htrace, hall]

/-- What one recorder tells is nothing in the lives of the others. -/
theorem Traced.life_elsewhere (ht : Traced b past n)
    (hr : ∀ k, b'.recorders.find? k = if k = slot then some r' else b.recorders.find? k)
    (hothers : ∀ k s, k ≠ slot → b.recorders.find? k = some s →
      b'.media.handles.info? s.serial = b.media.handles.info? s.serial)
    (hself : ∀ info, b'.media.handles.info? r'.serial = some info → info.handle = handle)
    (htrace : b'.media.trace n = b.media.trace n ++ new) (hnew : ∀ e ∈ new, e.handle = handle)
    {o : Opening} (ho : o ∈ past) (hbackend : o.backend = .memory n)
    (hne : o.info.handle ≠ handle) :
    ∃ state, Lifetime o.info state (b'.media.told n o.info.handle) ∧
      ∀ k s, b'.recorders.find? k = some s →
        b'.media.handles.info? s.serial = some o.info → s.state = state := by
  obtain ⟨state, hlife, hst⟩ := ht.lives o ho hbackend
  have htold := told_of_ne htrace fun e he => (hnew e he).trans_ne hne.symm
  refine ⟨state, htold ▸ hlife, fun k s hf hi => ?_⟩
  rw [hr] at hf
  split at hf
  next =>
    obtain rfl := Option.some.inj hf
    exact absurd (hself o.info hi) hne
  next hk => exact hst k s hf (hothers k s hk hf ▸ hi)

/-- Opening a recorder begins a life under a new handle. -/
theorem Traced.opens {backend : Backend} {info : RecorderInfo} (h : Orderly b past)
    (ht : Traced b past n) (h' : Orderly b' (past ++ [⟨r.serial, info, backend⟩]))
    (hfind : b.recorders.find? slot = some r)
    (hr : ∀ k, b'.recorders.find? k = if k = slot then some r' else b.recorders.find? k)
    (ho : Recording.Opens ⟨r, b.media⟩ ⟨r', b'.media⟩ backend info) :
    Traced b' (past ++ [⟨r.serial, info, backend⟩]) n := by
  have hself : b'.media.handles.info? r'.serial = some info := by
    rw [ho.info?_eq, ho.serial, if_pos rfl]
  have hothers : ∀ k s, k ≠ slot → b.recorders.find? k = some s →
      b'.media.handles.info? s.serial = b.media.handles.info? s.serial := by
    intro k s hk hf
    rw [ho.info?_eq, if_neg fun heq => hk ((h.serial_eq_iff hfind hf).1 heq)]
  have hslot : b'.recorders.find? slot = some r' := by rw [hr, if_pos rfl]
  have hevents : ∀ e ∈ (if backend = .memory n then [info.opening] else []),
      e.handle = info.handle := by
    split <;> simp [RecorderInfo.opening, TraceEvent.handle]
  -- the handle is new, so that nothing was told under it
  have hne : ∀ o ∈ past, o.info.handle ≠ info.handle := by
    intro o hmem
    have := h.handle_le_last hmem
    have hhandle : info.handle = b.media.handles.last + 1 := ho.handle
    omega
  refine ⟨fun o hmem hbackend => ?_, fun handle hno => ?_⟩
  · rcases List.mem_append.1 hmem with hmem | hmem
    · exact ht.life_elsewhere hr hothers (fun i hi => by cases hself.symm.trans hi; rfl)
        (ho.trace n) hevents hmem hbackend (hne o hmem)
    · obtain rfl := List.mem_singleton.1 hmem
      have htold : b'.media.told n info.handle = [info.opening] := by
        rw [told_of_eq (ho.trace n) hevents, ht.silent _ fun o hmem _ => hne o hmem,
          if_pos hbackend, List.nil_append]
      refine ⟨.opened, htold ▸ .opened, fun k s hf hi => ?_⟩
      have hk : k = slot := h'.apart k slot s r' hf hslot
        (h'.consistent.serial_injective hi hself rfl)
      rw [hk, hslot, Option.some.injEq] at hf
      exact hf ▸ ho.state
  · have hnone : ∀ e ∈ (if backend = .memory n then [info.opening] else []),
        e.handle ≠ handle := by
      intro e he
      rw [hevents e he]
      split at he
      next hbackend => exact hno ⟨r.serial, info, backend⟩ (by simp) hbackend
      next => cases he
    rw [told_of_ne (ho.trace n) hnone]
    exact ht.silent handle fun o hmem => hno o (by simp [hmem])

/-- Going on goes on with one life. -/
theorem Traced.goesOn {events : List TraceEvent} (h : Orderly b past) (ht : Traced b past n)
    (h' : Orderly b' past) (hfind : b.recorders.find? slot = some r)
    (hr : ∀ k, b'.recorders.find? k = if k = slot then some r' else b.recorders.find? k)
    (hg : Recording.GoesOn ⟨r, b.media⟩ ⟨r', b'.media⟩ events) : Traced b' past n := by
  have hothers : ∀ k s, k ≠ slot → b.recorders.find? k = some s →
      b'.media.handles.info? s.serial = b.media.handles.info? s.serial := by
    intro k s hk hf
    exact hg.others _ fun heq => hk ((h.serial_eq_iff hfind hf).1 heq)
  have hslot : b'.recorders.find? slot = some r' := by rw [hr, if_pos rfl]
  have hevents : ∀ e ∈ (if r.backend = some (.memory n) then events else []),
      e.handle = b.media.handleOf r := by
    split
    · exact hg.handle
    · exact nofun
  have hself : ∀ info, b'.media.handles.info? r'.serial = some info →
      info.handle = b.media.handleOf r := by
    intro info hi
    obtain ⟨hst, -, hkept⟩ := hg.kept (h'.state_ne_freed hslot hi)
    have hkept := hkept.trans (h.info?_eq hfind hst)
    rw [hg.serial] at hi
    exact congrArg RecorderInfo.handle (Option.some.inj (hi.symm.trans hkept))
  refine ⟨fun o hmem hbackend => ?_, fun handle hno => ?_⟩
  · by_cases hne : o.info.handle = b.media.handleOf r
    · -- the life is that of the recorder in the slot
      have hst : r.state ≠ .freed := by
        intro hst
        rw [(h.handleOf_eq_zero_iff hfind).2 hst] at hne
        exact Nat.ne_of_gt (h.handle_pos hmem) hne
      obtain ⟨o', ho', hinfo, hbackend'⟩ := h.latest_eq hfind hst
      obtain rfl : o = o' := h.eq_of_handle_eq hmem (Opening.mem_of_latest? ho').1 (by
        rw [hne, hinfo]
        rfl)
      obtain ⟨state, hlife, hstate⟩ := ht.lives o hmem hbackend
      have hi := h.info?_eq hfind hst
      rw [← hinfo] at hi
      obtain rfl := hstate slot r hfind hi
      have htold := told_of_eq (hg.trace n) hevents
      rw [if_pos (hbackend'.trans (congrArg some hbackend)), ← hne] at htold
      have hgoes : ∀ told, Lifetime (r.infoAs (b.media.handleOf r)) r.state told →
        Lifetime (r.infoAs (b.media.handleOf r)) r'.state (told ++ events) := hg.lifetime hst
      rw [← hinfo] at hgoes
      refine ⟨r'.state, ?_, fun k s hf hi' => ?_⟩
      · rw [htold]
        exact hgoes _ hlife
      · by_cases hk : k = slot
        · rw [hk, hslot, Option.some.injEq] at hf
          exact congrArg Recorder.state hf.symm
        · rw [hr, if_neg hk] at hf
          rw [hothers k s hk hf] at hi'
          exact absurd (h.apart k slot s r hf hfind (h.consistent.serial_injective hi' hi rfl)) hk
    · exact ht.life_elsewhere hr hothers hself (hg.trace n) hevents hmem hbackend hne
  · have hnone : ∀ e ∈ (if r.backend = some (.memory n) then events else []),
        e.handle ≠ handle := by
      intro e he
      rw [hevents e he]
      split at he
      next hbackend =>
        have hst : r.state ≠ .freed := by
          intro hst
          rw [hg.silent hst] at he
          cases he
        obtain ⟨o, ho, hinfo, hbackend'⟩ := h.latest_eq hfind hst
        rw [hbackend, Option.some.injEq] at hbackend'
        have hne := hno o (Opening.mem_of_latest? ho).1 hbackend'.symm
        rwa [hinfo] at hne
      next => cases he
    rw [told_of_ne (hg.trace n) hnone]
    exact ht.silent handle hno

end InSlot

/-- **Each change keeps the lives** that a trace tells of. -/
theorem Change.traced (h : Orderly b past) (ht : Traced b past n) (hc : Change c b b' o) :
    Traced b' (past ++ o.toList) n := by
  have h' := hc.orderly h
  cases hc with
  | steady hr hm =>
    rw [Option.toList_none, List.append_nil]
    refine ht.of_trace_eq (hm.trace n) fun slot r info hf hi => ⟨(hr slot).symm.trans hf, ?_⟩
    rwa [hm.handles] at hi
  | @creates slot r hslot hnone hr hserial hstate hbackend hhandles hnext htrace =>
    rw [Option.toList_none, List.append_nil]
    refine ht.of_trace_eq (htrace n) fun k r' info hf hi => ?_
    rw [hhandles] at hi
    rw [hr] at hf
    split at hf
    next =>
      obtain rfl := Option.some.inj hf
      rw [hserial, h.info?_next] at hi
      cases hi
    next => exact ⟨hf, hi⟩
  | @drops slot r hslot hfind hr hhandles hnext htrace hends =>
    rw [Option.toList_none, List.append_nil]
    refine ht.of_trace_eq (htrace n) fun k r' info hf hi => ?_
    rw [hhandles, HandleTable.info?_release h.consistent] at hi
    rw [hr] at hf
    split at hf
    next => cases hf
    next =>
      split at hi
      next => cases hi
      next => exact ⟨hf, hi⟩
  | @opens slot r r' backend info hslot hfind hr hstate ho =>
    exact Traced.opens h ht h' hfind hr ho
  | @goesOn slot r r' events hslot hfind hr hg hends =>
    rw [Option.toList_none, List.append_nil] at h' ⊢
    exact Traced.goesOn h ht h' hfind hr hg

theorem traced_start (graph : ObjectGraph) (fileName : String) (n : Nat) :
    Traced (start graph fileName) [] n :=
  ⟨nofun, fun _ _ => rfl⟩

/-- Forgetting a trace leaves the others as they are. -/
theorem trace_clearTrace_of_ne (m : Media) {k : Nat} (hk : k ≠ n) :
    (m.clearTrace k).trace n = m.trace n := by
  simp only [Media.clearTrace, Media.trace, List.filterMap_filter]
  refine List.filterMap_congr fun d _ => ?_
  by_cases hd : d.1 = .memory n
  · simp [hd, Ne.symm hk]
  · simp [hd]

/-- **Every command keeps the lives** that a trace tells of, unless it forgets them. -/
theorem traced_step (h : Orderly b past) (ht : Traced b past n) (hc : c ≠ .clearTrace n) :
    Traced (b.step c).2 (past ++ (b.opening? c).toList) n := by
  by_cases hclear : ∃ k, c = .clearTrace k
  · obtain ⟨k, rfl⟩ := hclear
    rw [show (b.opening? (.clearTrace k)).toList = [] from rfl, List.append_nil]
    exact ht.of_trace_eq (trace_clearTrace_of_ne _ fun hk => hc (hk ▸ rfl))
      fun _ _ _ hf hi => ⟨hf, hi⟩
  · exact ((step_changes h c fun k hk => hclear ⟨k, hk⟩).preserves
      (P := fun b past => Orderly b past ∧ Traced b past n)
      (fun hb hchange => ⟨hchange.orderly hb.1, hchange.traced hb.1 hb.2⟩) ⟨h, ht⟩).2

/-- So do commands in order. -/
theorem traced_run (h : Orderly b past) (ht : Traced b past n) {commands : List Command}
    (hc : .clearTrace n ∉ commands) :
    Traced (b.run commands) (past ++ b.openings commands) n := by
  induction commands generalizing b past with
  | nil => simpa [openings] using ht
  | cons c rest ih =>
    rw [openings, ← List.append_assoc]
    rw [List.mem_cons, not_or] at hc
    exact ih (orderly_step h c) (traced_step h ht (Ne.symm hc.1)) hc.2

/-! ### What a command adds -/

/-- An event that a command adds to a trace is that of the opening that the command makes, or
carries the handle with which the recorder that the command is for was opened. -/
def TellsOf (b : Bench) (past : List Opening) (n : Nat) (c : Command) (e : TraceEvent) : Prop :=
  (∃ o, b.opening? c = some o ∧ o.backend = .memory n ∧ e = o.info.opening) ∨
    ∃ slot r o, c.slot? = some slot ∧ b.recorders.find? slot = some r ∧ r.state ≠ .freed ∧
      Opening.latest? past r.serial = some o ∧ o.backend = .memory n ∧ e.handle = o.info.handle

theorem Change.adds (h : Orderly b past) (hc : Change c b b' (b.opening? c)) (n : Nat) :
    ∃ new, b'.media.trace n = b.media.trace n ++ new ∧ ∀ e ∈ new, TellsOf b past n c e := by
  generalize ho : b.opening? c = o at hc
  cases hc with
  | steady hr hm => exact ⟨[], by rw [hm.trace, List.append_nil], nofun⟩
  | creates _ _ _ _ _ _ _ _ htrace => exact ⟨[], by rw [htrace, List.append_nil], nofun⟩
  | drops _ _ _ _ _ htrace => exact ⟨[], by rw [htrace, List.append_nil], nofun⟩
  | opens _ _ _ _ hopens =>
    refine ⟨_, hopens.trace n, fun e he => .inl ⟨_, ho, ?_⟩⟩
    split at he
    next hbackend => exact ⟨hbackend, List.mem_singleton.1 he⟩
    next => cases he
  | @goesOn slot r r' events hslot hfind _ hg _ =>
    refine ⟨_, hg.trace n, fun e he => .inr ?_⟩
    split at he
    next hbackend =>
      have hst : r.state ≠ .freed := by
        intro hst
        rw [hg.silent hst] at he
        cases he
      obtain ⟨o, ho, hinfo, hbackend'⟩ := h.latest_eq hfind hst
      refine ⟨slot, r, o, hslot, hfind, hst, ho, ?_, ?_⟩
      · exact (Option.some.inj (hbackend.symm.trans hbackend')).symm
      · rw [hinfo]
        exact hg.handle e he
    next => cases he

theorem trace_install (b : Bench) (slot : Nat) (s : Recording) (n : Nat) :
    (b.install slot s).media.trace n = s.media.trace n := by
  simp only [install]
  cases b.recorders.find? slot <;> rfl

/-- What a command adds to a trace. -/
theorem step_adds (h : Orderly b past) (hc : c ≠ .clearTrace n) :
    ∃ new, (b.step c).2.media.trace n = b.media.trace n ++ new ∧
      ∀ e ∈ new, TellsOf b past n c e := by
  by_cases hclear : ∃ k, c = .clearTrace k
  · obtain ⟨k, rfl⟩ := hclear
    refine ⟨[], ?_, nofun⟩
    rw [List.append_nil]
    exact trace_clearTrace_of_ne _ fun hk => hc (hk ▸ rfl)
  · by_cases hinstalls : c.Installs
    · -- a new recorder tells nothing, or tells it to the transcript
      refine ⟨[], ?_, nofun⟩
      rw [List.append_nil]
      cases c with
      | create => exact trace_install ..
      | openOnStream slot k name time typeName =>
        rcases step_openOnStream h slot k name time typeName with
          ⟨hstep, -⟩ | ⟨t, number, ho, hstep, -⟩
        · rw [hstep]
        · rw [hstep, trace_install, ho.trace, if_neg nofun, List.append_nil]
          rfl
      | _ => cases hinstalls
    · exact (step_change h c (fun k hk => hclear ⟨k, hk⟩) hinstalls).adds h n

/-- Freeing an open recorder tells that it is closed and that it is freed, both at one time. -/
theorem trace_free_of_opened (h : Orderly b past) {slot : Nat} {r : Recorder}
    (hr : b.recorders.find? slot = some r) (hst : r.state = .opened)
    (hbackend : r.backend = some (.memory n)) (time : Nat) :
    (b.step (.free slot time)).2.media.trace n = b.media.trace n ++
      [.closed (b.media.handleOf r) time, .freed (b.media.handleOf r) time] := by
  obtain ⟨events, hg, hevents⟩ := Recording.goesOn_free (h.registered slot r hr) time
  simp only [step, onRecorder, hr]
  rw [hg.trace, if_pos hbackend, hevents hst]
  rfl

/-! ### Traces -/

/-- What a trace tells on a bench on which `past` was opened. -/
structure TellsInOrder (b : Bench) (past : List Opening) (n : Nat) : Prop where
  /-- Under the handle of a recorder that was opened on the trace it tells of one life. -/
  lives : ∀ o ∈ past, o.backend = .memory n →
    o.info.handle ≠ 0 ∧ o.info.LivesThrough (b.media.told n o.info.handle)
  /-- It tells of no other handles. -/
  silent : ∀ handle, (∀ o ∈ past, o.backend = .memory n → o.info.handle ≠ handle) →
    b.media.told n handle = []
  /-- A command adds what is told of the recorder that it is for. -/
  adds : ∀ c, c ≠ .clearTrace n → ∃ new, (b.step c).2.media.trace n = b.media.trace n ++ new ∧
    ∀ e ∈ new, TellsOf b past n c e
  /-- An open recorder that is freed is closed first, at the same time. -/
  freeing : ∀ slot r time, b.recorders.find? slot = some r → r.state = .opened →
    r.backend = some (.memory n) → (b.step (.free slot time)).2.media.trace n =
      b.media.trace n ++ [.closed (b.media.handleOf r) time, .freed (b.media.handleOf r) time]

theorem Traced.tellsInOrder (h : Orderly b past) (ht : Traced b past n) :
    TellsInOrder b past n where
  lives := by
    intro o ho hbackend
    obtain ⟨state, hlife, -⟩ := ht.lives o ho hbackend
    exact ⟨Nat.ne_of_gt (h.handle_pos ho), hlife.livesThrough⟩
  silent := ht.silent
  adds := fun _ => step_adds h
  freeing := fun _ _ time hr hst hbackend => trace_free_of_opened h hr hst hbackend time

/-- **What a trace tells after every run** in which it is not forgotten are lives of recorders,
and calls out of turn tell nothing. -/
theorem tellsInOrder_run (graph : ObjectGraph) (fileName : String) {commands : List Command}
    {n : Nat} (hc : .clearTrace n ∉ commands) :
    TellsInOrder ((start graph fileName).run commands)
        ((start graph fileName).openings commands) n ∧
      ∀ s : Recording, s.AnswersOutOfTurn :=
  ⟨(traced_run (orderly_start graph fileName) (traced_start graph fileName n) hc).tellsInOrder
    (orderly_run_start graph fileName commands), Recording.answersOutOfTurn⟩

/-- A recorder that is opened again after it was freed lives twice, under two handles. -/
theorem tellsInOrder_run_twice :
    let commands : List Command :=
      [.create 0 "r" {} .medium, .openOn 0 (some (.memory 0)) 1 "t", .string 0 "x" "v", .free 0 2,
        .openOn 0 (some (.memory 0)) 3 "u"]
    .clearTrace 0 ∉ commands ∧
      (TellsInOrder ((start {} "").run commands) ((start {} "").openings commands) 0 ∧
        ∀ s : Recording, s.AnswersOutOfTurn) ∧
      ((start {} "").run commands).media.told 0 1 =
        [.opened 1 "r" 1 "t", .recorded ⟨1, "x", "v", .string, 8, none⟩, .closed 1 2,
          .freed 1 2] ∧
      ((start {} "").run commands).media.told 0 2 = [.opened 2 "r" 3 "u"] := by
  refine ⟨by decide, tellsInOrder_run {} "" (by decide), ?_, ?_⟩
  · decide
  · decide

end Bench

end FieldAutomation
