import FieldAutomation.Proofs.Recording.Registry
import FieldAutomation.Recording.Objects

/-!
# What recording fields does

Recording a field, or a whole graph of objects, tells the backend of some attributes under the
handle of the recorder.  It changes neither the stage of life of the recorder nor its handle.

* `Media.Quiet`: media after something that is none of the recorders' business;
* `Recording.Registered`: the table of handles has the recorder as its stage of life says;
* `Recording.Records`: a recorder that has recorded some attributes, and nothing else.

Main statements: `Recording.Registered.acquireHandle` (asking for a handle changes nothing) and
`ObjectGraph.onlyRecords_record`, `ObjectGraph.onlyRecords_recordObject`.
-/

namespace FieldAutomation

/-! ### Media -/

namespace Media

/-- `m'` is `m` after something that is none of the recorders' business. -/
structure Quiet (m m' : Media) : Prop where
  handles : m'.handles = m.handles
  nextSerial : m'.nextSerial = m.nextSerial
  trace : ∀ n, m'.trace n = m.trace n

variable {m m' m'' : Media}

theorem Quiet.refl (m : Media) : Quiet m m := ⟨rfl, rfl, fun _ => rfl⟩

theorem Quiet.trans (h : Quiet m m') (h' : Quiet m' m'') : Quiet m m'' :=
  ⟨h'.handles.trans h.handles, h'.nextSerial.trans h.nextSerial,
    fun n => (h'.trace n).trans (h.trace n)⟩

theorem quiet_logEntry (m : Media) (e : LogEntry) : Quiet m (m.logEntry e) :=
  ⟨rfl, rfl, fun _ => rfl⟩

theorem quiet_writeEvent (m : Media) (e : TranscriptEvent) : Quiet m (m.writeEvent e) := by
  unfold writeEvent
  dsimp only
  split <;> exact ⟨rfl, rfl, fun _ => rfl⟩

theorem handles_deliver (m : Media) (b : Backend) (e : TraceEvent) :
    (m.deliver b e).handles = m.handles := by
  unfold deliver
  split
  · rfl
  · split <;> rfl
  · exact (m.quiet_writeEvent _).handles

theorem nextSerial_deliver (m : Media) (b : Backend) (e : TraceEvent) :
    (m.deliver b e).nextSerial = m.nextSerial := by
  unfold deliver
  split
  · rfl
  · split <;> rfl
  · exact (m.quiet_writeEvent _).nextSerial

/-- An event goes to the trace of its backend and to no other. -/
theorem trace_deliver (m : Media) (b : Backend) (e : TraceEvent) (n : Nat) :
    (m.deliver b e).trace n = m.trace n ++ if b = .memory n then [e] else [] := by
  cases b with
  | memory k => by_cases hk : k = n <;> simp [deliver, trace, hk]
  | attributesOnly =>
    have hne : Backend.attributesOnly ≠ .memory n := by simp
    rw [if_neg hne, List.append_nil]
    unfold deliver
    dsimp only
    split
    · simp [trace]
    · rfl
  | transcript stream =>
    have hne : Backend.transcript stream ≠ .memory n := by simp
    rw [if_neg hne, List.append_nil]
    exact (m.quiet_writeEvent _).trace n

/-- So does an event of a recorder. -/
theorem trace_deliver_of_eq_some (m : Media) {backend : Option Backend} {b : Backend}
    (hb : backend = some b) (e : TraceEvent) (n : Nat) :
    (m.deliver b e).trace n = m.trace n ++ if backend = some (.memory n) then [e] else [] := by
  rw [trace_deliver, hb]
  simp only [Option.some.injEq]

end Media

/-! ### Registered recorders -/

/-- What the handle of a recorder is to tell of it. -/
def Recorder.infoAs (r : Recorder) (handle : Nat) : RecorderInfo :=
  ⟨handle, r.name, r.typeName, r.openTime⟩

namespace Recording

/-- The table of handles has the recorder exactly when it is not freed, and then tells of its
opening. -/
structure Registered (s : Recording) : Prop where
  consistent : s.media.handles.Consistent
  freed : s.recorder.state = .freed →
    s.media.handles.info? s.recorder.serial = none ∧ s.recorder.backend = none
  live : s.recorder.state ≠ .freed → s.recorder.backend ≠ none ∧
    ∃ handle, s.media.handles.info? s.recorder.serial = some (s.recorder.infoAs handle)

variable {s t u : Recording}

/-- The handle of a recorder of which something is told. -/
theorem handle_of_info? {info : RecorderInfo} (hs : s.Registered)
    (hi : s.media.handles.info? s.recorder.serial = some info) : s.handle = info.handle := by
  unfold handle Media.handleOf Media.acquireHandle
  split
  next hst => cases hi.symm.trans (hs.freed hst).1
  next => rw [HandleTable.acquire_of_info? hs.consistent hi]

/-- The table tells of a recorder in use under its handle. -/
theorem Registered.info?_eq (hs : s.Registered) (hst : s.recorder.state ≠ .freed) :
    s.media.handles.info? s.recorder.serial = some (s.recorder.infoAs s.handle) := by
  obtain ⟨handle, hi⟩ := (hs.live hst).2
  rw [handle_of_info? hs hi, hi]
  rfl

theorem Registered.handle_pos (hs : s.Registered) (hst : s.recorder.state ≠ .freed) :
    0 < s.handle :=
  hs.consistent.handle_pos (hs.info?_eq hst)

/-- A freed recorder has no handle. -/
theorem handle_of_freed (hst : s.recorder.state = .freed) : s.handle = 0 := by
  simp [handle, Media.handleOf, Media.acquireHandle, hst]

/-- **Asking for a handle** changes nothing: it was handed out when the recorder was opened. -/
theorem Registered.media_acquireHandle (hs : s.Registered) :
    s.media.acquireHandle s.recorder = (s.handle, s.media) := by
  refine Prod.ext rfl ?_
  unfold Media.acquireHandle
  split
  next => rfl
  next hst =>
    obtain ⟨handle, hi⟩ := (hs.live hst).2
    rw [HandleTable.acquire_of_info? hs.consistent hi]

theorem Registered.acquireHandle (hs : s.Registered) : s.acquireHandle = (s.handle, s) := by
  rw [Recording.acquireHandle, hs.media_acquireHandle]

/-! ### Recording attributes -/

/-- `t` is `s` after recording some attributes. -/
structure Records (s t : Recording) (attrs : List Attribute) : Prop where
  serial : t.recorder.serial = s.recorder.serial
  name : t.recorder.name = s.recorder.name
  state : t.recorder.state = s.recorder.state
  openTime : t.recorder.openTime = s.recorder.openTime
  typeName : t.recorder.typeName = s.recorder.typeName
  backend : t.recorder.backend = s.recorder.backend
  handles : t.media.handles = s.media.handles
  nextSerial : t.media.nextSerial = s.media.nextSerial
  trace : ∀ n, t.media.trace n =
    s.media.trace n ++ if s.recorder.backend = some (.memory n) then attrs.map .recorded else []
  handle : ∀ a ∈ attrs, a.handle = s.handle
  silent : s.recorder.backend = none → attrs = []

namespace Records

variable {attrs attrs' : List Attribute}

theorem refl (s : Recording) : Records s s [] :=
  ⟨rfl, rfl, rfl, rfl, rfl, rfl, rfl, rfl, fun _ => by simp, nofun, fun _ => rfl⟩

theorem handle_eq (h : Records s t attrs) : t.handle = s.handle := by
  unfold Recording.handle Media.handleOf Media.acquireHandle
  rw [h.state, h.handles, h.serial, h.name, h.typeName, h.openTime]
  split <;> rfl

theorem registered (h : Records s t attrs) (hs : s.Registered) : t.Registered where
  consistent := h.handles ▸ hs.consistent
  freed := by
    rw [h.state, h.handles, h.serial, h.backend]
    exact hs.freed
  live := by
    simp only [Recorder.infoAs]
    rw [h.state, h.handles, h.serial, h.backend, h.name, h.typeName, h.openTime]
    exact hs.live

theorem trans (h : Records s t attrs) (h' : Records t u attrs') :
    Records s u (attrs ++ attrs') where
  serial := h'.serial.trans h.serial
  name := h'.name.trans h.name
  state := h'.state.trans h.state
  openTime := h'.openTime.trans h.openTime
  typeName := h'.typeName.trans h.typeName
  backend := h'.backend.trans h.backend
  handles := h'.handles.trans h.handles
  nextSerial := h'.nextSerial.trans h.nextSerial
  trace := by
    intro n
    rw [h'.trace, h.trace, h.backend, List.append_assoc]
    split <;> simp
  handle := by
    intro a ha
    rcases List.mem_append.1 ha with ha | ha
    · exact h.handle a ha
    · exact (h'.handle a ha).trans h.handle_eq
  silent := by
    intro hb
    rw [h.silent hb, h'.silent (h.backend.trans hb), List.append_nil]

end Records

/-- `t` is what recording some fields makes of a registered recorder `s`. -/
structure OnlyRecords (s t : Recording) : Prop where
  records : s.Registered → ∃ attrs, Records s t attrs

theorem OnlyRecords.refl (s : Recording) : OnlyRecords s s where
  records := fun _ => ⟨[], .refl s⟩

theorem OnlyRecords.trans (h : OnlyRecords s t) (h' : OnlyRecords t u) : OnlyRecords s u where
  records := by
    intro hs
    obtain ⟨attrs, h⟩ := h.records hs
    obtain ⟨attrs', h'⟩ := h'.records (h.registered hs)
    exact ⟨_, h.trans h'⟩

/-- Whatever else happens to a recorder, nothing is recorded. -/
theorem onlyRecords_of_quiet {r : Recorder} {m : Media} (hserial : r.serial = s.recorder.serial)
    (hname : r.name = s.recorder.name) (hstate : r.state = s.recorder.state)
    (hopenTime : r.openTime = s.recorder.openTime) (htypeName : r.typeName = s.recorder.typeName)
    (hbackend : r.backend = s.recorder.backend) (hm : Media.Quiet s.media m) :
    OnlyRecords s ⟨r, m⟩ where
  records := fun _ =>
    ⟨[], hserial, hname, hstate, hopenTime, htypeName, hbackend, hm.handles, hm.nextSerial,
      fun n => by simpa using hm.trace n, nofun, fun _ => rfl⟩

/-- Changing what a recorder itself keeps records nothing. -/
theorem onlyRecords_recorder {r : Recorder} (hserial : r.serial = s.recorder.serial)
    (hname : r.name = s.recorder.name) (hstate : r.state = s.recorder.state)
    (hopenTime : r.openTime = s.recorder.openTime) (htypeName : r.typeName = s.recorder.typeName)
    (hbackend : r.backend = s.recorder.backend) : OnlyRecords s { s with recorder := r } :=
  onlyRecords_of_quiet hserial hname hstate hopenTime htypeName hbackend (.refl s.media)

theorem onlyRecords_report (s : Recording) (r : Report) : OnlyRecords s (s.report r) := by
  refine onlyRecords_of_quiet rfl rfl rfl rfl rfl rfl ?_
  split
  · exact s.media.quiet_logEntry _
  · exact .refl _

theorem onlyRecords_moveScope (s : Recording) (m : Scope.Move) : OnlyRecords s (s.moveScope m) :=
  onlyRecords_recorder rfl rfl rfl rfl rfl rfl

/-- A field becomes one attribute if there is a backend. -/
theorem onlyRecords_emit (s : Recording) (name value : String) (radix : Radix) (bits : Nat)
    (typeName : Option String) : OnlyRecords s (s.emit name value radix bits typeName) := by
  unfold emit
  split
  next => exact .refl s
  next b hb =>
    refine ⟨fun hs => ?_⟩
    rw [hs.acquireHandle]
    simp only [deliver, hb]
    refine ⟨[⟨s.handle, (s.recorder.scope.setPending name).path, value, radix, bits, typeName⟩],
      rfl, rfl, rfl, rfl, rfl, hb.symm, Media.handles_deliver .., Media.nextSerial_deliver ..,
      fun n => Media.trace_deliver_of_eq_some _ hb _ n, ?_, fun h => ?_⟩
    · simp
    · cases hb.symm.trans h

theorem onlyRecords_recordWords (name : String) (radix : Radix) (index : Nat) (values : List Nat)
    (s : Recording) : OnlyRecords s (recordWords name radix index values s) := by
  induction values generalizing index s with
  | nil => exact .refl s
  | cons v rest ih => exact (onlyRecords_emit ..).trans (ih ..)

theorem onlyRecords_recordElements (size : Nat) (radix : Radix) (index : Nat) (values : List Nat)
    (s : Recording) : OnlyRecords s (recordElements size radix index values s) := by
  induction values generalizing index s with
  | nil => exact .refl s
  | cons v rest ih =>
    exact (onlyRecords_moveScope ..).trans
      ((onlyRecords_emit ..).trans ((onlyRecords_moveScope ..).trans (ih ..)))

/-! ### Recording objects -/

section Objects

variable {sub : String → Option ObjectRef → Recording → Option Recording}

theorem onlyRecords_recordField
    (hsub : ∀ name target s t, sub name target s = some t → OnlyRecords s t) (f : Field)
    (h : recordField sub f s = some t) : OnlyRecords s t := by
  unfold recordField at h
  split at h
  next =>
    split at h
    case h_10 => exact hsub _ _ _ _ h
    case h_11 =>
      obtain rfl := Option.some.inj h
      exact onlyRecords_recorder rfl rfl rfl rfl rfl rfl
    case h_7 =>
      obtain rfl := Option.some.inj h
      exact onlyRecords_recordWords ..
    case h_8 =>
      obtain rfl := Option.some.inj h
      exact (onlyRecords_moveScope ..).trans
        ((onlyRecords_recordElements ..).trans (onlyRecords_moveScope ..))
    all_goals
      obtain rfl := Option.some.inj h
      exact onlyRecords_emit ..
  next =>
    obtain rfl := Option.some.inj h
    exact .refl s

theorem onlyRecords_recordFields
    (hsub : ∀ name target s t, sub name target s = some t → OnlyRecords s t) (fields : List Field)
    (h : recordFields sub fields s = some t) : OnlyRecords s t := by
  induction fields generalizing s with
  | nil =>
    obtain rfl := Option.some.inj h
    exact .refl s
  | cons f rest ih =>
    obtain ⟨u, hu, ht⟩ := Option.bind_eq_some_iff.1 h
    exact (onlyRecords_recordField hsub f hu).trans (ih ht)

theorem onlyRecords_recordBody
    (hsub : ∀ name target s t, sub name target s = some t → OnlyRecords s t) (o : DataObject)
    (h : recordBody sub o s = some t) : OnlyRecords s t := by
  obtain ⟨u, hu, ht⟩ := Option.bind_eq_some_iff.1 h
  obtain rfl := Option.some.inj ht
  refine .trans ?_ ((onlyRecords_recordFields hsub o.fields hu).trans ?_)
  · exact onlyRecords_recorder rfl rfl rfl rfl rfl rfl
  · exact onlyRecords_recorder rfl rfl rfl rfl rfl rfl

/-- However deep the traversal goes, it only records. -/
theorem onlyRecords_recordObject (g : ObjectGraph) (fuel : Nat) (name : String)
    (target : Option ObjectRef) (s t : Recording)
    (h : recordObject g fuel name target s = some t) : OnlyRecords s t := by
  induction fuel generalizing name target s t with
  | zero => cases h
  | succ fuel ih =>
    unfold recordObject at h
    split at h
    next =>
      obtain rfl := Option.some.inj h
      exact .refl s
    next =>
      dsimp only at h
      -- the instance id comes first, if it is recorded
      have hid : ∀ {u : Recording} (id : Nat),
          u = (if s.recorder.settings.identifier then s.recordNumber name id 32 .dec else s) →
          OnlyRecords s u := by
        rintro u id rfl
        split
        · exact onlyRecords_emit ..
        · exact .refl s
      generalize hu : (if s.recorder.settings.identifier then _ else s) = u at h
      refine (hid _ hu.symm).trans ?_
      split at h
      next =>
        obtain rfl := Option.some.inj h
        exact .refl u
      next r o _ =>
        split at h
        next =>
          obtain rfl := Option.some.inj h
          exact .refl u
        next =>
          split at h
          next =>
            obtain rfl := Option.some.inj h
            exact onlyRecords_report ..
          next visits _ =>
            obtain ⟨v, hv, ht⟩ := Option.bind_eq_some_iff.1 h
            obtain rfl := Option.some.inj ht
            refine .trans ?_ ((onlyRecords_recordBody ih o hv).trans ?_)
            · exact onlyRecords_recorder rfl rfl rfl rfl rfl rfl
            · exact onlyRecords_recorder rfl rfl rfl rfl rfl rfl

end Objects

end Recording

namespace ObjectGraph

open Recording (OnlyRecords)

theorem onlyRecords_record (g : ObjectGraph) (r : ObjectRef) (s : Recording) :
    OnlyRecords s (g.record r s) := by
  unfold record
  split
  next => exact .refl s
  next o _ =>
    cases h : Recording.recordBody (Recording.recordObject g g.recordBound) o s with
    | none => exact .refl s
    | some t =>
      exact Recording.onlyRecords_recordBody (Recording.onlyRecords_recordObject g _) o h

theorem onlyRecords_recordObject (g : ObjectGraph) (name : String) (target : Option ObjectRef)
    (s : Recording) : OnlyRecords s (g.recordObject name target s) := by
  unfold recordObject
  cases h : Recording.recordObject g g.recordBound name target s with
  | none => exact .refl s
  | some t => exact Recording.onlyRecords_recordObject g _ name target s t h

end ObjectGraph

end FieldAutomation
