import FieldAutomation.Proofs.Recording.Lifetime
import FieldAutomation.Recording.Bench
import Mathlib.Data.List.Nodup

/-!
# What a command does to a bench

Whatever a command does to the recorders of a bench is one of five things, or a few of them in
turn: nothing, or a recorder is put into an empty slot, is opened, goes on with its life, or is
given up.

* `Opening`: a recorder that was opened; `Bench.openings`: all that are opened in a run;
* `Bench.Change`: the five things;
* `Bench.Orderly`: recorders, the table of handles and the openings so far fit together.

Main statements: `Bench.Change.orderly` (each of the five things keeps order), `Bench.step_changes`
(there is nothing else that a command does) and `Bench.orderly_run`.
-/

namespace FieldAutomation

/-! ### Openings -/

/-- A recorder that was opened, and on what. -/
structure Opening where
  serial : Nat
  /-- The handle that it got, and what it was opened as. -/
  info : RecorderInfo
  backend : Backend
  deriving DecidableEq, Repr

namespace Opening

/-- The latest opening of a recorder. -/
def latest? (past : List Opening) (serial : Nat) : Option Opening :=
  past.reverse.find? (·.serial = serial)

theorem latest?_append_of_ne {past new : List Opening} {serial : Nat}
    (h : ∀ o ∈ new, o.serial ≠ serial) : latest? (past ++ new) serial = latest? past serial := by
  have hnew : new.reverse.find? (·.serial = serial) = none := by simpa using h
  rw [latest?, List.reverse_append, List.find?_append, hnew, Option.none_or, latest?]

theorem latest?_append_self (past : List Opening) (o : Opening) :
    latest? (past ++ [o]) o.serial = some o := by
  simp [latest?]

theorem mem_of_latest? {past : List Opening} {serial : Nat} {o : Opening}
    (h : latest? past serial = some o) : o ∈ past ∧ o.serial = serial :=
  ⟨List.mem_reverse.1 (List.mem_of_find?_eq_some h), by simpa using List.find?_some h⟩

end Opening

/-! ### The transcript file and its streams -/

namespace Media

variable (m : Media)

theorem quiet_openTranscript (found : Option Outlet) : Quiet m (m.openTranscript found).2 := by
  unfold openTranscript
  split
  · exact .refl m
  · split <;> exact ⟨rfl, rfl, fun _ => rfl⟩

theorem quiet_closeTranscript : Quiet m m.closeTranscript.2 := by
  unfold closeTranscript
  split
  · exact .refl m
  · dsimp only
    split <;> exact ⟨rfl, rfl, fun _ => rfl⟩

theorem quiet_renameTranscript (fileName : String) : Quiet m (m.renameTranscript fileName).2 := by
  unfold renameTranscript
  split <;> exact ⟨rfl, rfl, fun _ => rfl⟩

end Media

theorem TextStream.quiet_configure (t : TextStream) (m : Media) (name scope typeName : String)
    (found : Option Outlet) : Media.Quiet m (t.configure m name scope typeName found).2 := by
  have hm := m.quiet_openTranscript found
  unfold configure
  split
  · exact ⟨rfl, rfl, fun _ => rfl⟩
  · split
    next heq =>
      rw [heq] at hm
      exact hm
    next heq =>
      rw [heq] at hm
      refine hm.trans (.trans ?_ (Media.quiet_writeEvent ..))
      exact ⟨rfl, rfl, fun _ => rfl⟩

/-! ### Commands -/

namespace Command

/-- The slot of the recorder that a command is for. -/
def slot? : Command → Option Nat
  | .create slot .. | .openOn slot .. | .close slot _ | .free slot _ | .drop slot
  | .configure slot _ | .move slot _ | .number slot .. | .real slot .. | .string slot ..
  | .time slot .. | .generic slot .. | .object slot .. | .record slot _
  | .openOnStream slot .. => some slot
  | _ => none

/-- The recorder in a slot may be freed or given up when the command is carried out. -/
def Ends (slot : Nat) : Command → Prop
  | .create k .. | .free k _ | .drop k | .openOnStream k .. => k = slot
  | _ => False

/-- The command puts a new recorder into a slot. -/
def Installs : Command → Prop
  | .create .. | .openOnStream .. => True
  | _ => False

end Command

namespace Bench

/-- A bench on which nothing has happened. -/
def start (graph : ObjectGraph) (fileName : String) : Bench where
  graph := graph
  media := { transcript := { fileName } }

/-- What is opened when a command is carried out. -/
def opening? (b : Bench) (c : Command) : Option Opening :=
  match c, b.step c with
  | .openOn slot (some backend) time typeName, (.ok, b') => do
    let r ← b'.recorders.find? slot
    some ⟨r.serial, ⟨b'.media.handleOf r, r.name, typeName, time⟩, backend⟩
  | .openOnStream slot stream name time typeName, (.ok, b') => do
    let t ← b.streams.find? stream
    let r ← b'.recorders.find? slot
    some ⟨r.serial, ⟨b'.media.handleOf r, name, typeName, time⟩, .transcript t.number⟩
  | _, _ => none

/-- What is opened when commands are carried out, in order. -/
def openings (b : Bench) : List Command → List Opening
  | [] => []
  | c :: rest => (b.opening? c).toList ++ (b.step c).2.openings rest

/-! ### Changes -/

/-- What can happen to the recorders of a bench while a command is carried out, and what is
opened by it. -/
inductive Change (c : Command) (b b' : Bench) : Option Opening → Prop where
  /-- Nothing that is the recorders' business. -/
  | steady (hr : ∀ k, b'.recorders.find? k = b.recorders.find? k)
      (hm : Media.Quiet b.media b'.media) : Change c b b' none
  /-- A new recorder is put into an empty slot. -/
  | creates {slot : Nat} {r : Recorder} (hslot : c.slot? = some slot)
      (hnone : b.recorders.find? slot = none)
      (hr : ∀ k, b'.recorders.find? k = if k = slot then some r else b.recorders.find? k)
      (hserial : r.serial = b.media.nextSerial) (hstate : r.state = .freed)
      (hbackend : r.backend = none) (hhandles : b'.media.handles = b.media.handles)
      (hnext : b'.media.nextSerial = b.media.nextSerial + 1)
      (htrace : ∀ n, b'.media.trace n = b.media.trace n) : Change c b b' none
  /-- A freed recorder is opened. -/
  | opens {slot : Nat} {r r' : Recorder} {backend : Backend} {info : RecorderInfo}
      (hslot : c.slot? = some slot) (hfind : b.recorders.find? slot = some r)
      (hr : ∀ k, b'.recorders.find? k = if k = slot then some r' else b.recorders.find? k)
      (hstate : r.state = .freed) (h : Recording.Opens ⟨r, b.media⟩ ⟨r', b'.media⟩ backend info) :
      Change c b b' (some ⟨r.serial, info, backend⟩)
  /-- A recorder goes on with its life. -/
  | goesOn {slot : Nat} {r r' : Recorder} {events : List TraceEvent}
      (hslot : c.slot? = some slot) (hfind : b.recorders.find? slot = some r)
      (hr : ∀ k, b'.recorders.find? k = if k = slot then some r' else b.recorders.find? k)
      (h : Recording.GoesOn ⟨r, b.media⟩ ⟨r', b'.media⟩ events)
      (hends : r.state ≠ .freed → r'.state = .freed → c.Ends slot) : Change c b b' none
  /-- A recorder is given up. -/
  | drops {slot : Nat} {r : Recorder} (hslot : c.slot? = some slot)
      (hfind : b.recorders.find? slot = some r)
      (hr : ∀ k, b'.recorders.find? k = if k = slot then none else b.recorders.find? k)
      (hhandles : b'.media.handles = b.media.handles.release r.serial)
      (hnext : b'.media.nextSerial = b.media.nextSerial)
      (htrace : ∀ n, b'.media.trace n = b.media.trace n) (hends : c.Ends slot) : Change c b b' none

/-- A few changes in turn. -/
inductive Changes (c : Command) (b : Bench) : List Opening → Bench → Prop where
  | refl : Changes c b [] b
  | tail {os : List Opening} {b' b'' : Bench} {o : Option Opening} (h : Changes c b os b')
      (h' : Change c b' b'' o) : Changes c b (os ++ o.toList) b''

variable {b b' : Bench} {past : List Opening} {c : Command} {o : Option Opening}

theorem Change.changes (h : Change c b b' o) : Changes c b o.toList b' := Changes.refl.tail h

/-- What every change keeps is kept by changes in turn. -/
theorem Changes.preserves {P : Bench → List Opening → Prop} {os : List Opening}
    (hP : ∀ {b b' : Bench} {past : List Opening} {o : Option Opening},
      P b past → Change c b b' o → P b' (past ++ o.toList))
    (h : Changes c b os b') (hb : P b past) : P b' (past ++ os) := by
  induction h with
  | refl => simpa using hb
  | tail _ h' ih =>
    rw [← List.append_assoc]
    exact hP ih h'

/-! ### Order -/

/-- The recorders of a bench, the table of handles and the openings so far fit together. -/
structure Orderly (b : Bench) (past : List Opening) : Prop where
  consistent : b.media.handles.Consistent
  registered : ∀ slot r, b.recorders.find? slot = some r → Recording.Registered ⟨r, b.media⟩
  fresh : ∀ slot r, b.recorders.find? slot = some r → r.serial < b.media.nextSerial
  /-- No recorder is in two slots. -/
  apart : ∀ slot slot' r r', b.recorders.find? slot = some r → b.recorders.find? slot' = some r' →
    r.serial = r'.serial → slot = slot'
  /-- Only recorders in slots have handles. -/
  owned : ∀ serial info, b.media.handles.info? serial = some info →
    ∃ slot r, b.recorders.find? slot = some r ∧ r.serial = serial
  /-- A recorder in use is as it was opened. -/
  latest : ∀ slot r, b.recorders.find? slot = some r → r.state ≠ .freed →
    ∃ o, Opening.latest? past r.serial = some o ∧
      b.media.handles.info? r.serial = some o.info ∧ r.backend = some o.backend
  /-- Handles were handed out one after the other. -/
  handles : past.map (·.info.handle) = List.range' 1 b.media.handles.last

theorem orderly_start (graph : ObjectGraph) (fileName : String) :
    Orderly (start graph fileName) [] :=
  ⟨HandleTable.consistent_empty, fun _ _ => nofun, fun _ _ => nofun, fun _ _ _ _ => nofun,
    fun _ _ => nofun, fun _ _ => nofun, rfl⟩

/-- A recorder is registered wherever the table tells the same of it. -/
theorem registered_of_info?_eq {r : Recorder} {m m' : Media} (h : Recording.Registered ⟨r, m⟩)
    (hm : m'.handles.Consistent) (hi : m'.handles.info? r.serial = m.handles.info? r.serial) :
    Recording.Registered ⟨r, m'⟩ :=
  ⟨hm, fun hst => hi ▸ h.freed hst, fun hst => hi ▸ h.live hst⟩

namespace Orderly

/-- The handles of different openings are different. -/
theorem nodup_handles (h : Orderly b past) : (past.map (·.info.handle)).Nodup := by
  rw [h.handles]
  exact List.nodup_range'

theorem eq_of_handle_eq (h : Orderly b past) {o o' : Opening} (ho : o ∈ past) (ho' : o' ∈ past)
    (heq : o.info.handle = o'.info.handle) : o = o' :=
  List.inj_on_of_nodup_map h.nodup_handles ho ho' heq

theorem handle_pos (h : Orderly b past) {o : Opening} (ho : o ∈ past) : 0 < o.info.handle := by
  have := List.mem_map_of_mem (f := (·.info.handle)) ho
  rw [h.handles, List.mem_range'_1] at this
  omega

theorem handle_le_last (h : Orderly b past) {o : Opening} (ho : o ∈ past) :
    o.info.handle ≤ b.media.handles.last := by
  have := List.mem_map_of_mem (f := (·.info.handle)) ho
  rw [h.handles, List.mem_range'_1] at this
  omega

/-- Order does not depend on what is none of the recorders' business. -/
theorem of_eq (h : Orderly b past) (hr : ∀ k, b'.recorders.find? k = b.recorders.find? k)
    (hhandles : b'.media.handles = b.media.handles)
    (hnext : b'.media.nextSerial = b.media.nextSerial) : Orderly b' past := by
  refine ⟨hhandles ▸ h.consistent, fun slot r hf => ?_, fun slot r hf => ?_,
    fun slot slot' r r' hf hf' => ?_, fun serial info hi => ?_, fun slot r hf hst => ?_,
    hhandles ▸ h.handles⟩
  · rw [hr] at hf
    exact registered_of_info?_eq (h.registered slot r hf) (hhandles ▸ h.consistent)
      (by rw [hhandles])
  · rw [hr] at hf
    exact hnext ▸ h.fresh slot r hf
  · rw [hr] at hf hf'
    exact h.apart slot slot' r r' hf hf'
  · simp only [hr]
    exact h.owned serial info (hhandles ▸ hi)
  · rw [hr] at hf
    rw [hhandles]
    exact h.latest slot r hf hst

/-- Order is kept when the recorder in one slot changes, or is put there, or given up, if the
table tells the same of all other recorders and the new state of that one is in order. -/
theorem replace (h : Orderly b past) (serial : Nat) {slot : Nat} {new : Option Recorder}
    {os : List Opening}
    (hr : ∀ k, b'.recorders.find? k = if k = slot then new else b.recorders.find? k)
    (hold : ∀ k r, b.recorders.find? k = some r → (r.serial = serial ↔ k = slot))
    (hos : ∀ o ∈ os, o.serial = serial)
    (hconsistent : b'.media.handles.Consistent)
    (hnext : b.media.nextSerial ≤ b'.media.nextSerial)
    (hinfo : ∀ s, s ≠ serial → b'.media.handles.info? s = b.media.handles.info? s)
    (hgone : new = none → b'.media.handles.info? serial = none)
    (hnew : ∀ r, new = some r → r.serial = serial ∧ serial < b'.media.nextSerial ∧
      Recording.Registered ⟨r, b'.media⟩ ∧ (r.state ≠ .freed →
        ∃ o, Opening.latest? (past ++ os) serial = some o ∧
          b'.media.handles.info? serial = some o.info ∧ r.backend = some o.backend))
    (hhandles : (past ++ os).map (·.info.handle) = List.range' 1 b'.media.handles.last) :
    Orderly b' (past ++ os) := by
  -- what is in a slot is the one that changed, or another one as it was
  have hfind : ∀ k r, b'.recorders.find? k = some r →
      k = slot ∧ new = some r ∨ k ≠ slot ∧ r.serial ≠ serial ∧ b.recorders.find? k = some r := by
    intro k r hf
    rw [hr] at hf
    split at hf
    next hk => exact .inl ⟨hk, hf⟩
    next hk => exact .inr ⟨hk, fun hs => hk ((hold k r hf).1 hs), hf⟩
  refine ⟨hconsistent, fun k r hf => ?_, fun k r hf => ?_, fun k k' r r' hf hf' heq => ?_,
    fun s info hi => ?_, fun k r hf hst => ?_, hhandles⟩
  · rcases hfind k r hf with ⟨-, hf⟩ | ⟨-, hs, hf⟩
    · exact (hnew r hf).2.2.1
    · exact registered_of_info?_eq (h.registered k r hf) hconsistent (hinfo _ hs)
  · rcases hfind k r hf with ⟨-, hf⟩ | ⟨-, -, hf⟩
    · exact (hnew r hf).1 ▸ (hnew r hf).2.1
    · exact Nat.lt_of_lt_of_le (h.fresh k r hf) hnext
  · rcases hfind k r hf with ⟨rfl, hf⟩ | ⟨-, hs, hf⟩ <;>
      rcases hfind k' r' hf' with ⟨rfl, hf'⟩ | ⟨-, hs', hf'⟩
    · rfl
    · exact absurd ((hnew r hf).1 ▸ heq.symm) hs'
    · exact absurd ((hnew r' hf').1 ▸ heq) hs
    · exact h.apart k k' r r' hf hf' heq
  · by_cases hs : s = serial
    · cases hn : new with
      | none => exact absurd hi (by rw [hs, hgone hn]; exact nofun)
      | some r => exact ⟨slot, r, by rw [hr, if_pos rfl, hn], hs ▸ (hnew r hn).1⟩
    · obtain ⟨k, r, hf, hsr⟩ := h.owned s info (hinfo s hs ▸ hi)
      have hk : k ≠ slot := fun hk => hs (hsr ▸ (hold k r hf).2 hk)
      exact ⟨k, r, by rw [hr, if_neg hk, hf], hsr⟩
  · rcases hfind k r hf with ⟨-, hf⟩ | ⟨-, hs, hf⟩
    · obtain ⟨hserial, -, -, hlatest⟩ := hnew r hf
      rw [hserial]
      exact hlatest hst
    · rw [Opening.latest?_append_of_ne fun o ho heq => hs (heq.symm.trans (hos o ho)), hinfo _ hs]
      exact h.latest k r hf hst

/-- Who has the serial number of the recorder in a slot. -/
theorem serial_eq_iff (h : Orderly b past) {slot k : Nat} {r r' : Recorder}
    (hf : b.recorders.find? slot = some r) (hf' : b.recorders.find? k = some r') :
    r'.serial = r.serial ↔ k = slot := by
  constructor
  · exact h.apart k slot r' r hf' hf
  · rintro rfl
    rw [hf, Option.some.injEq] at hf'
    rw [hf']

/-- Nothing is told of a recorder to come. -/
theorem info?_next (h : Orderly b past) : b.media.handles.info? b.media.nextSerial = none := by
  cases hi : b.media.handles.info? b.media.nextSerial with
  | none => rfl
  | some info =>
    obtain ⟨slot, r, hf, hserial⟩ := h.owned _ info hi
    exact absurd (h.fresh slot r hf) (by omega)

theorem registered_newRecorder (h : Orderly b past) (name : String) (settings : RecorderSettings)
    (maxVerbosity : Verbosity) : (b.media.newRecorder name settings maxVerbosity).Registered :=
  ⟨h.consistent, fun _ => ⟨h.info?_next, rfl⟩, fun hlive => absurd rfl hlive⟩

end Orderly

/-- **Each change keeps order.** -/
theorem Change.orderly (h : Orderly b past) (hc : Change c b b' o) :
    Orderly b' (past ++ o.toList) := by
  cases hc with
  | steady hr hm => simpa using h.of_eq hr hm.handles hm.nextSerial
  | @creates slot r hslot hnone hr hserial hstate hbackend hhandles hnext htrace =>
    have hinfo := h.info?_next
    refine h.replace b.media.nextSerial hr (fun k r' hf => ⟨fun hs => ?_, ?_⟩) nofun
      (hhandles ▸ h.consistent) (by omega) (fun s _ => by rw [hhandles]) nofun ?_ ?_
    · exact absurd (h.fresh k r' hf) (by omega)
    · rintro rfl
      rw [hnone] at hf
      cases hf
    · rintro r' ⟨⟩
      refine ⟨hserial, by omega, ⟨hhandles ▸ h.consistent, fun _ => ⟨?_, hbackend⟩, ?_⟩, ?_⟩
      · rw [hhandles, hserial, hinfo]
      · exact fun hst => absurd hstate hst
      · exact fun hst => absurd hstate hst
    · simpa [hhandles] using h.handles
  | @opens slot r r' backend info hslot hfind hr hstate ho =>
    refine h.replace r.serial hr (fun k r' hf => h.serial_eq_iff hfind hf) (by simp)
      ho.consistent (Nat.le_of_eq ho.nextSerial.symm) (fun s hs => ?_) nofun ?_ ?_
    · rw [ho.info?_eq, if_neg hs]
    · rintro r'' ⟨⟩
      refine ⟨ho.serial, by rw [ho.nextSerial]; exact h.fresh slot r hfind, ho.registered,
        fun _ => ⟨⟨r.serial, info, backend⟩, ?_, ?_, ho.backend⟩⟩
      · exact Opening.latest?_append_self past ⟨r.serial, info, backend⟩
      · rw [ho.info?_eq, if_pos rfl]
    · rw [List.map_append, h.handles, ho.last, List.range'_concat]
      simp [ho.handle, Nat.add_comm]
  | @goesOn slot r r' events hslot hfind hr hg hends =>
    refine h.replace r.serial hr (fun k r' hf => h.serial_eq_iff hfind hf) nofun
      hg.registered.consistent (Nat.le_of_eq hg.nextSerial.symm) hg.others nofun ?_ ?_
    · rintro r'' ⟨⟩
      refine ⟨hg.serial, by rw [hg.nextSerial]; exact h.fresh slot r hfind, hg.registered,
        fun hst => ?_⟩
      obtain ⟨hst, hbackend, hi⟩ := hg.kept hst
      simp only [Option.toList_none, List.append_nil]
      rw [hi, hbackend]
      exact h.latest slot r hfind hst
    · rw [Option.toList_none, List.append_nil, hg.last]
      exact h.handles
  | @drops slot r hslot hfind hr hhandles hnext htrace hends =>
    have hi := HandleTable.info?_release h.consistent r.serial
    refine h.replace r.serial hr (fun k r' hf => h.serial_eq_iff hfind hf) nofun
      ?_ (Nat.le_of_eq hnext.symm) (fun s hs => ?_) (fun _ => ?_) (fun _ hn => nomatch hn) ?_
    · rw [hhandles]
      exact HandleTable.consistent_release h.consistent r.serial
    · rw [hhandles, hi, if_neg hs]
    · rw [hhandles, hi, if_pos rfl]
    · rw [Option.toList_none, List.append_nil, hhandles, HandleTable.last_release]
      exact h.handles

theorem Changes.orderly {os : List Opening} (hc : Changes c b os b') (h : Orderly b past) :
    Orderly b' (past ++ os) :=
  hc.preserves Change.orderly h

/-! ### There is nothing else -/

section Steps

variable {slot : Nat}

/-- What goes on in a slot is a change, if there is a recorder in it. -/
theorem change_onRecorder {f : Recording → Recording} (hslot : c.slot? = some slot)
    (hf : ∀ r, b.recorders.find? slot = some r → ∃ events,
      Recording.GoesOn ⟨r, b.media⟩ (f ⟨r, b.media⟩) events ∧ (r.state ≠ .freed →
        (f ⟨r, b.media⟩).recorder.state = .freed → c.Ends slot)) :
    Change c b (b.onRecorder slot f) none := by
  unfold onRecorder
  split
  next => exact .steady (fun _ => rfl) (.refl _)
  next r hr =>
    obtain ⟨events, hg, hends⟩ := hf r hr
    exact .goesOn hslot hr (Slots.find?_put _ _ · _) hg hends

/-- Recording fields ends no life. -/
theorem change_of_onlyRecords (h : Orderly b past) {f : Recording → Recording}
    (hslot : c.slot? = some slot) (hf : ∀ s, Recording.OnlyRecords s (f s)) :
    Change c b (b.onRecorder slot f) none := by
  refine change_onRecorder hslot fun r hr => ?_
  obtain ⟨attrs, hrec⟩ := (hf ⟨r, b.media⟩).records (h.registered slot r hr)
  exact ⟨_, hrec.goesOn (h.registered slot r hr), fun hst hst' => absurd (hrec.state ▸ hst') hst⟩

theorem Orderly.acquireHandle (h : Orderly b past) {r : Recorder}
    (hr : b.recorders.find? slot = some r) :
    b.media.acquireHandle r = (b.media.handleOf r, b.media) :=
  (h.registered slot r hr).media_acquireHandle

/-- Giving up what is in a slot. -/
theorem change_drop (hslot : c.slot? = some slot) (hends : c.Ends slot) :
    Change c b ⟨b.graph, b.recorders.erase slot, b.streams,
      (b.recorders.find? slot).elim b.media b.media.dropRecorder⟩ none := by
  cases hf : b.recorders.find? slot with
  | none =>
    refine .steady (fun k => ?_) (.refl _)
    rw [Slots.find?_erase]
    split
    next hk => rw [hk, hf]
    next => rfl
  | some r => exact .drops hslot hf (Slots.find?_erase _ _) rfl rfl (fun _ => rfl) hends

/-- A recorder that is not opened is told why. -/
theorem change_refuse (h : Orderly b past) (hslot : c.slot? = some slot) {r : Recorder}
    (hr : b.recorders.find? slot = some r) (id : String) (e : RecordingError) :
    Change c b { b with
      recorders := b.recorders.put slot ((Recording.mk r b.media).refuse id e).2.recorder
      media := ((Recording.mk r b.media).refuse id e).2.media } none := by
  have hrefuse := change_of_onlyRecords (c := c) h hslot
    fun s => s.onlyRecords_report ⟨.error, .none, id, e.message⟩
  rwa [onRecorder, hr] at hrefuse

/-- What is none of the recorders' business. -/
theorem change_of_quiet {streams : Slots TextStream} {m : Media} (hm : Media.Quiet b.media m) :
    Change c b ⟨b.graph, b.recorders, streams, m⟩ none :=
  .steady (fun _ => rfl) hm

theorem change_self (c : Command) (b : Bench) : Change c b b none := change_of_quiet (.refl _)

theorem change_configureInto (slot : Nat) (t : TextStream) (name scope typeName : String)
    (found : Option Outlet) :
    Change c b (b.configureInto slot t name scope typeName found).2 none := by
  have hm := t.quiet_configure b.media name scope typeName found
  unfold configureInto
  split
  next heq =>
    rw [heq] at hm
    exact change_of_quiet hm
  next heq =>
    rw [heq] at hm
    exact change_of_quiet hm

theorem change_onStream (slot : Nat) (f : TextStream → TextStream) :
    Change c b (b.onStream slot f) none := by
  unfold onStream
  split
  · exact change_self c b
  · exact change_of_quiet (.refl _)

/-- Opening the recorder in a slot. -/
theorem change_openOn (h : Orderly b past) (backend : Option Backend) (time : Nat)
    (typeName : String) :
    Change (.openOn slot backend time typeName) b (b.step (.openOn slot backend time typeName)).2
      (b.opening? (.openOn slot backend time typeName)) := by
  cases hr : b.recorders.find? slot with
  | none => cases backend <;> simp only [opening?, step, hr] <;> exact change_self _ b
  | some r =>
    cases backend with
    | none =>
      simp only [opening?, step, hr, Recording.openOn_none]
      exact change_refuse h rfl hr ..
    | some backend =>
      by_cases hst : r.state = .freed
      · obtain ⟨hok, ho⟩ :=
          Recording.opens_openOn (h.registered slot r hr) hst backend time typeName
        simp only [opening?, step, hr, hok, Reply.ofExcept, Slots.find?_put_self,
          Option.bind_eq_bind, Option.bind_some]
        generalize ((Recording.mk r b.media).openOn (some backend) time typeName).2 = t at ho ⊢
        have hhandle : t.media.handleOf t.recorder = b.media.handles.last + 1 := ho.handle_eq
        rw [hhandle, ho.serial, ho.name]
        exact .opens rfl hr (Slots.find?_put _ _ · _) hst ho
      · simp only [opening?, step, hr, Recording.openOn_of_not_freed (s := ⟨r, b.media⟩) hst]
        exact change_refuse h rfl hr ..

/-- A command that puts no new recorder into a slot makes one change. -/
theorem step_change (h : Orderly b past) (c : Command) (hclear : ∀ n, c ≠ .clearTrace n)
    (hinstalls : ¬ c.Installs) : Change c b (b.step c).2 (b.opening? c) := by
  cases c with
  | clearTrace n => exact absurd rfl (hclear n)
  | create | openOnStream => exact absurd trivial hinstalls
  | openOn => exact change_openOn h ..
  | drop => exact change_drop (by rfl) (by rfl)
  | close slot time =>
    simp only [step]
    refine change_onRecorder rfl fun r hr => ?_
    have hs := h.registered slot r hr
    by_cases hst : r.state = .opened
    · obtain ⟨hg, hclosed⟩ := Recording.goesOn_close hs hst time
      exact ⟨_, hg, fun _ hfreed => by rw [hclosed] at hfreed; cases hfreed⟩
    · rw [Recording.close_of_not_open time hst]
      exact ⟨[], .refl hs, fun hlive hfreed => absurd hfreed hlive⟩
  | free slot time =>
    simp only [step]
    refine change_onRecorder rfl fun r hr => ?_
    obtain ⟨events, hg, -⟩ := Recording.goesOn_free (h.registered slot r hr) time
    exact ⟨events, hg, fun _ _ => rfl⟩
  | configure =>
    simp only [step]
    exact change_of_onlyRecords h rfl fun s =>
      Recording.onlyRecords_recorder rfl rfl rfl rfl rfl rfl
  | move =>
    simp only [step]
    exact change_of_onlyRecords h rfl fun s => s.onlyRecords_moveScope _
  | number | real | string | time | generic =>
    simp only [step]
    exact change_of_onlyRecords h rfl fun s => s.onlyRecords_emit ..
  | object =>
    simp only [step]
    exact change_of_onlyRecords h rfl fun s => b.graph.onlyRecords_recordObject _ _ s
  | record =>
    simp only [step]
    exact change_of_onlyRecords h rfl fun s => b.graph.onlyRecords_record _ s
  | openTranscript found => exact change_of_quiet (b.media.quiet_openTranscript found)
  | closeTranscript => exact change_of_quiet b.media.quiet_closeTranscript
  | renameTranscript => exact change_of_quiet (b.media.quiet_renameTranscript _)
  | setTime => exact change_of_quiet ⟨rfl, rfl, fun _ => rfl⟩
  | openStream => exact change_configureInto ..
  | configureStream slot =>
    simp only [opening?, step]
    cases b.streams.find? slot with
    | none => exact change_self _ b
    | some t => exact change_configureInto ..
  | closeStream => exact change_onStream ..
  | freeStream => exact change_onStream ..
  | link left right relation =>
    simp only [opening?, step]
    cases hl : b.recorders.find? left with
    | none => exact change_self _ b
    | some l =>
      cases hr : b.recorders.find? right with
      | none => exact change_self _ b
      | some r =>
        simp only [h.acquireHandle hl, h.acquireHandle hr]
        exact change_of_quiet (b.media.quiet_writeEvent _)
  | handle slot =>
    simp only [opening?, step]
    cases hr : b.recorders.find? slot with
    | none => exact change_self _ b
    | some r =>
      simp only [h.acquireHandle hr]
      exact change_self _ b
  | lookUp handle =>
    simp only [opening?, step]
    cases b.media.fromHandle handle <;> exact change_self _ b

/-! ### Putting a recorder into a slot -/

/-- What is in a slot is given up before a new recorder is put there. -/
theorem changes_create (hslot : c.slot? = some slot) (hends : c.Ends slot) (name : String)
    (settings : RecorderSettings) (maxVerbosity : Verbosity) :
    Changes c b [] (b.install slot (b.media.newRecorder name settings maxVerbosity)) := by
  refine (change_drop hslot hends).changes.tail (o := none) (.creates hslot
    (r := (b.media.newRecorder name settings maxVerbosity).recorder) ?_ (fun k => ?_) ?_ rfl rfl
    ?_ ?_ fun n => ?_)
  · exact Slots.find?_erase_self ..
  · simp only [install, Slots.find?_put, Slots.find?_erase]
    split <;> rfl
  all_goals
    simp only [install]
    cases b.recorders.find? slot <;> rfl

/-- When the stream is not open, nothing happens. -/
theorem step_openOnStream_of_not_opened {stream : Nat}
    (h : ∀ t, b.streams.find? stream = some t → t.state ≠ .opened) (slot : Nat) (name : String)
    (time : Nat) (typeName : String) :
    b.step (.openOnStream slot stream name time typeName) = (.absent, b) := by
  cases ht : b.streams.find? stream with
  | none => simp only [step, ht, Option.bind_none]
  | some t =>
    simp only [step, ht, Option.bind_some, TextStream.openRecorder_of_not_open _ _ _ (h t ht)]

/-- Opening a new recorder on a stream either finds no open stream, or puts the new recorder into
the slot after it was opened. -/
theorem step_openOnStream (h : Orderly b past) (slot k : Nat) (name : String) (time : Nat)
    (typeName : String) :
    (b.step (.openOnStream slot k name time typeName)).2 = b ∧
        b.opening? (.openOnStream slot k name time typeName) = none ∨
      ∃ t number, Recording.Opens (b.media.newRecorder name {} .medium) t (.transcript number)
          ⟨b.media.handles.last + 1, name, typeName, time⟩ ∧
        (b.step (.openOnStream slot k name time typeName)).2 = b.install slot t ∧
        b.opening? (.openOnStream slot k name time typeName) = some ⟨b.media.nextSerial,
          ⟨(b.install slot t).media.handleOf t.recorder, name, typeName, time⟩,
          .transcript number⟩ := by
  by_cases hopen : ∃ t, b.streams.find? k = some t ∧ t.state = .opened
  · obtain ⟨stream, hk, hst⟩ := hopen
    have hreg := h.registered_newRecorder name {} .medium
    obtain ⟨-, ho⟩ := Recording.opens_openOn hreg rfl (.transcript stream.number) time typeName
    refine .inr ⟨_, stream.number, ho, ?_, ?_⟩
    · simp only [step, hk, Option.bind_some, TextStream.openRecorder, hst]
    · simp only [opening?, step, hk, Option.bind_some, TextStream.openRecorder, hst, install,
        Slots.find?_put_self, Option.bind_eq_bind, ho.serial]
      rfl
  · have hstep := step_openOnStream_of_not_opened (fun t ht hst => hopen ⟨t, ht, hst⟩) slot name
      time typeName
    exact .inl ⟨by rw [hstep], by simp only [opening?, hstep]⟩

/-- A recorder that is opened before it is put into a slot may as well be put there first. -/
theorem Orderly.opens_install (h : Orderly b past) {s t : Recording} {backend : Backend}
    {info : RecorderInfo} (ho : Recording.Opens s t backend info)
    (hserial : s.recorder.serial = b.media.nextSerial)
    (hhandles : s.media.handles.Consistent) (slot : Nat) :
    Recording.Opens ⟨s.recorder, (b.install slot s).media⟩ ⟨t.recorder, (b.install slot t).media⟩
      backend info := by
  simp only [install]
  cases hf : b.recorders.find? slot with
  | none => exact ho
  | some old =>
    -- the recorder that was there has another serial number
    exact ho.dropRecorder hhandles (hserial ▸ Nat.ne_of_lt (h.fresh slot old hf))

/-- Opening a new recorder on a stream is putting it into the slot and opening it there. -/
theorem changes_openOnStream (h : Orderly b past) (k : Nat) (name : String) (time : Nat)
    (typeName : String) :
    Changes (.openOnStream slot k name time typeName) b
      (b.opening? (.openOnStream slot k name time typeName)).toList
      (b.step (.openOnStream slot k name time typeName)).2 := by
  rcases step_openOnStream h slot k name time typeName with
    ⟨hstep, hopening⟩ | ⟨t, number, ho, hstep, hopening⟩
  · rw [hstep, hopening]
    exact .refl
  · have hinstall := h.opens_install ho rfl h.consistent slot
    have hhandle : (b.install slot t).media.handleOf t.recorder = b.media.handles.last + 1 :=
      hinstall.handle_eq
    rw [hstep, hopening, hhandle]
    refine (changes_create (c := .openOnStream slot k name time typeName) rfl rfl name {}
      .medium).tail (.opens rfl (Slots.find?_put_self ..) (fun i => ?_) rfl hinstall)
    simp only [install, Slots.find?_put]
    split <;> rfl

/-- **Commands do nothing else** to the recorders of an orderly bench, but forgetting a trace. -/
theorem step_changes (h : Orderly b past) (c : Command) (hclear : ∀ n, c ≠ .clearTrace n) :
    Changes c b (b.opening? c).toList (b.step c).2 := by
  by_cases hinstalls : c.Installs
  · cases c with
    | create => exact changes_create (by rfl) (by rfl) ..
    | openOnStream => exact changes_openOnStream h ..
    | _ => cases hinstalls
  · exact (step_change h c hclear hinstalls).changes

end Steps

/-- **Order is kept** by every command. -/
theorem orderly_step (h : Orderly b past) (c : Command) :
    Orderly (b.step c).2 (past ++ (b.opening? c).toList) := by
  by_cases hc : ∃ n, c = .clearTrace n
  · obtain ⟨n, rfl⟩ := hc
    rw [show (b.opening? (.clearTrace n)).toList = [] from rfl, List.append_nil]
    exact h.of_eq (fun _ => rfl) rfl rfl
  · exact (step_changes h c fun n hn => hc ⟨n, hn⟩).orderly h

/-- Order is kept by commands in order. -/
theorem orderly_run (h : Orderly b past) (commands : List Command) :
    Orderly (b.run commands) (past ++ b.openings commands) := by
  induction commands generalizing b past with
  | nil => simpa [openings] using h
  | cons c rest ih =>
    rw [openings, ← List.append_assoc]
    exact ih (orderly_step h c)

/-- Every run from the start is in order. -/
theorem orderly_run_start (graph : ObjectGraph) (fileName : String) (commands : List Command) :
    Orderly ((start graph fileName).run commands) ((start graph fileName).openings commands) :=
  orderly_run (orderly_start graph fileName) commands

end Bench

end FieldAutomation
