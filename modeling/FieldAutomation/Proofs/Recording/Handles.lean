import FieldAutomation.Proofs.Recording.Changes

/-!
# Handles over a run

Every recorder that is opened gets a handle that nobody had before, and keeps it until it is freed
or given up, whatever else happens on the bench.

* `Bench.HandlesInOrder`: what the handles of a bench tell;
* `Bench.Undisturbed`: commands that neither free nor give up the recorder in a slot.

Main statement: `Bench.handlesInOrder_run`.
-/

namespace FieldAutomation

namespace Bench

variable {b b' : Bench} {past : List Opening} {c : Command} {o : Option Opening}

/-- Whatever the commands do, they neither free nor give up the recorder in a slot.  A recorder is
not given up for one that could not be opened. -/
def Undisturbed (slot : Nat) : Bench → List Command → Prop
  | _, [] => True
  | b, c :: rest =>
    (c.Ends slot → (b.step c).1 = .absent) ∧ Undisturbed slot (b.step c).2 rest

/-- The recorder `r` in a slot of `b` is still in use in `b'`, under the same handle. -/
def Keeps (b b' : Bench) (slot : Nat) (r : Recorder) : Prop :=
  ∃ r', b'.recorders.find? slot = some r' ∧ r'.serial = r.serial ∧ r'.state ≠ .freed ∧
    b'.media.handles.info? r.serial = b.media.handles.info? r.serial

/-- The handles of a bench on which `past` was opened. -/
structure HandlesInOrder (b : Bench) (past : List Opening) : Prop where
  /-- Freed recorders, and no others, have handle 0. -/
  zero_iff : ∀ slot r, b.recorders.find? slot = some r →
    (b.media.handleOf r = 0 ↔ r.state = .freed)
  /-- Asking for a handle changes nothing. -/
  asking : ∀ slot r, b.recorders.find? slot = some r →
    b.media.acquireHandle r = (b.media.handleOf r, b.media)
  /-- The two sides of the table are inverse to each other. -/
  inverse : ∀ serial handle, b.media.handles.byRecorder.find? serial = some handle ↔
    (b.media.handles.byHandle.find? handle).map (·.serial) = some serial
  /-- They hold the recorders in use. -/
  held_iff : ∀ serial handle, b.media.handles.byRecorder.find? serial = some handle ↔
    ∃ slot r, b.recorders.find? slot = some r ∧ r.serial = serial ∧ r.state ≠ .freed ∧
      b.media.handleOf r = handle
  /-- No two recorders in use have the same handle. -/
  distinct : ∀ slot slot' r r', b.recorders.find? slot = some r →
    b.recorders.find? slot' = some r' → r.state ≠ .freed →
    b.media.handleOf r = b.media.handleOf r' → slot = slot'
  /-- A handle leads to the recorder that has it, and tells of its latest opening. -/
  fromHandle_iff : ∀ handle info, b.media.fromHandle handle = some info ↔
    ∃ slot r o, b.recorders.find? slot = some r ∧ r.state ≠ .freed ∧
      b.media.handleOf r = handle ∧ Opening.latest? past r.serial = some o ∧
      info = ⟨handle, r.name, o.info.typeName, o.info.openTime⟩
  /-- It is the one that the latest opening handed out. -/
  current : ∀ slot r, b.recorders.find? slot = some r → r.state ≠ .freed →
    (Opening.latest? past r.serial).map (·.info.handle) = some (b.media.handleOf r)
  /-- Handles are handed out one after the other, and only when a recorder is opened. -/
  counted : past.map (·.info.handle) = List.range' 1 b.media.handles.last
  /-- No handle is handed out twice. -/
  once : (past.map (·.info.handle)).Nodup
  /-- A recorder in use keeps its handle until it is freed or given up. -/
  kept : ∀ slot r commands, b.recorders.find? slot = some r → r.state ≠ .freed →
    Undisturbed slot b commands → ∃ r', (b.run commands).recorders.find? slot = some r' ∧
      r'.serial = r.serial ∧ r'.state ≠ .freed ∧
      (b.run commands).media.handleOf r' = b.media.handleOf r

namespace Orderly

variable {slot : Nat} {r : Recorder}

/-- The table tells of a recorder in use under its handle. -/
theorem info?_eq (h : Orderly b past) (hr : b.recorders.find? slot = some r)
    (hst : r.state ≠ .freed) :
    b.media.handles.info? r.serial = some (r.infoAs (b.media.handleOf r)) :=
  (h.registered slot r hr).info?_eq hst

/-- Only recorders in use have something told of them. -/
theorem state_ne_freed (h : Orderly b past) (hr : b.recorders.find? slot = some r)
    {info : RecorderInfo} (hi : b.media.handles.info? r.serial = some info) :
    r.state ≠ .freed := by
  intro hst
  have hfreed : b.media.handles.info? r.serial = none := ((h.registered slot r hr).freed hst).1
  rw [hfreed] at hi
  cases hi

/-- A recorder in use is as it was opened. -/
theorem latest_eq (h : Orderly b past) (hr : b.recorders.find? slot = some r)
    (hst : r.state ≠ .freed) :
    ∃ o, Opening.latest? past r.serial = some o ∧ o.info = r.infoAs (b.media.handleOf r) ∧
      r.backend = some o.backend := by
  obtain ⟨o, ho, hi, hbackend⟩ := h.latest slot r hr hst
  rw [h.info?_eq hr hst] at hi
  exact ⟨o, ho, (Option.some.inj hi).symm, hbackend⟩

/-- A recorder has a handle exactly if it is in use. -/
theorem handle?_eq_some_iff (h : Orderly b past) (serial handle : Nat) :
    b.media.handles.handle? serial = some handle ↔
      ∃ slot r, b.recorders.find? slot = some r ∧ r.serial = serial ∧ r.state ≠ .freed ∧
        b.media.handleOf r = handle := by
  constructor
  · intro hh
    obtain ⟨info, hi⟩ := Option.ne_none_iff_exists'.1 fun hn => by
      rw [h.consistent.info?_eq_none_iff.1 hn] at hh
      cases hh
    obtain ⟨slot, r, hr, rfl⟩ := h.owned serial info hi
    have hst := h.state_ne_freed hr hi
    rw [h.consistent.handle?_of_info? (h.info?_eq hr hst), Option.some.injEq] at hh
    exact ⟨slot, r, hr, rfl, hst, hh⟩
  · rintro ⟨slot, r, hr, rfl, hst, rfl⟩
    exact h.consistent.handle?_of_info? (h.info?_eq hr hst)

/-- Freed recorders, and no others, have handle 0. -/
theorem handleOf_eq_zero_iff (h : Orderly b past) (hr : b.recorders.find? slot = some r) :
    b.media.handleOf r = 0 ↔ r.state = .freed := by
  refine ⟨fun hzero => Decidable.byContradiction fun hst => ?_, fun hst => ?_⟩
  · have hpos : 0 < b.media.handleOf r := (h.registered slot r hr).handle_pos hst
    omega
  · exact Recording.handle_of_freed (s := ⟨r, b.media⟩) hst

theorem handle_inj (h : Orderly b past) {slot' : Nat} {r' : Recorder}
    (hr : b.recorders.find? slot = some r) (hr' : b.recorders.find? slot' = some r')
    (hst : r.state ≠ .freed) (heq : b.media.handleOf r = b.media.handleOf r') :
    slot = slot' := by
  have hst' : r'.state ≠ .freed := by
    rwa [Ne, ← h.handleOf_eq_zero_iff hr', ← heq, h.handleOf_eq_zero_iff hr]
  exact h.apart slot slot' r r' hr hr'
    (h.consistent.serial_injective (h.info?_eq hr hst) (h.info?_eq hr' hst') heq)

theorem fromHandle_eq_some_iff (h : Orderly b past) (handle : Nat) (info : RecorderInfo) :
    b.media.fromHandle handle = some info ↔
      ∃ slot r, b.recorders.find? slot = some r ∧ r.state ≠ .freed ∧
        b.media.handleOf r = handle ∧ info = r.infoAs handle := by
  have hfrom : b.media.fromHandle handle = some info ↔
      b.media.handles.find? handle = some info := by
    unfold Media.fromHandle
    split
    next hzero =>
      refine ⟨nofun, fun hf => ?_⟩
      obtain ⟨hhandle, serial, hi⟩ := h.consistent.find?_eq_some_iff.1 hf
      have := h.consistent.handle_pos hi
      omega
    next => rfl
  rw [hfrom, h.consistent.find?_eq_some_iff]
  constructor
  · rintro ⟨rfl, serial, hi⟩
    obtain ⟨slot, r, hr, rfl⟩ := h.owned serial info hi
    have hst := h.state_ne_freed hr hi
    have heq := Option.some.inj (hi.symm.trans (h.info?_eq hr hst))
    refine ⟨slot, r, hr, hst, ?_, ?_⟩
    · rw [heq]
      rfl
    · rw [heq]
      rfl
  · rintro ⟨slot, r, hr, hst, rfl, rfl⟩
    exact ⟨rfl, r.serial, h.info?_eq hr hst⟩

end Orderly

/-! ### Keeping a handle -/

/-- A change keeps the recorders in use, but for the one that it frees or gives up. -/
theorem Change.keeps (h : Orderly b past) (hc : Change c b b' o) {slot : Nat} {r : Recorder}
    (hr : b.recorders.find? slot = some r) (hst : r.state ≠ .freed) (hends : ¬ c.Ends slot) :
    Keeps b b' slot r := by
  cases hc with
  | steady hr' hm => exact ⟨r, (hr' slot).trans hr, rfl, hst, by rw [hm.handles]⟩
  | @creates k r' hslot hnone hr' hserial hstate hbackend hhandles hnext htrace =>
    have hne : slot ≠ k := by
      rintro rfl
      cases hnone.symm.trans hr
    exact ⟨r, by rw [hr', if_neg hne, hr], rfl, hst, by rw [hhandles]⟩
  | @opens k s s' backend info hslot hfind hr' hstate ho =>
    have hne : slot ≠ k := by
      rintro rfl
      rw [hr, Option.some.injEq] at hfind
      exact hst (hfind ▸ hstate)
    have hserial : r.serial ≠ s.serial := mt (h.serial_eq_iff hfind hr).1 hne
    exact ⟨r, by rw [hr', if_neg hne, hr], rfl, hst, by rw [ho.info?_eq, if_neg hserial]⟩
  | @goesOn k s s' events hslot hfind hr' hg hfrees =>
    by_cases hne : slot = k
    · subst hne
      obtain rfl : r = s := Option.some.inj (hr.symm.trans hfind)
      have hlive : s'.state ≠ .freed := fun hst' => hends (hfrees hst hst')
      exact ⟨s', by rw [hr', if_pos rfl], hg.serial, hlive, (hg.kept hlive).2.2⟩
    · have hserial : r.serial ≠ s.serial := mt (h.serial_eq_iff hfind hr).1 hne
      exact ⟨r, by rw [hr', if_neg hne, hr], rfl, hst, hg.others _ hserial⟩
  | @drops k s hslot hfind hr' hhandles hnext htrace hdrops =>
    have hne : slot ≠ k := by
      rintro rfl
      exact hends hdrops
    have hserial : r.serial ≠ s.serial := mt (h.serial_eq_iff hfind hr).1 hne
    refine ⟨r, by rw [hr', if_neg hne, hr], rfl, hst, ?_⟩
    rw [hhandles, HandleTable.info?_release h.consistent, if_neg hserial]

theorem Keeps.trans {b'' : Bench} {slot : Nat} {r r' : Recorder} (h : Keeps b b' slot r)
    (hr' : b'.recorders.find? slot = some r') (h' : Keeps b' b'' slot r') :
    Keeps b b'' slot r := by
  obtain ⟨s, hs, hserial, -, hinfo⟩ := h
  obtain rfl : r' = s := Option.some.inj (hr'.symm.trans hs)
  obtain ⟨t, ht, hserial', hst, hinfo'⟩ := h'
  rw [hserial] at hserial' hinfo'
  exact ⟨t, ht, hserial', hst, hinfo'.trans hinfo⟩

/-- A command that finds nothing changes nothing, if it is one that can end a life. -/
theorem step_of_absent {slot : Nat} (hends : c.Ends slot) (habsent : (b.step c).1 = .absent) :
    (b.step c).2 = b := by
  cases c with
  | openOnStream k stream name time typeName =>
    simp only [step] at habsent ⊢
    split
    next => rfl
    next heq =>
      rw [heq] at habsent
      cases habsent
  | create | free | drop => cases habsent
  | _ => cases hends

/-- So does every command, unless it is one that ends the life of the recorder. -/
theorem keeps_step (h : Orderly b past) {slot : Nat} {r : Recorder}
    (hr : b.recorders.find? slot = some r) (hst : r.state ≠ .freed)
    (hends : c.Ends slot → (b.step c).1 = .absent) : Keeps b (b.step c).2 slot r := by
  by_cases hc : c.Ends slot
  · rw [step_of_absent hc (hends hc)]
    exact ⟨r, hr, rfl, hst, rfl⟩
  · by_cases hclear : ∃ n, c = .clearTrace n
    · obtain ⟨n, rfl⟩ := hclear
      exact ⟨r, hr, rfl, hst, rfl⟩
    · -- the changes that make up the command keep the recorder one after the other
      have hbase : Orderly b past ∧ Keeps b b slot r := ⟨h, r, hr, rfl, hst, rfl⟩
      refine ((step_changes h c fun n hn => hclear ⟨n, hn⟩).preserves
        (P := fun b' past => Orderly b' past ∧ Keeps b b' slot r) ?_ hbase).2
      rintro b₁ b₂ past₁ o ⟨h₁, hk⟩ hchange
      have ⟨r₁, hr₁, _, hst₁, _⟩ := hk
      exact ⟨hchange.orderly h₁, hk.trans hr₁ (hchange.keeps h₁ hr₁ hst₁ hc)⟩

/-- And commands in order. -/
theorem keeps_run (h : Orderly b past) {slot : Nat} {r : Recorder}
    (hr : b.recorders.find? slot = some r) (hst : r.state ≠ .freed) {commands : List Command}
    (hundisturbed : Undisturbed slot b commands) : Keeps b (b.run commands) slot r := by
  induction commands generalizing b past r with
  | nil => exact ⟨r, hr, rfl, hst, rfl⟩
  | cons c rest ih =>
    have hk := keeps_step h hr hst hundisturbed.1
    have ⟨r', hr', _, hst', _⟩ := hk
    exact hk.trans hr' (ih (orderly_step h c) hr' hst' hundisturbed.2)

/-! ### Handles -/

theorem Orderly.handlesInOrder (h : Orderly b past) : HandlesInOrder b past where
  zero_iff := fun _ _ => h.handleOf_eq_zero_iff
  asking := fun _ _ hr => h.acquireHandle hr
  inverse := h.consistent.inverse
  held_iff := h.handle?_eq_some_iff
  distinct := fun _ _ _ _ => h.handle_inj
  fromHandle_iff := by
    intro handle info
    rw [h.fromHandle_eq_some_iff]
    constructor
    · rintro ⟨slot, r, hr, hst, rfl, rfl⟩
      obtain ⟨o, ho, hi, -⟩ := h.latest_eq hr hst
      exact ⟨slot, r, o, hr, hst, rfl, ho, by rw [hi]; rfl⟩
    · rintro ⟨slot, r, o, hr, hst, rfl, ho, rfl⟩
      obtain ⟨o', ho', hi, -⟩ := h.latest_eq hr hst
      obtain rfl : o = o' := Option.some.inj (ho.symm.trans ho')
      exact ⟨slot, r, hr, hst, rfl, by rw [hi]; rfl⟩
  current := by
    intro slot r hr hst
    obtain ⟨o, ho, hi, -⟩ := h.latest_eq hr hst
    rw [ho, Option.map_some, hi]
    rfl
  counted := h.handles
  once := h.nodup_handles
  kept := by
    intro slot r commands hr hst hundisturbed
    obtain ⟨r', hr', hserial, hst', hi⟩ := keeps_run h hr hst hundisturbed
    have h' := orderly_run h commands
    rw [← hserial, h'.info?_eq hr' hst', hserial, h.info?_eq hr hst, Option.some.injEq] at hi
    exact ⟨r', hr', hserial, hst', congrArg RecorderInfo.handle hi⟩

/-- **Handles are in order after every run**, whatever was done to whichever recorders. -/
theorem handlesInOrder_run (graph : ObjectGraph) (fileName : String) (commands : List Command) :
    HandlesInOrder ((start graph fileName).run commands)
      ((start graph fileName).openings commands) :=
  (orderly_run_start graph fileName commands).handlesInOrder

/-- A recorder that is opened again after it was freed has another handle. -/
example :
    let b := (start {} "").run
      [.create 0 "r" {} .medium, .openOn 0 (some (.memory 0)) 1 "t", .free 0 2,
        .openOn 0 (some (.memory 0)) 3 "u"]
    b.media.fromHandle 1 = none ∧ b.media.fromHandle 2 = some ⟨2, "r", "u", 3⟩ := by
  decide

end Bench

end FieldAutomation
