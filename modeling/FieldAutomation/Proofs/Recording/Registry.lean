import FieldAutomation.Recording.Handle
import Mathlib.Logic.Basic

/-!
# The table of handles

The table of handles has two sides, one by recorder and one by handle.  Handing out a handle and
taking it back keep them inverse to each other, so that the table is described by what it tells of
each recorder.

* `HandleTable.Consistent`: the two sides fit together;
* `HandleTable.info?`: what the table tells of a recorder;
* `HandleTable.grant`: a table after the next handle was handed out.

Main statements: `HandleTable.acquire_of_info?` and `HandleTable.acquire_of_none` (a handle is
handed out exactly to a recorder that has none), `HandleTable.consistent_grant`,
`HandleTable.consistent_release`, and what they do to `HandleTable.info?`.
-/

namespace FieldAutomation

namespace HandleTable

/-- What the table tells of a recorder. -/
def info? (t : HandleTable) (serial : Nat) : Option RecorderInfo := (t.handle? serial).bind t.find?

/-- The two sides of a table fit together. -/
structure Consistent (t : HandleTable) : Prop where
  inverse : ∀ serial handle, t.byRecorder.find? serial = some handle ↔
    (t.byHandle.find? handle).map (·.serial) = some serial
  told : ∀ handle e, t.byHandle.find? handle = some e → e.info.handle = handle
  handed : ∀ handle e, t.byHandle.find? handle = some e → 0 < handle ∧ handle ≤ t.last

theorem consistent_empty : Consistent {} :=
  ⟨fun _ _ => by simp, fun _ _ => nofun, fun _ _ => nofun⟩

variable {t : HandleTable} {serial handle : Nat} {info : RecorderInfo}

namespace Consistent

/-- What is told of a recorder is what its handle tells. -/
theorem info?_eq_some_iff (h : t.Consistent) :
    t.info? serial = some info ↔ t.byHandle.find? info.handle = some ⟨serial, info⟩ := by
  constructor
  · intro hi
    obtain ⟨handle, hh, hf⟩ := Option.bind_eq_some_iff.1 hi
    obtain ⟨⟨serial', info'⟩, he, rfl⟩ := Option.map_eq_some_iff.1 hf
    have hs := (h.inverse serial handle).1 hh
    rw [he, Option.map_some, Option.some.injEq] at hs
    rw [h.told _ _ he, he, ← hs]
  · intro he
    have hh := (h.inverse serial info.handle).2 (by rw [he]; rfl)
    rw [info?, handle?, hh, Option.bind_some, find?, he]
    rfl

theorem handle?_of_info? (h : t.Consistent) (hi : t.info? serial = some info) :
    t.handle? serial = some info.handle := by
  rw [handle?, h.inverse, h.info?_eq_some_iff.1 hi]
  rfl

/-- Something is told of each recorder that has a handle. -/
theorem info?_eq_none_iff (h : t.Consistent) : t.info? serial = none ↔ t.handle? serial = none := by
  constructor
  · intro hn
    cases hh : t.handle? serial with
    | none => rfl
    | some handle =>
      obtain ⟨e, he, -⟩ := Option.map_eq_some_iff.1 ((h.inverse serial handle).1 hh)
      rw [info?, hh, Option.bind_some, find?, he] at hn
      cases hn
  · intro hn
    rw [info?, hn, Option.bind_none]

/-- A handle leads to the recorder that has it. -/
theorem find?_eq_some_iff (h : t.Consistent) :
    t.find? handle = some info ↔ info.handle = handle ∧ ∃ serial, t.info? serial = some info := by
  constructor
  · intro hf
    obtain ⟨⟨serial, info'⟩, he, rfl⟩ := Option.map_eq_some_iff.1 hf
    have hhandle := h.told _ _ he
    exact ⟨hhandle, serial, h.info?_eq_some_iff.2 (hhandle.symm ▸ he)⟩
  · rintro ⟨rfl, serial, hi⟩
    rw [find?, h.info?_eq_some_iff.1 hi]
    rfl

/-- No two recorders have the same handle. -/
theorem serial_injective (h : t.Consistent) {serial' : Nat} {info' : RecorderInfo}
    (hi : t.info? serial = some info) (hi' : t.info? serial' = some info')
    (heq : info.handle = info'.handle) : serial = serial' := by
  have he := h.info?_eq_some_iff.1 hi
  rw [heq, h.info?_eq_some_iff.1 hi'] at he
  exact congrArg HandleEntry.serial (Option.some.inj he).symm

theorem handle_pos (h : t.Consistent) (hi : t.info? serial = some info) : 0 < info.handle :=
  (h.handed _ _ (h.info?_eq_some_iff.1 hi)).1

/-- The next handle tells of no recorder. -/
theorem byHandle_next (h : t.Consistent) : t.byHandle.find? (t.last + 1) = none := by
  cases he : t.byHandle.find? (t.last + 1) with
  | none => rfl
  | some e => exact absurd (h.handed _ _ he).2 (Nat.not_succ_le_self _)

end Consistent

/-! ### Handing out a handle -/

/-- A recorder that has a handle keeps it, and nothing changes. -/
theorem acquire_of_info? (h : t.Consistent) (hi : t.info? serial = some info)
    (name typeName : String) (openTime : Nat) :
    t.acquire serial name typeName openTime = (info.handle, t) := by
  have he := h.info?_eq_some_iff.1 hi
  rw [acquire, assign, h.handle?_of_info? hi]
  simp only
  rw [describe, if_pos (by rw [he]; rfl)]

/-- A table after the next handle was handed out. -/
def grant (t : HandleTable) (serial : Nat) (name typeName : String) (openTime : Nat) :
    HandleTable where
  last := t.last + 1
  byRecorder := t.byRecorder.put serial (t.last + 1)
  byHandle := t.byHandle.put (t.last + 1) ⟨serial, t.last + 1, name, typeName, openTime⟩

/-- A recorder that has no handle gets the next one. -/
theorem acquire_of_none (h : t.Consistent) (hn : t.handle? serial = none)
    (name typeName : String) (openTime : Nat) :
    t.acquire serial name typeName openTime =
      (t.last + 1, t.grant serial name typeName openTime) := by
  have hnext : (t.byHandle.find? (t.last + 1)).map (·.serial) ≠ some serial := by
    simp [h.byHandle_next]
  rw [acquire, assign, hn]
  simp only
  rw [describe, if_neg hnext]
  rfl

theorem consistent_grant (h : t.Consistent) (hn : t.handle? serial = none)
    (name typeName : String) (openTime : Nat) :
    (t.grant serial name typeName openTime).Consistent where
  inverse := by
    intro s k
    simp only [grant, Slots.find?_put]
    have hk := h.inverse s k
    by_cases hs : s = serial
    · subst hs
      rw [handle?] at hn
      rw [hn] at hk
      by_cases hkl : k = t.last + 1
      · simp [hkl]
      · simpa [hkl, Ne.symm hkl] using hk
    · by_cases hkl : k = t.last + 1
      · -- the handle is new, so that no other recorder has it
        subst hkl
        rw [h.byHandle_next] at hk
        simpa [hs, Ne.symm hs] using hk
      · simpa [hs, hkl] using hk
  told := by
    intro k e
    simp only [grant, Slots.find?_put]
    split
    case isTrue hk =>
      rintro ⟨⟩
      exact hk.symm
    case isFalse => exact h.told k e
  handed := by
    intro k e
    simp only [grant, Slots.find?_put]
    split
    case isTrue hk => exact fun _ => ⟨by omega, by omega⟩
    case isFalse =>
      intro he
      have := h.handed k e he
      omega

/-- Of the recorder that got the handle this is told, and of the others what was told before. -/
theorem info?_grant (h : t.Consistent) (hn : t.handle? serial = none)
    (name typeName : String) (openTime s : Nat) :
    (t.grant serial name typeName openTime).info? s =
      if s = serial then some ⟨t.last + 1, name, typeName, openTime⟩ else t.info? s := by
  have hg := consistent_grant h hn name typeName openTime
  ext info
  rw [hg.info?_eq_some_iff]
  by_cases hs : s = serial
  · subst hs
    rw [if_pos rfl]
    simp only [grant, Slots.find?_put]
    split
    case isTrue => simp [eq_comm]
    case isFalse hk =>
      have hnone := h.info?_eq_none_iff.2 hn
      rw [← h.info?_eq_some_iff, hnone]
      simp only [reduceCtorEq, Option.some.injEq, false_iff]
      rintro rfl
      exact hk rfl
  · rw [if_neg hs, h.info?_eq_some_iff]
    simp only [grant, Slots.find?_put]
    split
    case isTrue hk =>
      rw [hk, h.byHandle_next]
      simp [Ne.symm hs]
    case isFalse => rfl

/-! ### Taking a handle back -/

/-- Both sides of a table lose the handle of the recorder. -/
theorem release_of_info? (h : t.Consistent) (hi : t.info? serial = some info) :
    t.release serial =
      { t with
        byRecorder := t.byRecorder.erase serial, byHandle := t.byHandle.erase info.handle } := by
  have he := h.info?_eq_some_iff.1 hi
  rw [release, h.handle?_of_info? hi]
  simp only
  rw [if_pos (by rw [he]; simp)]

theorem release_of_none (hn : t.handle? serial = none) : t.release serial = t := by
  rw [release, hn]

theorem last_release (t : HandleTable) (serial : Nat) : (t.release serial).last = t.last := by
  unfold release
  split
  · rfl
  · dsimp only
    split <;> rfl

theorem consistent_release (h : t.Consistent) (serial : Nat) : (t.release serial).Consistent := by
  cases hi : t.info? serial with
  | none => rwa [release_of_none (h.info?_eq_none_iff.1 hi)]
  | some info =>
    rw [release_of_info? h hi]
    refine ⟨fun s k => ?_, fun k e => ?_, fun k e => ?_⟩
    · simp only [Slots.find?_erase]
      have hk := h.inverse s k
      have hh := (h.inverse serial info.handle).1 (h.handle?_of_info? hi)
      by_cases hs : s = serial
      · subst hs
        by_cases hki : k = info.handle
        · simp [hki]
        · -- the recorder has no other handle
          rw [if_pos rfl, if_neg hki, ← hk]
          rw [← h.inverse] at hh
          rw [hh]
          simp [Ne.symm hki]
      · by_cases hki : k = info.handle
        · -- and its handle tells of no other recorder
          subst hki
          rw [if_neg hs, if_pos rfl, hk, hh]
          simp [Ne.symm hs]
        · rwa [if_neg hs, if_neg hki]
    · simp only [Slots.find?_erase]
      split
      · exact nofun
      · exact h.told k e
    · simp only [Slots.find?_erase]
      split
      · exact nofun
      · exact h.handed k e

/-- Of a recorder that is released nothing is told, and of the others what was told before. -/
theorem info?_release (h : t.Consistent) (serial s : Nat) :
    (t.release serial).info? s = if s = serial then none else t.info? s := by
  have hr := consistent_release h serial
  by_cases hs : s = serial
  · rw [if_pos hs, hs, hr.info?_eq_none_iff]
    exact handle?_release_self serial
  · rw [if_neg hs]
    cases hi : t.info? serial with
    | none => rw [release_of_none (h.info?_eq_none_iff.1 hi)]
    | some info =>
      ext info'
      rw [hr.info?_eq_some_iff, h.info?_eq_some_iff, release_of_info? h hi]
      simp only [Slots.find?_erase]
      split
      case isTrue heq =>
        rw [heq, h.info?_eq_some_iff.1 hi]
        simp [Ne.symm hs]
      case isFalse => rfl

end HandleTable

end FieldAutomation
