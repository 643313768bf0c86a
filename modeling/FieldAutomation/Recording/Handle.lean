import FieldAutomation.Slots

/-!
# Handles of recorders

A recorder that is open or closed has a handle, by which it can be looked up.  Handles are numbers
from 1 on; 0 is no handle.  A recorder gets its handle when it is first asked for it, and keeps it
until it is released.

* `RecorderInfo`: what a handle tells about its recorder;
* `HandleTable`: the handles in use, found by recorder and by handle;
* `HandleTable.acquire`: the handle of a recorder, which is handed out if it has none;
* `HandleTable.release`: takes a handle back.

Main statements: `HandleTable.handle?_acquire_self`, `HandleTable.handle?_release_self`.
-/

namespace FieldAutomation

/-- What a handle tells about its recorder. -/
structure RecorderInfo where
  handle : Nat
  name : String
  typeName : String
  openTime : Nat
  deriving DecidableEq, Repr

/-- A handle in use. -/
structure HandleEntry where
  /-- The recorder that has it. -/
  serial : Nat
  info : RecorderInfo
  deriving DecidableEq, Repr

/-- The handles in use. -/
structure HandleTable where
  /-- The handle that was handed out last. -/
  last : Nat := 0
  /-- The handle of each recorder that has one. -/
  byRecorder : Slots Nat := {}
  /-- The recorder behind each handle. -/
  byHandle : Slots HandleEntry := {}
  deriving DecidableEq, Repr, Inhabited

namespace HandleTable

variable (t : HandleTable)

/-- The handle of a recorder. -/
def handle? (serial : Nat) : Option Nat := t.byRecorder.find? serial

/-- The recorder with a handle. -/
def find? (handle : Nat) : Option RecorderInfo := (t.byHandle.find? handle).map (·.info)

/-- The handle of a recorder, the next one if it has none. -/
def assign (serial : Nat) : Nat × HandleTable :=
  match t.handle? serial with
  | some handle => (handle, t)
  | none =>
    (t.last + 1,
      { t with last := t.last + 1, byRecorder := t.byRecorder.put serial (t.last + 1) })

/-- Makes a handle tell of a recorder, unless it is that recorder which it tells of. -/
def describe (serial handle : Nat) (name typeName : String) (openTime : Nat) : HandleTable :=
  if (t.byHandle.find? handle).map (·.serial) = some serial then t
  else { t with byHandle := t.byHandle.put handle ⟨serial, ⟨handle, name, typeName, openTime⟩⟩ }

/-- The handle of a recorder, which is handed out if it has none. -/
def acquire (serial : Nat) (name typeName : String) (openTime : Nat) : Nat × HandleTable :=
  let (handle, t) := t.assign serial
  (handle, t.describe serial handle name typeName openTime)

/-- Takes the handle of a recorder back. -/
def release (serial : Nat) : HandleTable :=
  match t.handle? serial with
  | none => t
  | some handle =>
    let byRecorder := t.byRecorder.erase serial
    if (t.byHandle.find? handle).any (·.serial = serial) then
      { t with byRecorder, byHandle := t.byHandle.erase handle }
    else { t with byRecorder }

variable {t}

/-- A recorder has the handle that it was told. -/
theorem handle?_acquire_self (serial : Nat) (name typeName : String) (openTime : Nat) :
    (t.acquire serial name typeName openTime).2.handle? serial =
      some (t.acquire serial name typeName openTime).1 := by
  have hd : ∀ (u : HandleTable) (handle : Nat),
      (u.describe serial handle name typeName openTime).handle? serial = u.handle? serial := by
    intro u handle
    unfold describe
    split <;> rfl
  rw [acquire, hd]
  unfold assign
  split
  next h => exact h
  next => simp [handle?]

theorem handle?_release_self (serial : Nat) : (t.release serial).handle? serial = none := by
  unfold release
  split
  next h => exact h
  next => split <;> exact Slots.find?_erase_self ..

end HandleTable

end FieldAutomation
