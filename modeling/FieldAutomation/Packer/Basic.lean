import FieldAutomation.BitStore
import FieldAutomation.Scope
import FieldAutomation.Settings
import FieldAutomation.VisitSet

/-!
# The packer

A packer lays fields out one after the other in a bit stream, and reads them back in the same
order.  It counts the bits written or read so far, and the size of the stream once it is
committed.

* `PackError`: how the packer can be misused, with the wording of each case;
* `Packer`: the state, with `Packer.reset`, `Packer.commit` and `Packer.fail`;
* `Packer.bitList`, `Packer.chunks`, `Packer.number`: the committed stream as bits, bytes, words,
  or one number;
* `Packer.load`, `Packer.loadBits`: the other way round.

Main statements: `Packer.get_loadBits`, `Packer.bitList_loadBits`.
-/

namespace FieldAutomation

/-- How the packer can be misused. -/
inductive PackError where
  /-- A single field is too wide. -/
  | fieldTooWide (size limit : Nat) (operation : String)
  /-- More bits are asked of an array than it has. -/
  | sizeExceedsCapacity (size capacity : Nat) (operation : String)
  /-- The stream is too short. -/
  | notEnoughBits (needed available : Nat) (what : String)
  /-- The stream holds an object and there is none to unpack it into. -/
  | nullObject
  /-- Part of the stream was left over. -/
  | incompleteUnpack (unpacked total : Nat)
  deriving DecidableEq, Repr

namespace PackError

/-- What is wrong, in words. -/
def message : PackError → String
  | fieldTooWide size limit operation =>
    s!"field of {size} bits exceeds the {limit}-bit limit for {operation}"
  | sizeExceedsCapacity size capacity operation =>
    s!"{operation} called with size '{size}', which exceeds the array capacity ({capacity})"
  | notEnoughBits needed available what =>
    s!"{needed} bits needed to unpack {what}, yet only {available} available."
  | nullObject => "cannot unpack into null object"
  | incompleteUnpack unpacked total =>
    s!"Unpack operation unsuccessful: unpacked {unpacked} bits from a total of {total} bits"

/-- The id of the report about it. -/
def reportId : PackError → String
  | fieldTooWide .. | notEnoughBits .. => "PCKSZ"
  | sizeExceedsCapacity .. => "UVM/BASE/PACKER/BAD_SIZE"
  | nullObject => "UNPOBJ"
  | incompleteUnpack .. => "BDUNPK"

end PackError

/-- What a probe field notes about a packer that passes it. -/
inductive PackNote where
  | packing (path : String) (cursor visits : Nat)
  | unpacking (path : String) (cursor visits : Nat) (atNull : Bool)
  deriving DecidableEq, Repr

/-- A packer. -/
structure Packer where
  settings : PackerSettings := {}
  store : BitStore := .empty
  /-- Bits written since the last commit, or read since. -/
  cursor : Nat := 0
  /-- Size of the committed stream. -/
  size : Nat := 0
  scope : Scope := {}
  visits : VisitSet := {}
  reporter : Reporter := {}
  /-- Misuses since the last reset, oldest first. -/
  errors : List PackError := []
  /-- Notes of probe fields, oldest first. -/
  notes : List PackNote := []
  deriving Inhabited

namespace Packer

/-- A packer as the settings say. -/
def ofSettings (settings : Settings) : Packer where
  settings := settings.packer
  reporter := { maxVerbosity := settings.report.maxVerbosity }

variable (p : Packer)

/-- Empties the stream, the path and the list of misuses. -/
def reset : Packer :=
  { p with store := p.store.clear, cursor := 0, size := 0, scope := p.scope.clear, errors := [] }

/-- Makes what was written so far the stream, and goes back to its start. -/
def commit : Packer := { p with size := p.cursor, cursor := 0 }

/-- Notes and reports a misuse. -/
def fail (e : PackError) : Packer :=
  { p with reporter := p.reporter.error e.reportId e.message, errors := p.errors ++ [e] }

/-- The bits of the stream that are still to be read. -/
def available : Nat := p.size - p.cursor

/-- The misuse of reading `needed` bits, if they are not there. -/
def shortage? (needed : Nat) (what : String) : Option PackError :=
  if p.available < needed then some (.notEnoughBits needed p.available what) else none

/-- Whether `needed` bits can still be read; notes and reports it when not. -/
def enoughBits (needed : Nat) (what : String) : Bool × Packer :=
  match p.shortage? needed what with
  | some e => (false, p.fail e)
  | none => (true, p)

/-! ### The stream as a whole -/

/-- The stream bit by bit. -/
def bitList : List Bool := (List.range p.size).map p.store.get

/-- The stream as one number, its first bit least significant. -/
def number : Nat := p.store.read 0 p.size

/-- Elements in the order in which they enter and leave the stream: from the last one on when the
packer is big-endian. -/
def streamOrder {α : Type} (elements : List α) : List α :=
  if p.settings.bigEndian then elements.reverse else elements

/-- The stream as numbers of `unit` bits, the last one in the stream being what is left. -/
def chunks (unit : Nat) : List Nat :=
  p.streamOrder <| (List.range ((p.size + unit - 1) / unit)).map fun i =>
    p.store.read (i * unit) (min (p.size - i * unit) unit)

/-- The stream as bytes. -/
def bytes : List Nat := p.chunks 8

/-- The stream as 32-bit words. -/
def words : List Nat := p.chunks 32

/-- Writes numbers of `unit` bits next to each other, from position `pos` on. -/
def storeAll (unit : Nat) : List Nat → Nat → BitStore → BitStore
  | [], _, s => s
  | v :: rest, pos, s => storeAll unit rest (pos + unit) (s.write pos v unit)

/-- Makes numbers of `unit` bits the stream. -/
def load (unit : Nat) (chunks : List Nat) : Packer :=
  { p with
    store := storeAll unit (p.streamOrder chunks) 0 p.store.clear
    size := chunks.length * unit
    cursor := 0 }

/-- Makes bytes the stream. -/
def loadBytes (bytes : List Nat) : Packer := p.load 8 bytes

/-- Makes 32-bit words the stream. -/
def loadWords (words : List Nat) : Packer := p.load 32 words

/-- Makes bits the stream. -/
def loadBits (bits : List Bool) : Packer :=
  { p with
    store := storeAll 1 (bits.map Bool.toNat) 0 p.store.clear
    size := bits.length
    cursor := 0 }

/-! ### Bits that were loaded -/

theorem get_storeAll_bits (bits : List Bool) (pos i : Nat) (s : BitStore) :
    (storeAll 1 (bits.map Bool.toNat) pos s).get i =
      if pos ≤ i ∧ i < pos + bits.length then bits[i - pos]?.getD false else s.get i := by
  induction bits generalizing pos s with
  | nil =>
    simp only [List.map_nil, storeAll, List.length_nil]
    rw [if_neg (by omega)]
  | cons b rest ih =>
    simp only [List.map_cons, storeAll, ih, List.length_cons]
    by_cases hi : i = pos
    · subst hi
      rw [if_neg (by omega), if_pos (by omega)]
      have h := BitStore.get_set s i b i
      rw [if_pos rfl] at h
      simpa [BitStore.set] using h
    · have hset : (s.write pos b.toNat 1).get i = s.get i := by
        have h := BitStore.get_set s pos b i
        rwa [if_neg hi] at h
      rw [hset]
      by_cases hr : pos + 1 ≤ i ∧ i < pos + 1 + rest.length
      · rw [if_pos hr, if_pos (by omega)]
        obtain ⟨k, hk⟩ : ∃ k, i - pos = k + 1 := ⟨i - pos - 1, by omega⟩
        have hk' : i - (pos + 1) = k := by omega
        rw [hk, hk', List.getElem?_cons_succ]
      · rw [if_neg hr, if_neg (by omega)]

/-- The bits of a stream are those that were loaded. -/
theorem get_loadBits (bits : List Bool) (i : Nat) :
    (p.loadBits bits).store.get i = bits[i]?.getD false := by
  simp only [loadBits, get_storeAll_bits, Nat.zero_le, Nat.zero_add, true_and, Nat.sub_zero,
    BitStore.get_clear]
  split
  · rfl
  · rw [List.getElem?_eq_none (by omega)]
    rfl

/-- Bits that were loaded are given back. -/
theorem bitList_loadBits (bits : List Bool) : (p.loadBits bits).bitList = bits := by
  apply List.ext_getElem
  · simp [bitList, loadBits]
  · intro i _ hi
    have h := p.get_loadBits bits i
    simp only [bitList, List.getElem_map, List.getElem_range]
    rw [h, List.getElem?_eq_getElem hi]
    rfl

end Packer

end FieldAutomation
