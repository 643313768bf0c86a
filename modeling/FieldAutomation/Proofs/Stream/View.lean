import FieldAutomation.Packer.Fields

/-!
# The stream as a list of bits

Laws about streams are stated on lists of bits: a packer that packs has *written* some bits, one
that unpacks has some *remaining*.  The two lists hide positions and words of storage.

* `Bits.toList`: the low bits of a number, least significant first;
* `BitStore.bitsFrom`: the bits of a range of positions;
* `Packer.written`, `Packer.remaining`, and `Packer.advance`, which moves the cursor on.

Main statements: `Packer.written_put` (writing at the cursor appends) and
`Packer.read_of_remaining`, `Packer.remaining_advance` (reading at the cursor takes from the
front).
-/

namespace FieldAutomation

namespace Bits

/-- The low `width` bits of `v`, least significant first. -/
def toList (v width : Nat) : List Bool := (List.range width).map v.testBit

@[simp] theorem length_toList (v width : Nat) : (toList v width).length = width := by
  simp [toList]

@[simp] theorem toList_zero (v : Nat) : toList v 0 = [] := rfl

@[simp] theorem getElem_toList {v width j : Nat} (h : j < (toList v width).length) :
    (toList v width)[j] = v.testBit j := by
  simp [toList]

theorem toList_zero_left (width : Nat) : toList 0 width = List.replicate width false := by
  apply List.ext_getElem <;> simp

theorem toList_add (v m n : Nat) : toList v (m + n) = toList v m ++ toList (v >>> m) n := by
  simp only [toList, List.range_add, List.map_append, List.map_map]
  congr 1
  apply List.map_congr_left
  intro j _
  simp

/-- The bits of a number in the opposite order. -/
theorem toList_reverse (v width : Nat) :
    toList (reverse v width) width = (toList v width).reverse := by
  apply List.ext_getElem
  · simp
  · intro j hj _
    have hj' : j < width := by simpa using hj
    simp [testBit_reverse, hj']

/-- The bits determine the low part of a number. -/
theorem truncate_eq_of_toList_eq {u v width : Nat} (h : toList u width = toList v width) :
    truncate u width = truncate v width := by
  apply Nat.eq_of_testBit_eq
  intro j
  rw [testBit_truncate, testBit_truncate]
  -- a bit below the width is an entry of the two lists, any other is cut off
  by_cases hj : j < width
  · have hu : j < (toList u width).length := by simpa using hj
    have hv : j < (toList v width).length := by simpa using hj
    have hg : (toList u width)[j] = (toList v width)[j] := by
      simp only [h]
    simpa [hj] using hg
  · simp [hj]

end Bits

namespace BitStore

variable (s : BitStore)

/-- The bits of `count` positions from `pos` on. -/
def bitsFrom (pos count : Nat) : List Bool := (List.range count).map fun j => s.get (pos + j)

@[simp] theorem length_bitsFrom (pos count : Nat) : (s.bitsFrom pos count).length = count := by
  simp [bitsFrom]

theorem bitsFrom_add (pos m n : Nat) :
    s.bitsFrom pos (m + n) = s.bitsFrom pos m ++ s.bitsFrom (pos + m) n := by
  simp only [bitsFrom, List.range_add, List.map_append, List.map_map]
  congr 1
  apply List.map_congr_left
  intro j _
  simp [Nat.add_assoc]

theorem bitsFrom_write_self (pos v width : Nat) :
    (s.write pos v width).bitsFrom pos width = Bits.toList v width := by
  apply List.map_congr_left
  intro j hj
  have : j < width := List.mem_range.1 hj
  rw [get_write, if_pos (by omega), Nat.add_sub_cancel_left]

/-- A write leaves the bits before it as they are. -/
theorem bitsFrom_write_of_le {pos count last : Nat} (v width : Nat) (h : pos + count ≤ last) :
    (s.write last v width).bitsFrom pos count = s.bitsFrom pos count := by
  apply List.map_congr_left
  intro j hj
  have : j < count := List.mem_range.1 hj
  rw [get_write, if_neg (by omega)]

theorem toList_read (pos width : Nat) :
    Bits.toList (s.read pos width) width = s.bitsFrom pos width := by
  apply List.map_congr_left
  intro j hj
  simp [testBit_read, List.mem_range.1 hj]

end BitStore

namespace Packer

variable (p : Packer)

/-- The bits that were written so far. -/
def written : List Bool := p.store.bitsFrom 0 p.cursor

/-- The bits of the stream that are still to be read. -/
def remaining : List Bool := p.store.bitsFrom p.cursor p.available

/-- Moves the cursor on by `count` bits. -/
def advance (count : Nat) : Packer := { p with cursor := p.cursor + count }

/-- Writes the low `width` bits of `v` as they are at the cursor. -/
def put (v width : Nat) : Packer :=
  { p with store := p.store.write p.cursor v width, cursor := p.cursor + width }

@[simp] theorem length_written : p.written.length = p.cursor := by
  simp [written]

@[simp] theorem length_remaining : p.remaining.length = p.available := by
  simp [remaining]

@[simp] theorem settings_advance (count : Nat) : (p.advance count).settings = p.settings := rfl

@[simp] theorem advance_zero : p.advance 0 = p := rfl

@[simp] theorem advance_advance (m n : Nat) : (p.advance m).advance n = p.advance (m + n) := by
  simp [advance, Nat.add_assoc]

theorem writeField_eq_put (v size : Nat) : p.writeField v size = p.put (p.ordered v size) size :=
  rfl

/-- Writing at the cursor appends. -/
theorem written_put (v width : Nat) :
    (p.put v width).written = p.written ++ Bits.toList v width := by
  simp only [written, put, BitStore.bitsFrom_add, Nat.zero_add]
  rw [BitStore.bitsFrom_write_of_le _ _ _ (by omega), BitStore.bitsFrom_write_self]

theorem written_reset : p.reset.written = [] := rfl

/-- What was written becomes the stream. -/
theorem remaining_commit : p.commit.remaining = p.written := by
  simp [remaining, commit, written, available]

variable {p}

theorem length_le_available {bits rest : List Bool} (h : p.remaining = bits ++ rest) :
    bits.length ≤ p.available := by
  rw [← p.length_remaining, h, List.length_append]
  omega

/-- Bits that are there can be read. -/
theorem shortage?_eq_none {bits rest : List Bool} (h : p.remaining = bits ++ rest) (what : String) :
    p.shortage? bits.length what = none := by
  rw [shortage?, if_neg]
  exact Nat.not_lt.2 (length_le_available h)

/-- The bits at the cursor are the first that remain. -/
theorem bitsFrom_cursor {bits rest : List Bool} (h : p.remaining = bits ++ rest) :
    p.store.bitsFrom p.cursor bits.length = bits ∧
      p.store.bitsFrom (p.cursor + bits.length) (p.available - bits.length) = rest := by
  have hle := length_le_available h
  -- cut the rest of the stream where `bits` end
  rw [remaining, show p.available = bits.length + (p.available - bits.length) by omega,
    BitStore.bitsFrom_add] at h
  exact List.append_inj h (by simp)

/-- A number is read from the front of what remains. -/
theorem read_of_remaining {v width : Nat} {rest : List Bool}
    (h : p.remaining = Bits.toList v width ++ rest) :
    p.store.read p.cursor width = Bits.truncate v width := by
  have hb := (bitsFrom_cursor h).1
  rw [Bits.length_toList, ← BitStore.toList_read] at hb
  rw [← Bits.truncate_eq_of_toList_eq hb, Bits.truncate_of_lt (BitStore.read_lt ..)]

/-- Moving the cursor on drops bits from the front of what remains. -/
theorem remaining_advance {bits rest : List Bool} (h : p.remaining = bits ++ rest) :
    (p.advance bits.length).remaining = rest := by
  rw [← (bitsFrom_cursor h).2]
  simp [remaining, advance, available, Nat.sub_add_eq]

end Packer

end FieldAutomation
