import FieldAutomation.Bits

/-!
# A growable store of bits

`BitStore` maps positions to bits.  Storage is handed out in whole words of 64 bits and never
taken back; a position without storage reads as zero.

* `BitStore.get`: the bit at a position;
* `BitStore.read`: the number held by a range of positions, least significant bit first;
* `BitStore.write`: replaces a range by the low bits of a value;
* `BitStore.clear`: zeroes every bit and keeps the storage.

Main statements: `BitStore.get_write` (a write changes its range and nothing else),
`BitStore.testBit_read` (a read returns exactly the bits of its range), and
`BitStore.capacity_write` (how far a write grows the store).
-/

namespace FieldAutomation

-- Powers are those of the core library, whatever else is in scope.
attribute [local instance (high)] instPowNat

/-- A growable store of bits: bit `i` of `bits` is the bit at position `i`. -/
structure BitStore where
  /-- All bits as one number. -/
  bits : Nat
  /-- Number of 64-bit words with storage. -/
  words : Nat
  /-- Only positions with storage hold a one. -/
  bits_lt : bits < 2 ^ (64 * words)
  deriving DecidableEq

namespace BitStore

/-- A new store has no storage. -/
def empty : BitStore := ⟨0, 0, by decide⟩

instance : Inhabited BitStore := ⟨empty⟩

/-- Number of positions with storage. -/
def capacity (s : BitStore) : Nat := 64 * s.words

/-- The bit at position `pos`. -/
def get (s : BitStore) (pos : Nat) : Bool := s.bits.testBit pos

/-- The `width` bits from position `pos` on, the first one least significant. -/
def read (s : BitStore) (pos width : Nat) : Nat := Bits.truncate (s.bits >>> pos) width

/-- `bits` with the `width` bits from `pos` on replaced by the low bits of `v`. -/
def splice (bits pos v width : Nat) : Nat :=
  bits ^^^ (Bits.truncate ((bits >>> pos) ^^^ v) width <<< pos)

theorem testBit_splice (bits pos v width i : Nat) :
    (splice bits pos v width).testBit i =
      if pos ≤ i ∧ i < pos + width then v.testBit (i - pos) else bits.testBit i := by
  simp only [splice, Nat.testBit_xor, Nat.testBit_shiftLeft, Bits.testBit_truncate,
    Nat.testBit_shiftRight]
  by_cases hp : pos ≤ i
  · by_cases hw : i < pos + width
    · have h1 : i - pos < width := by omega
      have h2 : pos + (i - pos) = i := by omega
      simp [hp, hw, h1, h2]
    · have h1 : ¬ i - pos < width := by omega
      simp [hw, h1]
  · simp [hp]

/-- Words that positions below `last` need. -/
def wordsFor (last : Nat) : Nat := (last + 63) / 64

theorem splice_lt {s : BitStore} {pos v width : Nat} :
    splice s.bits pos v width < 2 ^ (64 * max s.words (wordsFor (pos + width))) := by
  apply Nat.lt_pow_two_of_testBit
  intro i hi
  rw [testBit_splice]
  have hw : ¬ (pos ≤ i ∧ i < pos + width) := by
    unfold wordsFor at hi
    omega
  rw [if_neg hw]
  apply Nat.testBit_lt_two_pow
  refine Nat.lt_of_lt_of_le s.bits_lt (Nat.pow_le_pow_right (by decide) ?_)
  omega

/-- Replaces the `width` bits from position `pos` on by the low bits of `v`, after adding the
storage they need.  A write of no bits does nothing. -/
def write (s : BitStore) (pos v width : Nat) : BitStore :=
  if width = 0 then s
  else ⟨splice s.bits pos v width, max s.words (wordsFor (pos + width)), splice_lt⟩

/-- Sets the bit at position `pos`. -/
def set (s : BitStore) (pos : Nat) (b : Bool) : BitStore := s.write pos b.toNat 1

/-- Zeroes every bit and keeps the storage. -/
def clear (s : BitStore) : BitStore := ⟨0, s.words, Nat.two_pow_pos _⟩

/-! ### The bits of a store -/

@[simp] theorem get_empty (i : Nat) : empty.get i = false := by
  simp [empty, get]

@[simp] theorem get_clear (s : BitStore) (i : Nat) : s.clear.get i = false := by
  simp [clear, get]

/-- A position without storage reads as zero. -/
theorem get_of_capacity_le {s : BitStore} {i : Nat} (h : s.capacity ≤ i) : s.get i = false :=
  Nat.testBit_lt_two_pow
    (Nat.lt_of_lt_of_le s.bits_lt (Nat.pow_le_pow_right (by decide) h))

/-- A write changes its range and nothing else. -/
theorem get_write (s : BitStore) (pos v width i : Nat) :
    (s.write pos v width).get i =
      if pos ≤ i ∧ i < pos + width then v.testBit (i - pos) else s.get i := by
  unfold write
  split
  case isTrue h => rw [if_neg (by omega)]
  case isFalse => exact testBit_splice ..

theorem get_set (s : BitStore) (pos : Nat) (b : Bool) (i : Nat) :
    (s.set pos b).get i = if i = pos then b else s.get i := by
  rw [set, get_write]
  by_cases h : i = pos
  · subst h
    cases b <;> simp
  · rw [if_neg (by omega), if_neg h]

/-- A read returns exactly the bits of its range. -/
theorem testBit_read (s : BitStore) (pos width j : Nat) :
    (s.read pos width).testBit j = (decide (j < width) && s.get (pos + j)) := by
  simp [read, Bits.testBit_truncate, get]

@[simp] theorem read_zero (s : BitStore) (pos : Nat) : s.read pos 0 = 0 := by
  simp [read]

theorem read_lt (s : BitStore) (pos width : Nat) : s.read pos width < 2 ^ width :=
  Bits.truncate_lt ..

/-- Reading a range just written returns the low bits of the value. -/
theorem read_write_self (s : BitStore) (pos v width : Nat) :
    (s.write pos v width).read pos width = Bits.truncate v width := by
  apply Nat.eq_of_testBit_eq
  intro j
  rw [testBit_read, get_write, Bits.testBit_truncate]
  by_cases h : j < width <;> simp [h]

/-! ### Storage -/

theorem words_write (b : BitStore) (pos v width : Nat) :
    (b.write pos v width).words =
      if width = 0 then b.words else max b.words (wordsFor (pos + width)) := by
  unfold write
  split <;> rfl

/-- Stores with the same bits and as much storage are the same. -/
theorem ext_of_get {b c : BitStore} (hw : b.words = c.words) (hg : ∀ i, b.get i = c.get i) :
    b = c := by
  obtain ⟨bits, words, hlt⟩ := b
  obtain ⟨bits', words', hlt'⟩ := c
  obtain rfl : words = words' := hw
  obtain rfl : bits = bits' := Nat.eq_of_testBit_eq hg
  rfl

@[simp] theorem capacity_empty : empty.capacity = 0 := rfl

@[simp] theorem capacity_clear (s : BitStore) : s.clear.capacity = s.capacity := rfl

/-- A write of at least one bit grows the store to the next word boundary past its range. -/
theorem capacity_write (s : BitStore) (pos v : Nat) {width : Nat} (h : 0 < width) :
    (s.write pos v width).capacity = max s.capacity (64 * ((pos + width + 63) / 64)) := by
  have : width ≠ 0 := by omega
  simp only [write, if_neg this, capacity, wordsFor]
  omega

end BitStore

end FieldAutomation
