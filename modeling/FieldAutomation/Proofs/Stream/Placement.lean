import Mathlib.Data.Nat.Digits.Defs
import FieldAutomation.Proofs.Stream.View

/-!
# Where the bits of a field stand

The list of bits that a field becomes says in which order they come.  Here they are given position
by position: what a packer does to each bit of its stream, and which number a range of positions
holds.

* `PackerSettings.FieldAt`: a range of positions holds a number in the order of the settings;
* `Packer.LaysOut`: a packer after laying out one number at the cursor, and otherwise unchanged;
* `Packer.Reads`: what comes of reading one number at the cursor.

Main statement: `Packer.field_layout` (every way of packing a number lays it out in the same way,
every way of unpacking reads just what is laid out like that, and a string is one such number).
-/

namespace FieldAutomation

/-- From position `pos` on stands the number `v` of `size` bits: its lowest bit first, or last when
big-endian. -/
def PackerSettings.FieldAt (s : PackerSettings) (b : BitStore) (pos v size : Nat) : Prop :=
  ∀ j < size, b.get (pos + j) = v.testBit (if s.bigEndian then size - 1 - j else j)

namespace Packer

/-- `q` is `p` after laying out the low `size` bits of `v` at the cursor. -/
structure LaysOut (p q : Packer) (v size : Nat) : Prop where
  field : p.settings.FieldAt q.store p.cursor v size
  others : ∀ i, i < p.cursor ∨ p.cursor + size ≤ i → q.store.get i = p.store.get i
  rest : q = { p with store := q.store, cursor := p.cursor + size }

/-- `r` is what comes of reading `size` bits at the cursor: the one number that stands there. -/
structure Reads (p : Packer) (size : Nat) (r : Nat × Packer) : Prop where
  value : ∀ v, r.1 = v ↔ v < 2 ^ size ∧ p.settings.FieldAt p.store p.cursor v size
  rest : r.2 = p.advance size

variable (p : Packer)

/-! ### Writing -/

theorem laysOut_writeField (v size : Nat) : p.LaysOut (p.writeField v size) v size where
  field j hj := by
    have hin : p.cursor ≤ p.cursor + j ∧ p.cursor + j < p.cursor + size := by omega
    rw [writeField, BitStore.get_write, if_pos hin, Nat.add_sub_cancel_left,
      p.testBit_ordered v size j hj]
  others i hi := by
    have hout : ¬ (p.cursor ≤ i ∧ i < p.cursor + size) := by omega
    rw [writeField, BitStore.get_write, if_neg hout]
  rest := rfl

theorem laysOut_packInt (v : Nat) {size : Nat} (h : size ≤ 64) :
    p.LaysOut (p.packInt v size) v size := by
  rw [packInt, if_neg (by omega)]
  exact p.laysOut_writeField v size

theorem laysOut_packWide (v : Nat) {size : Nat} (h : size ≤ maxFieldBits) :
    p.LaysOut (p.packWide v size) v size := by
  rw [packWide_eq, if_neg (by omega : ¬ maxFieldBits < size)]
  split
  next h64 => exact p.laysOut_packInt v h64
  next => exact p.laysOut_writeField v size

/-- The bytes of a string are the digits of the number that it is packed as. -/
theorem ofBytes_eq_ofDigits (bytes : List Nat) :
    ofBytes bytes = Nat.ofDigits 256 bytes.reverse := by
  rw [Nat.ofDigits_eq_foldr, List.foldr_reverse, ofBytes]
  congr 1
  funext v b
  exact Nat.add_comm ..

/-! ### Reading -/

/-- What is read stands there, and no other number does. -/
theorem reads_readField (size : Nat) : p.Reads size (p.readField size) where
  rest := rfl
  value v := by
    have hbit := p.testBit_ordered_read p.store p.cursor size
    constructor
    · rintro rfl
      refine ⟨Nat.lt_pow_two_of_testBit _ fun j hj => ?_, fun j hj => ?_⟩
      · simp [readField, hbit, Nat.not_lt.2 hj]
      · -- reversing twice leads back to the position
        simp only [readField, hbit]
        grind
    · rintro ⟨hlt, hfield⟩
      refine Nat.eq_of_testBit_eq fun j => ?_
      rw [readField, hbit]
      by_cases hj : j < size
      · have hpos : (if p.settings.bigEndian then size - 1 - j else j) < size := by split <;> omega
        rw [hfield _ hpos]
        grind
      · rw [Nat.testBit_lt_two_pow
          (Nat.lt_of_lt_of_le hlt (Nat.pow_le_pow_right (by decide) (by omega)))]
        simp [hj]

theorem reads_unpackInt {size : Nat} (h : size ≤ 64) (hav : size ≤ p.available) :
    p.Reads size (p.unpackInt size) := by
  have hs : p.shortage? size "integral" = none := if_neg (by omega)
  rw [unpackInt, if_neg (by omega), hs]
  exact p.reads_readField size

theorem reads_unpackWide {size : Nat} (h : size ≤ maxFieldBits) (hav : size ≤ p.available) :
    p.Reads size (p.unpackWide size) := by
  have hs : p.shortage? size "integral" = none := if_neg (by omega)
  rw [unpackWide, if_neg (by omega : ¬ maxFieldBits < size), hs]
  split
  next h64 => exact p.reads_unpackInt h64 hav
  next =>
    rw [readWide_eq_readField]
    exact p.reads_readField size

/-! ### All fields -/

/-- A number of given width has one layout, wherever the cursor stands and whichever way it is
packed: 64 bits at once or chunk by chunk, as a field that is at most 64 bits wide or as a wider
one.  What is unpacked at the cursor is just the number that is laid out there.  A string is the
number of its bytes, however many there are, and a zero byte if metadata is used. -/
theorem field_layout (p : Packer) :
    (∀ v size, p.LaysOut (p.writeField v size) v size ∧ p.writeWide v size = p.writeField v size) ∧
    (∀ v size, size ≤ 64 →
      p.LaysOut (p.packInt v size) v size ∧ p.packWide v size = p.packInt (v % 2 ^ 64) size) ∧
    (∀ v size, size ≤ maxFieldBits → p.LaysOut (p.packWide v size) v size) ∧
    (∀ size, size ≤ p.available →
      (size ≤ 64 → p.Reads size (p.unpackInt size)) ∧
      (size ≤ maxFieldBits → p.Reads size (p.unpackWide size))) ∧
    ∀ text, ∃ q,
      p.LaysOut q (Nat.ofDigits 256 (Utf8.encode text).reverse) (8 * (Utf8.encode text).length) ∧
      if p.settings.useMetadata then q.LaysOut (p.packString text) 0 8
      else p.packString text = q := by
  refine ⟨fun v size => ⟨p.laysOut_writeField v size, p.writeWide_eq_writeField v size⟩,
    fun v size h => ⟨p.laysOut_packInt v h, ?_⟩, fun v size => p.laysOut_packWide v,
    fun size hav => ⟨fun h => p.reads_unpackInt h hav, fun h => p.reads_unpackWide h hav⟩,
    fun text => ⟨_, p.laysOut_writeField _ _, ?_⟩⟩
  · rw [packWide, if_pos h, Bits.truncate_eq_mod]
  · simp only [packString_eq, ofBytes_eq_ofDigits, settings_writeField]
    split
    next => exact laysOut_writeField ..
    next => rfl

/-- A number of 70 bits behind three others, the highest bit first, and the number that is found
there afterwards. -/
theorem field_layout_seventy :
    let p : Packer := { cursor := 3, settings.bigEndian := true }
    let q := p.packWide (2 ^ 69 + 5) 70
    let r : Packer := { q with cursor := 3, size := 73 }
    70 ≤ maxFieldBits ∧ p.LaysOut q (2 ^ 69 + 5) 70 ∧ 70 ≤ r.available ∧
      (r.unpackWide 70).1 = 2 ^ 69 + 5 := by
  intro p q r
  have hq := (field_layout p).2.2.1 (2 ^ 69 + 5) 70 (by decide)
  have hr := ((field_layout r).2.2.2.1 70 (by decide)).2 (by decide)
  exact ⟨by decide, hq, by decide, (hr.value _).2 ⟨by decide, hq.field⟩⟩

end Packer

end FieldAutomation
