import FieldAutomation.Proofs.Stream.View

/-!
# Handing a stream over

A stream leaves a packer as bits, as bytes or as 32-bit words, and enters another packer the same
way.  It arrives as it was, with zeros behind it that fill up the last byte or word.

* `Transport`: the three ways, and `Transport.carry`, which takes one;
* `Transport.padding`: how many zeros a stream of a given size arrives with.

Main statements: `Transport.remaining_carry` and `Transport.padding_eq_zero_iff`.
-/

namespace FieldAutomation

namespace BitStore

variable (s : BitStore)

theorem bitsFrom_storeAll_of_le {unit pos count last : Nat} (values : List Nat)
    (h : pos + count ≤ last) :
    (Packer.storeAll unit values last s).bitsFrom pos count = s.bitsFrom pos count := by
  induction values generalizing last s with
  | nil => rfl
  | cons v rest ih => rw [Packer.storeAll, ih _ (by omega), bitsFrom_write_of_le _ _ _ h]

/-- Numbers written next to each other are their bits one after the other. -/
theorem bitsFrom_storeAll (unit pos : Nat) (values : List Nat) :
    (Packer.storeAll unit values pos s).bitsFrom pos (values.length * unit) =
      values.flatMap fun v => Bits.toList v unit := by
  induction values generalizing pos s with
  | nil => simp [bitsFrom]
  | cons v rest ih =>
    rw [List.length_cons, Nat.add_one_mul, Nat.add_comm, bitsFrom_add, List.flatMap_cons,
      Packer.storeAll, ih, bitsFrom_storeAll_of_le _ _ (Nat.le_refl _), bitsFrom_write_self]

/-- A part of a stream, filled up with zeros. -/
theorem toList_read_min (pos width unit : Nat) :
    Bits.toList (s.read pos (min width unit)) unit =
      (List.range unit).map fun j => decide (j < width) && s.get (pos + j) := by
  apply List.map_congr_left
  intro j hj
  have hj : j < unit := List.mem_range.1 hj
  rw [testBit_read, decide_eq_decide.2 (show j < min width unit ↔ j < width by omega)]

end BitStore

/-- Pieces of `unit` places each cover all places. -/
theorem flatMap_range_mul (f : Nat → Bool) (unit count : Nat) :
    ((List.range count).flatMap fun i => (List.range unit).map fun j => f (i * unit + j)) =
      (List.range (count * unit)).map f := by
  induction count with
  | zero => simp
  | succ count ih =>
    rw [List.range_succ, List.flatMap_append, ih, Nat.add_one_mul, List.range_add,
      List.map_append, List.map_map, List.flatMap_singleton]
    rfl

/-- How a stream is handed over. -/
inductive Transport where
  | bits
  | bytes
  | words
  deriving DecidableEq, Repr

namespace Transport

variable (t : Transport)

/-- The number of bits that are handed over together. -/
def unit : Transport → Nat
  | bits => 1
  | bytes => 8
  | words => 32

/-- Makes the stream of one packer that of another. -/
def carry (source target : Packer) : Packer :=
  match t with
  | bits => target.loadBits source.bitList
  | bytes => target.loadBytes source.bytes
  | words => target.loadWords source.words

/-- The number of zeros behind a stream of `size` bits. -/
def padding (size : Nat) : Nat := (size + t.unit - 1) / t.unit * t.unit - size

theorem unit_pos : 0 < t.unit := by
  cases t <;> decide

theorem add_padding (size : Nat) :
    size + t.padding size = (size + t.unit - 1) / t.unit * t.unit := by
  have h := Nat.lt_div_mul_add (a := size + t.unit - 1) t.unit_pos
  have := t.unit_pos
  unfold padding
  omega

/-- There are no zeros exactly behind a stream of whole units. -/
theorem padding_eq_zero_iff (size : Nat) : t.padding size = 0 ↔ t.unit ∣ size := by
  have ha := t.add_padding size
  have hp := t.unit_pos
  constructor
  · intro h
    rw [h, Nat.add_zero] at ha
    exact ⟨_, by rw [Nat.mul_comm]; exact ha⟩
  · rintro ⟨n, rfl⟩
    have hd : (t.unit * n + t.unit - 1) / t.unit = n := by
      rw [show t.unit * n + t.unit - 1 = t.unit - 1 + t.unit * n by omega,
        Nat.add_mul_div_left _ _ hp, Nat.div_eq_of_lt (by omega), Nat.zero_add]
    rw [hd, Nat.mul_comm n] at ha
    omega

/-- A transport changes the stream alone. -/
theorem carry_unchanged (p q : Packer) :
    t.carry p q =
      { q with store := (t.carry p q).store, size := (t.carry p q).size, cursor := 0 } := by
  cases t <;> rfl

end Transport

namespace Packer

variable {p q : Packer}

theorem streamOrder_streamOrder {α : Type} (h : q.settings.bigEndian = p.settings.bigEndian)
    (elements : List α) : q.streamOrder (p.streamOrder elements) = elements := by
  unfold streamOrder
  rw [h]
  split <;> simp

theorem length_chunks (p : Packer) (unit : Nat) :
    (p.chunks unit).length = (p.size + unit - 1) / unit := by
  unfold chunks streamOrder
  split <;> simp

/-- Chunks that are loaded are the stream and the zeros behind it. -/
theorem remaining_load_chunks {unit : Nat} (hu : 0 < unit)
    (h : q.settings.bigEndian = p.settings.bigEndian) :
    (q.load unit (p.chunks unit)).remaining =
      p.bitList ++ List.replicate ((p.size + unit - 1) / unit * unit - p.size) false := by
  have hle : p.size ≤ (p.size + unit - 1) / unit * unit := by
    have := Nat.lt_div_mul_add (a := p.size + unit - 1) hu
    omega
  simp only [remaining, available, load, length_chunks, Nat.sub_zero]
  rw [chunks, streamOrder_streamOrder h]
  have hs := BitStore.bitsFrom_storeAll q.store.clear unit 0
    ((List.range ((p.size + unit - 1) / unit)).map fun i =>
      p.store.read (i * unit) (min (p.size - i * unit) unit))
  rw [List.length_map, List.length_range] at hs
  rw [hs, List.flatMap_map]
  simp only [BitStore.toList_read_min]
  -- a place lies within the part of its chunk exactly if it lies within the stream
  have hf : ∀ i j, (decide (j < p.size - i * unit) && p.store.get (i * unit + j)) =
      (decide (i * unit + j < p.size) && p.store.get (i * unit + j)) := by
    intro i j
    rw [decide_eq_decide.2 (show j < p.size - i * unit ↔ i * unit + j < p.size by omega)]
  simp only [hf]
  rw [flatMap_range_mul fun k => decide (k < p.size) && p.store.get k]
  -- the places of the stream, and those behind it
  obtain ⟨pad, hpad⟩ := Nat.exists_eq_add_of_le hle
  rw [hpad, Nat.add_sub_cancel_left, List.range_add, List.map_append, List.map_map, bitList]
  congr 1
  · apply List.map_congr_left
    intro i hi
    simp [List.mem_range.1 hi]
  · rw [List.eq_replicate_iff]
    refine ⟨by simp, fun b hb => ?_⟩
    obtain ⟨i, -, rfl⟩ := List.mem_map.1 hb
    simp only [Function.comp, Nat.not_lt.2 (Nat.le_add_right p.size i), decide_false,
      Bool.false_and]

end Packer

namespace Transport

variable {p q : Packer}

theorem size_carry (t : Transport) (p q : Packer) :
    (t.carry p q).size = p.size + t.padding p.size := by
  rw [add_padding]
  cases t with
  | bits => simp [carry, Packer.loadBits, Packer.bitList, unit]
  | bytes => exact congrArg (· * 8) (p.length_chunks 8)
  | words => exact congrArg (· * 32) (p.length_chunks 32)

/-- A stream arrives as it was, with zeros behind it. -/
theorem remaining_carry (t : Transport) (h : q.settings.bigEndian = p.settings.bigEndian) :
    (t.carry p q).remaining = p.bitList ++ List.replicate (t.padding p.size) false := by
  cases t with
  | bits =>
    have hl := q.bitList_loadBits p.bitList
    simp only [Packer.bitList] at hl
    simpa [carry, padding, unit, Packer.remaining, Packer.available, BitStore.bitsFrom,
      Packer.bitList, Packer.loadBits] using! hl
  | bytes => exact Packer.remaining_load_chunks (by decide) h
  | words => exact Packer.remaining_load_chunks (by decide) h

end Transport

/-- What was committed is the stream as a whole. -/
theorem Packer.bitList_commit (p : Packer) : p.commit.bitList = p.written := by
  simp [bitList, commit, written, BitStore.bitsFrom]

end FieldAutomation
