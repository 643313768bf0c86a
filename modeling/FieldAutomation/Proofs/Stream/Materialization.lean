import FieldAutomation.Proofs.Stream.Transport
import Mathlib.Algebra.BigOperators.Group.Finset.Basic
import Mathlib.Data.Nat.Digits.Lemmas

/-!
# The forms of a stream

A stream is one number, and its bits, bytes and 32-bit words are the digits of that number in
three bases.  Loading digits makes the number that they write the stream, with nothing behind it,
whatever the packer held before.

* `IsDigits`: a list of digits of a given length writes a number;
* `Packer.FilledUp`: a packer that holds the stream of another one, with zeros behind it.

Main statements: `BitStore.ofDigits_chunks` (pieces of a range are the digits of the number that
it holds), `BitStore.get_storeAll` (digits that are written next to each other, bit by bit) and
`Packer.forms_agree`.
-/

namespace FieldAutomation

/-- `digits` are the `count` digits of `v` in a base, least significant first. -/
structure IsDigits (base count v : Nat) (digits : List Nat) : Prop where
  length : digits.length = count
  lt : ∀ d ∈ digits, d < base
  value : Nat.ofDigits base digits = v

namespace BitStore

variable (s : BitStore)

/-- A range holds the number of its first part, and above it that of the rest. -/
theorem read_add (pos m n : Nat) :
    s.read pos (m + n) = s.read pos m + 2 ^ m * s.read (pos + m) n := by
  simp only [read, Bits.truncate_eq_mod]
  rw [Nat.pow_add, Nat.mod_mul, Nat.shiftRight_add, Nat.shiftRight_eq_div_pow _ m]

theorem read_one (pos : Nat) : s.read pos 1 = (s.get pos).toNat := by
  rw [read, Bits.truncate_eq_mod, get, Nat.testBit_eq_decide_div_mod_eq,
    ← Nat.shiftRight_eq_div_pow]
  rcases Nat.mod_two_eq_zero_or_one (s.bits >>> pos) with h | h <;> simp [h]

/-- The number of a range is the sum of its bits by their places. -/
theorem read_eq_sum (pos width : Nat) :
    s.read pos width = ∑ i ∈ Finset.range width, (s.get (pos + i)).toNat * 2 ^ i := by
  induction width with
  | zero => simp
  | succ width ih =>
    rw [read_add, ih, read_one, Finset.sum_range_succ, Nat.mul_comm]

/-- **Pieces of a range** are the digits of the number that it holds, the last piece being what is
left. -/
theorem ofDigits_chunks (unit count size : Nat) :
    Nat.ofDigits (2 ^ unit)
        ((List.range count).map fun i => s.read (i * unit) (min (size - i * unit) unit)) =
      s.read 0 (min size (count * unit)) := by
  induction count with
  | zero => simp
  | succ count ih =>
    rw [List.range_succ, List.map_append, Nat.ofDigits_append, ih, List.map_singleton,
      Nat.ofDigits_singleton, List.length_map, List.length_range, ← Nat.pow_mul,
      Nat.mul_comm unit, Nat.add_one_mul]
    -- the next piece either goes on where the ones before end, or there is nothing left for it
    rcases Nat.le_total size (count * unit) with h | h
    · have hmin : min size (count * unit + unit) = size := by omega
      rw [Nat.min_eq_left h, hmin, Nat.sub_eq_zero_of_le h, Nat.min_eq_left (Nat.zero_le unit),
        read_zero, Nat.mul_zero, Nat.add_zero]
    · have hmin : min size (count * unit + unit) =
          count * unit + min (size - count * unit) unit := by omega
      rw [Nat.min_eq_right h, hmin, read_add, Nat.zero_add]

/-- Numbers written next to each other, bit by bit. -/
theorem get_storeAll {unit : Nat} (hu : 0 < unit) (values : List Nat) (pos i : Nat) :
    (Packer.storeAll unit values pos s).get i =
      if pos ≤ i ∧ i < pos + values.length * unit then
        (values[(i - pos) / unit]?.getD 0).testBit ((i - pos) % unit)
      else s.get i := by
  induction values generalizing pos s with
  | nil =>
    rw [Packer.storeAll, if_neg]
    simp only [List.length_nil]
    omega
  | cons v rest ih =>
    rw [Packer.storeAll, ih, get_write, List.length_cons, Nat.add_one_mul]
    rcases Nat.lt_or_ge i (pos + unit) with hi | hi
    · rw [if_neg (by omega)]
      rcases Nat.lt_or_ge i pos with hp | hp
      · rw [if_neg (by omega), if_neg (by omega)]
      · rw [if_pos ⟨hp, hi⟩, if_pos (by omega), Nat.div_eq_of_lt (by omega),
          Nat.mod_eq_of_lt (by omega)]
        rfl
    · -- beyond the first number the rest is looked up one place earlier
      obtain ⟨k, rfl⟩ := Nat.exists_eq_add_of_le hi
      rw [if_neg (c := pos ≤ _ ∧ pos + unit + k < pos + unit) (by omega),
        show pos + unit + k - pos = k + unit by omega, Nat.add_sub_cancel_left,
        Nat.add_div_right _ hu, Nat.add_mod_right, List.getElem?_cons_succ]
      by_cases hr : k < rest.length * unit
      · rw [if_pos (by omega), if_pos (by omega)]
      · rw [if_neg (by omega), if_neg (by omega)]

end BitStore

namespace Packer

/-- `q` is at the start of the stream of `p`, filled up with zeros to whole chunks of `unit`
bits; no other bit of its store is set. -/
structure FilledUp (p q : Packer) (unit : Nat) : Prop where
  cursor : q.cursor = 0
  size : q.size = (p.size + unit - 1) / unit * unit
  get : ∀ i, q.store.get i = (decide (i < p.size) && p.store.get i)

variable (p : Packer) {q : Packer} {unit : Nat}

@[simp] theorem length_streamOrder {α : Type} (elements : List α) :
    (p.streamOrder elements).length = elements.length := by
  unfold streamOrder
  split <;> simp

theorem mem_streamOrder {α : Type} {elements : List α} {a : α} :
    a ∈ p.streamOrder elements ↔ a ∈ elements := by
  unfold streamOrder
  split <;> simp

/-- The bits of a stream are the binary digits of its number. -/
theorem isDigits_bitList : IsDigits 2 p.size p.number (p.bitList.map Bool.toNat) where
  length := by simp [bitList]
  lt := by
    intro d hd
    obtain ⟨b, -, rfl⟩ := List.mem_map.1 hd
    exact b.toNat_lt
  value := by
    have h := p.store.ofDigits_chunks 1 p.size p.size
    rw [Nat.mul_one, Nat.min_self] at h
    rw [number, ← h, bitList, List.map_map, Nat.pow_one]
    congr 1
    apply List.map_congr_left
    intro i hi
    have hi : i < p.size := List.mem_range.1 hi
    rw [Nat.mul_one, Nat.min_eq_right (by omega), BitStore.read_one]
    rfl

/-- The chunks of a stream, in the order in which they lie in it, are the digits of its number. -/
theorem isDigits_chunks (hu : 0 < unit) :
    IsDigits (2 ^ unit) ((p.size + unit - 1) / unit) p.number
      (p.streamOrder (p.chunks unit)) where
  length := by rw [length_streamOrder, length_chunks]
  lt := by
    intro d hd
    rw [mem_streamOrder, chunks, mem_streamOrder] at hd
    obtain ⟨i, -, rfl⟩ := List.mem_map.1 hd
    exact Nat.lt_of_lt_of_le (BitStore.read_lt ..) (Nat.pow_le_pow_right (by decide) (by omega))
  value := by
    have hle := Nat.lt_div_mul_add (a := p.size + unit - 1) hu
    rw [chunks, streamOrder_streamOrder rfl, BitStore.ofDigits_chunks, Nat.min_eq_left (by omega)]
    rfl

/-- Digits that were loaded, bit by bit. -/
theorem get_load (hu : 0 < unit) (values : List Nat) (i : Nat) :
    (p.load unit values).store.get i =
      ((p.streamOrder values)[i / unit]?.getD 0).testBit (i % unit) := by
  rw [load, BitStore.get_storeAll _ hu, Nat.sub_zero, Nat.zero_add, length_streamOrder,
    BitStore.get_clear]
  by_cases hi : i < values.length * unit
  · rw [if_pos ⟨Nat.zero_le i, hi⟩]
  · rw [if_neg (by omega), List.getElem?_eq_none]
    · simp
    · rw [length_streamOrder, Nat.le_div_iff_mul_le hu]
      omega

/-- Digits that were loaded are given back. -/
theorem chunks_load (hu : 0 < unit) {values : List Nat} (hv : ∀ v ∈ values, v < 2 ^ unit) :
    (p.load unit values).chunks unit = values := by
  have hcount : (values.length * unit + unit - 1) / unit = values.length := by
    rw [show values.length * unit + unit - 1 = unit - 1 + values.length * unit by omega,
      Nat.add_mul_div_right _ _ hu, Nat.div_eq_of_lt (by omega), Nat.zero_add]
  have hread : ∀ i < values.length, (p.load unit values).store.read (i * unit)
      (min (values.length * unit - i * unit) unit) = (p.streamOrder values)[i]?.getD 0 := by
    intro i hi
    have hle : (i + 1) * unit ≤ values.length * unit := Nat.mul_le_mul_right _ hi
    rw [Nat.add_one_mul] at hle
    rw [Nat.min_eq_right (by omega)]
    apply Nat.eq_of_testBit_eq
    intro j
    rw [BitStore.testBit_read, get_load _ hu]
    by_cases hj : j < unit
    · rw [Nat.mul_comm i, Nat.mul_add_div hu, Nat.mul_add_mod, Nat.div_eq_of_lt hj,
        Nat.mod_eq_of_lt hj]
      simp [hj]
    · -- an element has no bits from `unit` on
      have hlt : (p.streamOrder values)[i]?.getD 0 < 2 ^ unit := by
        have hi' : i < (p.streamOrder values).length := by simpa using hi
        rw [List.getElem?_eq_getElem hi']
        exact hv _ (p.mem_streamOrder.1 (List.getElem_mem hi'))
      rw [Nat.testBit_lt_two_pow (Nat.lt_of_lt_of_le hlt
        (Nat.pow_le_pow_right (by decide) (Nat.not_lt.1 hj)))]
      simp [hj]
  have hmap : (List.range values.length).map (fun i => (p.load unit values).store.read (i * unit)
      (min (values.length * unit - i * unit) unit)) = p.streamOrder values := by
    apply List.ext_getElem
    · simp
    · intro i hi hi'
      rw [List.getElem_map, List.getElem_range, hread i (by simpa using hi),
        List.getElem?_eq_getElem hi']
      rfl
  have hsize : (p.load unit values).size = values.length * unit := rfl
  rw [chunks, hsize, hcount, hmap]
  exact streamOrder_streamOrder rfl values

/-- **A stream that is handed over in chunks** arrives with its bits and no others. -/
theorem get_load_chunks (hu : 0 < unit) (h : q.settings.bigEndian = p.settings.bigEndian)
    (i : Nat) :
    (q.load unit (p.chunks unit)).store.get i = (decide (i < p.size) && p.store.get i) := by
  have hdiv := Nat.div_add_mod' i unit
  have hmod := Nat.mod_lt i hu
  rw [get_load _ hu, chunks, streamOrder_streamOrder h]
  by_cases hi : i / unit < (p.size + unit - 1) / unit
  · rw [List.getElem?_eq_getElem (by simpa using hi)]
    simp only [List.getElem_map, List.getElem_range, Option.getD_some]
    rw [BitStore.testBit_read, hdiv]
    congr 1
    rw [decide_eq_decide]
    omega
  · rw [List.getElem?_eq_none (by simpa using hi)]
    have hle := Nat.lt_div_mul_add (a := p.size + unit - 1) hu
    have hsize : p.size ≤ i := by
      have := Nat.mul_le_mul_right unit (Nat.not_lt.1 hi)
      omega
    simp [Nat.not_lt.2 hsize]

theorem filledUp_load_chunks (hu : 0 < unit)
    (h : q.settings.bigEndian = p.settings.bigEndian) :
    FilledUp p (q.load unit (p.chunks unit)) unit where
  cursor := rfl
  size := congrArg (· * unit) (p.length_chunks unit)
  get := p.get_load_chunks hu h

/-- **The forms of a stream agree**, and loading one of them makes it the stream.

Bits, bytes and words are the digits of the number, the most significant byte or word first when
the packer is big-endian.  Each form that is loaded is given back, and bytes or words of a stream
bring its bits into a packer of the same order of bits, with nothing but zeros behind them. -/
theorem forms_agree :
    (p.number = ∑ i ∈ Finset.range p.size, (p.store.get i).toNat * 2 ^ i ∧
      IsDigits 2 p.size p.number (p.bitList.map Bool.toNat) ∧
      IsDigits (2 ^ 8) ((p.size + 7) / 8) p.number
        (if p.settings.bigEndian then p.bytes.reverse else p.bytes) ∧
      IsDigits (2 ^ 32) ((p.size + 31) / 32) p.number
        (if p.settings.bigEndian then p.words.reverse else p.words)) ∧
    (∀ bits : List Bool, (p.loadBits bits).bitList = bits ∧
      (p.loadBits bits).cursor = 0 ∧ (p.loadBits bits).size = bits.length) ∧
    (∀ bytes : List UInt8, let q := p.loadBytes (bytes.map UInt8.toNat)
      q.bytes = bytes.map UInt8.toNat ∧ q.cursor = 0 ∧ q.size = bytes.length * 8) ∧
    (∀ words : List UInt32, let q := p.loadWords (words.map UInt32.toNat)
      q.words = words.map UInt32.toNat ∧ q.cursor = 0 ∧ q.size = words.length * 32) ∧
    ∀ q : Packer, q.settings.bigEndian = p.settings.bigEndian →
      FilledUp p (q.loadBytes p.bytes) 8 ∧ FilledUp p (q.loadWords p.words) 32 := by
  refine ⟨⟨?_, p.isDigits_bitList, p.isDigits_chunks (by decide), p.isDigits_chunks (by decide)⟩,
    fun bits => ⟨p.bitList_loadBits bits, rfl, rfl⟩, fun bytes => ?_, fun words => ?_,
    fun q h => ⟨p.filledUp_load_chunks (by decide) h, p.filledUp_load_chunks (by decide) h⟩⟩
  · rw [number, BitStore.read_eq_sum]
    simp only [Nat.zero_add]
  · refine ⟨p.chunks_load (by decide) fun v hv => ?_, rfl, by simp [loadBytes, load]⟩
    obtain ⟨b, -, rfl⟩ := List.mem_map.1 hv
    exact b.toNat_lt
  · refine ⟨p.chunks_load (by decide) fun v hv => ?_, rfl, by simp [loadWords, load]⟩
    obtain ⟨w, -, rfl⟩ := List.mem_map.1 hv
    exact w.toNat_lt

/-- A stream of 12 bits with ones behind it, brought into a packer that was full of ones. -/
theorem forms_agree_stale :
    let ones : BitStore := ⟨0xFFFFFFFF, 1, by decide⟩
    let p : Packer := { settings := { bigEndian := true }, store := ones, size := 12 }
    let q : Packer := { settings := { bigEndian := true }, store := ones, size := 32, cursor := 5 }
    q.settings.bigEndian = p.settings.bigEndian ∧ p.bytes = [0x0F, 0xFF] ∧
      (q.loadBytes p.bytes).number = 0xFFF ∧
      FilledUp p (q.loadBytes p.bytes) 8 ∧ FilledUp p (q.loadWords p.words) 32 :=
  ⟨rfl, by decide, by decide, (forms_agree _).2.2.2.2 _ rfl⟩

end Packer

end FieldAutomation
