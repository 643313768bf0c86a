import FieldAutomation.BitStore
import FieldAutomation.Size

/-!
# A store of bits in words

`WordStore` keeps the bits of a growable store in an array of 64-bit words: bit `i` lies in word
`i / 64` at place `i % 64`.  A range of up to 64 bits touches one word, or two where it straddles a
boundary; longer ranges are taken in chunks of 64 bits.  Positions are sizes, and wrap around as
sizes do: a range that goes on behind the last position is not found where it should be.

* `WordStore.read`, `WordStore.readWide`, `WordStore.get`: a range of at most 64 bits, any range,
  and one bit.  A word without storage reads as zero;
* `WordStore.write?`, `WordStore.writeWide?`, `WordStore.set?`: the same for writing.  They are
  `none` if a word without storage would have to be changed;
* `WordStore.ensure`: adds the words that a write needs.

Main statements: `WordStore.testBit_mask` and `WordStore.testBit_merge`, the bits of a mask and of a
word of which a part has been replaced.
-/

namespace FieldAutomation

-- Powers are those of the core library, whatever else is in scope.
attribute [local instance (high)] instPowNat

/-- A growable store of bits as an array of words. -/
structure WordStore where
  /-- The words with storage. -/
  words : Array UInt64 := #[]
  deriving DecidableEq

namespace WordStore

/-- A new store has no storage. -/
def empty : WordStore := {}

instance : Inhabited WordStore := ⟨empty⟩

/-- Number of positions with storage. -/
def capacity (s : WordStore) : Nat := Size.mul s.words.size 64

/-- A word whose low `width` bits are ones. -/
def mask (width : Nat) : UInt64 :=
  if 64 ≤ width then 0xFFFFFFFFFFFFFFFF else (1 <<< UInt64.ofNat width) - 1

/-- The word `old` with its bits under `m` replaced by those of `new`. -/
def merge (old new m : UInt64) : UInt64 := (old &&& ~~~m) ||| (new &&& m)

/-- Word `i`, zero without storage. -/
def word (s : WordStore) (i : Nat) : UInt64 := s.words[i]?.getD 0

/-- Adds words of zeros until every position below `last` has storage. -/
def ensure (s : WordStore) (last : Nat) : WordStore :=
  if s.words.size < BitStore.wordsFor last then
    ⟨s.words ++ Array.replicate (BitStore.wordsFor last - s.words.size) 0⟩
  else s

/-- Replaces the bits of word `i` under `m` by those of `v`; `none` without such a word. -/
def mergeAt? (s : WordStore) (i : Nat) (v m : UInt64) : Option WordStore :=
  if h : i < s.words.size then some ⟨s.words.set i (merge s.words[i] v m) h⟩ else none

/-- Replaces the `width` bits from position `pos` on by the low bits of `v`, for a width of at most
64.  The first word takes the bits up to its end, the next one what is left. -/
def write? (s : WordStore) (pos : Nat) (v : UInt64) (width : Nat) : Option WordStore :=
  if width = 0 then some s
  else
    let v := v &&& mask width
    let shift := pos % 64
    let low := min (64 - shift) width
    let s := s.ensure (Size.add pos width)
    (s.mergeAt? (pos / 64) (v <<< UInt64.ofNat shift) (mask low <<< UInt64.ofNat shift)).bind
      fun s =>
        if low < width then
          s.mergeAt? (pos / 64 + 1) (v >>> UInt64.ofNat low) (mask (width - low))
        else some s

/-- The `width` bits from position `pos` on, the first one least significant, for a width of at
most 64. -/
def read (s : WordStore) (pos width : Nat) : UInt64 :=
  if width = 0 then 0
  else
    let shift := pos % 64
    let low := s.word (pos / 64) >>> UInt64.ofNat shift
    let v :=
      if 64 - shift < width then low ||| s.word (pos / 64 + 1) <<< UInt64.ofNat (64 - shift)
      else low
    v &&& mask width

/-- The bit at position `pos`. -/
def get (s : WordStore) (pos : Nat) : Bool := s.read pos 1 == 1

/-- Sets the bit at position `pos`. -/
def set? (s : WordStore) (pos : Nat) (b : Bool) : Option WordStore := s.write? pos b.toUInt64 1

/-- Bits of chunk `k` of a range of `width` bits. -/
def chunk (width k : Nat) : Nat := min (width - 64 * k) 64

/-- Replaces the `width` bits from position `pos` on by the low bits of `v`, chunk by chunk. -/
def writeWide? (s : WordStore) (pos v width : Nat) : Option WordStore :=
  (List.range (BitStore.wordsFor width)).foldlM
    (fun s k => s.write? (Size.add pos (64 * k)) (UInt64.ofNat (v >>> (64 * k))) (chunk width k)) s

/-- The `width` bits from position `pos` on, read chunk by chunk. -/
def readWide (s : WordStore) (pos width : Nat) : Nat :=
  (List.range (BitStore.wordsFor width)).foldl
    (fun v k => v ||| (s.read (Size.add pos (64 * k)) (chunk width k)).toNat <<< (64 * k)) 0

/-- Zeroes every word and keeps the storage. -/
def clear (s : WordStore) : WordStore := ⟨s.words.map fun _ => 0⟩

/-! ### Words bit by bit -/

/-- A word has no bits from 64 on. -/
theorem testBit_of_le (x : UInt64) {i : Nat} (h : 64 ≤ i) : x.toNat.testBit i = false :=
  Nat.testBit_lt_two_pow (Nat.lt_of_lt_of_le x.toNat_lt (Nat.pow_le_pow_right (by decide) h))

/-- A distance below 64 shifts a word by just that. -/
theorem toNat_ofNat_mod {n : Nat} (h : n < 64) : (UInt64.ofNat n).toNat % 64 = n := by
  rw [UInt64.toNat_ofNat']
  omega

theorem testBit_shiftLeft (x : UInt64) {n : Nat} (h : n < 64) (i : Nat) :
    (x <<< UInt64.ofNat n).toNat.testBit i =
      (decide (i < 64) && (decide (n ≤ i) && x.toNat.testBit (i - n))) := by
  rw [UInt64.toNat_shiftLeft, toNat_ofNat_mod h, Nat.testBit_mod_two_pow, Nat.testBit_shiftLeft]

theorem testBit_shiftRight (x : UInt64) {n : Nat} (h : n < 64) (i : Nat) :
    (x >>> UInt64.ofNat n).toNat.testBit i = x.toNat.testBit (n + i) := by
  rw [UInt64.toNat_shiftRight, toNat_ofNat_mod h, Nat.testBit_shiftRight]

/-- The bits of a mask, also of the full one. -/
theorem testBit_mask (width i : Nat) :
    (mask width).toNat.testBit i = (decide (i < 64) && decide (i < width)) := by
  unfold mask
  split
  case isTrue h =>
    have hall : (0xFFFFFFFFFFFFFFFF : UInt64).toNat = 2 ^ 64 - 1 := rfl
    rw [hall, Nat.testBit_two_pow_sub_one]
    by_cases hi : i < 64
    · simp [hi, Nat.lt_of_lt_of_le hi h]
    · simp [hi]
  case isFalse h =>
    have hw : width < 64 := by omega
    have hpow : (1 <<< UInt64.ofNat width : UInt64).toNat = 2 ^ width := by
      rw [UInt64.toNat_shiftLeft, toNat_ofNat_mod hw, UInt64.toNat_one, Nat.one_shiftLeft,
        Nat.mod_eq_of_lt (Nat.pow_lt_pow_right (by decide) hw)]
    have hle : (1 : UInt64) ≤ 1 <<< UInt64.ofNat width := by
      rw [UInt64.le_iff_toNat_le, hpow, UInt64.toNat_one]
      exact Nat.two_pow_pos width
    rw [UInt64.toNat_sub_of_le _ _ hle, hpow, UInt64.toNat_one, Nat.testBit_two_pow_sub_one]
    by_cases hi : i < width
    · simp [hi, Nat.lt_trans hi hw]
    · simp [hi]

/-- A mask cuts a word to its low bits. -/
theorem toNat_and_mask (v : UInt64) (width : Nat) :
    (v &&& mask width).toNat = Bits.truncate v.toNat width := by
  apply Nat.eq_of_testBit_eq
  intro i
  rw [UInt64.toNat_and, Nat.testBit_and, testBit_mask, Bits.testBit_truncate]
  by_cases hi : i < 64
  · simp [hi, Bool.and_comm]
  · simp [testBit_of_le v (Nat.le_of_not_lt hi)]

/-- The low word of a number has its low bits. -/
theorem truncate_toNat_ofNat (v : Nat) {size : Nat} (h : size ≤ 64) :
    Bits.truncate (UInt64.ofNat v).toNat size = Bits.truncate v size := by
  rw [UInt64.toNat_ofNat', Bits.truncate_eq_mod, Bits.truncate_eq_mod,
    Nat.mod_mod_of_dvd _ (Nat.pow_dvd_pow 2 h)]

/-- A merged word has the new bits under the mask and the old ones elsewhere. -/
theorem testBit_merge (old new m : UInt64) (i : Nat) :
    (merge old new m).toNat.testBit i =
      if m.toNat.testBit i then new.toNat.testBit i else old.toNat.testBit i := by
  rw [merge, UInt64.toNat_or, UInt64.toNat_and, UInt64.toNat_and, UInt64.toNat_not,
    Nat.testBit_or, Nat.testBit_and, Nat.testBit_and]
  have hsub : UInt64.size - 1 - m.toNat = 2 ^ 64 - (m.toNat + 1) := by
    have : UInt64.size = 2 ^ 64 := rfl
    omega
  rw [hsub, Nat.testBit_two_pow_sub_succ m.toNat_lt]
  by_cases hi : i < 64
  · cases m.toNat.testBit i <;> simp [hi]
  · rw [testBit_of_le m (by omega), testBit_of_le old (by omega)]
    simp

/-! ### Chunks of a range -/

theorem chunk_le (width k : Nat) : chunk width k ≤ 64 := Nat.min_le_right ..

/-- The chunks of a range lie next to each other, and only the last one is cut off. -/
theorem add_chunk {width k : Nat} (h : k < BitStore.wordsFor width) :
    min width (64 * k) = 64 * k ∧ 64 * k + chunk width k = min width (64 * (k + 1)) := by
  unfold BitStore.wordsFor at h
  unfold chunk
  omega

/-- Each chunk starts within the range. -/
theorem lt_of_lt_wordsFor {width k : Nat} (h : k < BitStore.wordsFor width) : 64 * k < width := by
  unfold BitStore.wordsFor at h
  omega

theorem min_wordsFor (width : Nat) : min width (64 * BitStore.wordsFor width) = width := by
  unfold BitStore.wordsFor
  omega

end WordStore

end FieldAutomation
