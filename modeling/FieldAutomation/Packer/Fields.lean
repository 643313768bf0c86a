import FieldAutomation.BitStore.Words
import FieldAutomation.DataObject
import FieldAutomation.Packer.Basic
import FieldAutomation.Text.Utf8

/-!
# Fields in a stream

How single values are packed and unpacked.  A number enters the stream with its least significant
bit first, or with its most significant bit first when the packer is big-endian.  An array enters
element by element, each with its least significant bit first, the last element first when the
packer is big-endian.  A string is one number, its first byte most significant.

* `Packer.writeField`, `Packer.readField`: a number of given width at the cursor;
* `Packer.writeWide`, `Packer.readWide`: the same for any width, 64 bits at a time;
* `Packer.packInt`, `packWide`, `packArray`, `packString`, `packTime`, `packReal`, and the
  `unpack` functions that read back what they write.

A call with a bad size notes a misuse and leaves the stream as it is.  Unpacking then gives zero.

Main statements: `Packer.readField_of_writeField` (a number comes back as its low bits),
`Packer.writeWide_eq_writeField`, `Packer.readWide_eq_readField` (chunks that lie next to each other
are one field) and the `cursor` lemmas.
-/

namespace FieldAutomation

namespace Packer

open WordStore (chunk add_chunk min_wordsFor)

variable (p : Packer)

/-- The widest number that a packer takes. -/
def maxFieldBits : Nat := 4096

/-- Width of the mark that says whether an object follows. -/
def markerBits : Nat := 4

/-- A number in the bit order of the stream. -/
def ordered (v size : Nat) : Nat := if p.settings.bigEndian then Bits.reverse v size else v

/-- Writes the low `size` bits of a number. -/
def writeField (v size : Nat) : Packer :=
  { p with store := p.store.write p.cursor (p.ordered v size) size, cursor := p.cursor + size }

/-- Reads a number of `size` bits. -/
def readField (size : Nat) : Nat × Packer :=
  (p.ordered (p.store.read p.cursor size) size, { p with cursor := p.cursor + size })

/-- Where `count` bits of a field of `size` bits lie, those of the number from bit `first` on:
behind the lower bits, or before them when the packer is big-endian. -/
def place (size first count : Nat) : Nat :=
  if p.settings.bigEndian then p.cursor + (size - first - count) else p.cursor + first

/-- Writes the low `size` bits of a number in chunks of 64 bits. -/
def writeWide (v size : Nat) : Packer :=
  { p with
    store := (List.range (BitStore.wordsFor size)).foldl
      (fun s k => s.write (p.place size (64 * k) (chunk size k))
        (p.ordered (v >>> (64 * k)) (chunk size k)) (chunk size k)) p.store
    cursor := p.cursor + size }

/-- Reads a number of `size` bits in chunks of 64 bits. -/
def readWide (size : Nat) : Nat × Packer :=
  ((List.range (BitStore.wordsFor size)).foldl
    (fun v k => v ||| p.ordered
      (p.store.read (p.place size (64 * k) (chunk size k)) (chunk size k)) (chunk size k)
        <<< (64 * k))
    0,
    { p with cursor := p.cursor + size })

/-! ### Packing -/

/-- Packs a number of at most 64 bits. -/
def packInt (v size : Nat) : Packer :=
  if 64 < size then p.fail (.fieldTooWide size 64 "pack_field_int") else p.writeField v size

/-- Packs a number of at most 4096 bits. -/
def packWide (v size : Nat) : Packer :=
  if size ≤ 64 then p.packInt (Bits.truncate v 64) size
  else if maxFieldBits < size then p.fail (.fieldTooWide size maxFieldBits "pack_field")
  else p.writeWide v size

/-- How many bits of an array of `capacity` bits are asked for: `size`, or all. -/
def arrayBits (capacity : Nat) (size : Option Nat) (operation : String) : Except PackError Nat :=
  match size with
  | none => .ok capacity
  | some size =>
    if capacity < size then .error (.sizeExceedsCapacity size capacity operation) else .ok size

/-- Writes elements of `unit` bits until `remaining` bits are written. -/
def writeElements (unit : Nat) : List Nat → Nat → Packer → Packer
  | [], _, p => p
  | v :: rest, remaining, p =>
    let width := min remaining unit
    writeElements unit rest (remaining - width)
      { p with store := p.store.write p.cursor v width, cursor := p.cursor + width }

/-- Packs `size` bits of an array, or all.  Of elements that are there, the bits can be counted. -/
def packArray (kind : ArrayKind) (values : List Nat) (size : Option Nat) : Packer :=
  let operation := match kind with
    | .bytes => "pack_bytes"
    | .words => "pack_ints"
  match arrayBits (values.length * kind.unit) size operation with
  | .error e => p.fail e
  | .ok total => writeElements kind.unit (p.streamOrder values) total p

/-- The number whose bytes are given, most significant first. -/
def ofBytes (bytes : List Nat) : Nat := bytes.foldl (fun v b => 256 * v + b) 0

/-- Packs the bytes of a string as one number, and a zero byte after it if metadata is used. -/
def packString (text : String) : Packer :=
  let bytes := Utf8.encode text
  let p := p.writeWide (ofBytes bytes) (8 * bytes.length)
  if p.settings.useMetadata then p.writeField 0 8 else p

/-- Packs a time. -/
def packTime (time : Nat) : Packer := p.writeField time 64

/-- Packs the word of a real number. -/
def packReal (x : Binary64) : Packer := p.writeField x.toNat 64

/-- Packs the mark that says whether an object follows, if metadata is used. -/
def packMarker (follows : Bool) : Packer :=
  if p.settings.useMetadata then p.writeField follows.toNat markerBits else p

/-! ### Unpacking -/

/-- Unpacks a number of at most 64 bits. -/
def unpackInt (size : Nat) : Nat × Packer :=
  if 64 < size then (0, p.fail (.fieldTooWide size 64 "unpack_field_int"))
  else
    match p.shortage? size "integral" with
    | some e => (0, p.fail e)
    | none => p.readField size

/-- Unpacks a number of at most 4096 bits. -/
def unpackWide (size : Nat) : Nat × Packer :=
  if size ≤ 64 then p.unpackInt size
  else if maxFieldBits < size then
    (0, p.fail (.fieldTooWide size maxFieldBits "unpack_field"))
  else
    match p.shortage? size "integral" with
    | some e => (0, p.fail e)
    | none => p.readWide size

/-- Reads `count` elements of `unit` bits until `remaining` bits are read; what is missing of them
reads as zero. -/
def readElements (unit : Nat) : Nat → Nat → Packer → List Nat × Packer
  | 0, _, p => ([], p)
  | count + 1, remaining, p =>
    let width := min remaining unit
    let v := p.store.read p.cursor width
    let (rest, p) :=
      readElements unit count (remaining - width) { p with cursor := p.cursor + width }
    (v :: rest, p)

/-- Unpacks an array of `count` elements from `size` bits, or from as many as it has.  The count may
be any number, so that these wrap around. -/
def unpackArray (kind : ArrayKind) (count : Nat) (size : Option Nat) : List Nat × Packer :=
  let operation := match kind with
    | .bytes => "unpack_bytes"
    | .words => "unpack_ints"
  match arrayBits (Size.mul count kind.unit) size operation with
  | .error e => (List.replicate count 0, p.fail e)
  | .ok total =>
    match p.shortage? total operation with
    | some e => (List.replicate count 0, p.fail e)
    | none =>
      let (values, p) := readElements kind.unit count total p
      (p.streamOrder values, p)

/-- How many bytes from position `pos` on come before a zero byte, looking at `count` bytes. -/
def bytesBeforeZero (s : BitStore) : Nat → Nat → Nat
  | 0, _ => 0
  | count + 1, pos => if s.read pos 8 = 0 then 0 else bytesBeforeZero s count (pos + 8) + 1

/-- The `count` lowest bytes of a number, most significant first. -/
def toBytes (v : Nat) : Nat → List Nat
  | 0 => []
  | count + 1 => toBytes (v / 256) count ++ [v % 256]

/-- Unpacks a string of `length` bytes, or up to a zero byte or the end of the stream.  If
metadata is used the byte after it is skipped.  Its bits wrap around like those of an array. -/
def unpackString (length : Option Nat) : String × Packer :=
  let count := length.getD (bytesBeforeZero p.store (p.available / 8) p.cursor)
  let (text, p) : String × Packer :=
    if count = 0 then ("", p)
    else
      match p.shortage? (Size.mul 8 count) "string" with
      | some e => ("", p.fail e)
      | none =>
        let (v, p) := p.readWide (Size.mul 8 count)
        (Utf8.decodeLossy (toBytes v count), p)
  if p.settings.useMetadata then
    match p.shortage? 8 "string" with
    | some e => (text, p.fail e)
    | none => (text, { p with cursor := p.cursor + 8 })
  else (text, p)

/-- Unpacks a time. -/
def unpackTime : Nat × Packer := p.unpackInt 64

/-- Unpacks a real number. -/
def unpackReal : Binary64 × Packer :=
  let (v, p) := p.unpackInt 64
  (.ofNat v, p)

/-- Whether the mark at the cursor says that no object follows; never without metadata. -/
def atNull : Bool := p.settings.useMetadata && p.store.read p.cursor markerBits == 0

/-! ### What was written is read back -/

@[simp] theorem cursor_writeField (v size : Nat) :
    (p.writeField v size).cursor = p.cursor + size := rfl

@[simp] theorem settings_writeField (v size : Nat) :
    (p.writeField v size).settings = p.settings := rfl

theorem testBit_ordered (v size j : Nat) (h : j < size) :
    (p.ordered v size).testBit j =
      v.testBit (if p.settings.bigEndian then size - 1 - j else j) := by
  unfold ordered
  split
  · simp [Bits.testBit_reverse, h]
  · rfl

theorem ordered_ordered (v size : Nat) :
    p.ordered (Bits.truncate (p.ordered v size) size) size = Bits.truncate v size := by
  unfold ordered
  split
  · rw [Bits.truncate_of_lt (Bits.reverse_lt v size), Bits.reverse_reverse]
  · rfl

/-- A number is read back as its low bits. -/
theorem readField_of_writeField (v size : Nat) :
    (({ p.writeField v size with cursor := p.cursor } : Packer).readField size).1 =
      Bits.truncate v size := by
  simp only [readField, writeField, BitStore.read_write_self]
  exact p.ordered_ordered v size

/-! ### Chunks of a field -/

/-- A field may be written in two parts, its lower bits first. -/
theorem write_place_add (s : BitStore) (v : Nat) {size m n : Nat} (h : m + n ≤ size) :
    (s.write (p.place size 0 m) (p.ordered v m) m).write (p.place size m n)
        (p.ordered (v >>> m) n) n =
      s.write (p.place size 0 (m + n)) (p.ordered v (m + n)) (m + n) := by
  refine BitStore.ext_of_get ?_ fun i => ?_
  · simp only [BitStore.words_write, BitStore.wordsFor, place]
    split <;> grind
  · simp only [BitStore.get_write, place, ordered]
    split
    next =>
      simp only [Bits.testBit_reverse, Nat.testBit_shiftRight]
      grind
    next =>
      simp only [Nat.testBit_shiftRight]
      grind

theorem place_zero_self (size : Nat) : p.place size 0 size = p.cursor := by
  simp [place]

/-- The first chunks of a field are its lower bits. -/
theorem foldl_writeWide (s : BitStore) (v size : Nat) {n : Nat} (h : n ≤ BitStore.wordsFor size) :
    (List.range n).foldl
        (fun s k => s.write (p.place size (64 * k) (chunk size k))
          (p.ordered (v >>> (64 * k)) (chunk size k)) (chunk size k)) s =
      s.write (p.place size 0 (min size (64 * n))) (p.ordered v (min size (64 * n)))
        (min size (64 * n)) := by
  induction n with
  | zero => simp [BitStore.write]
  | succ n ih =>
    obtain ⟨hfull, hnext⟩ := add_chunk (show n < BitStore.wordsFor size by omega)
    rw [List.range_succ, List.foldl_append, ih (by omega), List.foldl_cons, List.foldl_nil, hfull,
      p.write_place_add s v (by omega), hnext]

/-- Chunks that lie next to each other are one field. -/
theorem writeWide_eq_writeField (v size : Nat) : p.writeWide v size = p.writeField v size := by
  rw [writeWide, p.foldl_writeWide p.store v size (Nat.le_refl _), min_wordsFor, place_zero_self,
    writeField]

theorem testBit_ordered_read (s : BitStore) (pos size j : Nat) :
    (p.ordered (s.read pos size) size).testBit j =
      (decide (j < size) &&
        s.get (pos + if p.settings.bigEndian then size - 1 - j else j)) := by
  by_cases hj : j < size
  · rw [p.testBit_ordered _ _ _ hj, BitStore.testBit_read]
    grind
  · have hlt : p.ordered (s.read pos size) size < 2 ^ size := by
      unfold ordered
      split
      · exact Bits.reverse_lt ..
      · exact s.read_lt pos size
    rw [Nat.testBit_lt_two_pow
      (Nat.lt_of_lt_of_le hlt (Nat.pow_le_pow_right (by decide) (by omega)))]
    simp [hj]

/-- A field may be read in two parts, its lower bits first. -/
theorem read_place_add (s : BitStore) {size m n : Nat} (h : m + n ≤ size) :
    p.ordered (s.read (p.place size 0 m) m) m |||
        p.ordered (s.read (p.place size m n) n) n <<< m =
      p.ordered (s.read (p.place size 0 (m + n)) (m + n)) (m + n) := by
  refine Nat.eq_of_testBit_eq fun j => ?_
  simp only [Nat.testBit_or, Nat.testBit_shiftLeft, testBit_ordered_read, place]
  grind

/-- The first chunks of a field are its lower bits. -/
theorem foldl_readWide (s : BitStore) (size : Nat) {n : Nat} (h : n ≤ BitStore.wordsFor size) :
    (List.range n).foldl
        (fun v k => v ||| p.ordered
          (s.read (p.place size (64 * k) (chunk size k)) (chunk size k)) (chunk size k)
            <<< (64 * k)) 0 =
      p.ordered (s.read (p.place size 0 (min size (64 * n))) (min size (64 * n)))
        (min size (64 * n)) := by
  induction n with
  | zero => simp [ordered]
  | succ n ih =>
    obtain ⟨hfull, hnext⟩ := add_chunk (show n < BitStore.wordsFor size by omega)
    rw [List.range_succ, List.foldl_append, ih (by omega), List.foldl_cons, List.foldl_nil, hfull,
      p.read_place_add s (by omega), hnext]

theorem readWide_eq_readField (size : Nat) : p.readWide size = p.readField size := by
  rw [readWide, p.foldl_readWide p.store size (Nat.le_refl _), min_wordsFor, place_zero_self,
    readField]

/-! ### A wide field is a field -/

/-- Only the low bits of a number are written. -/
theorem writeField_truncate (v : Nat) {size width : Nat} (h : size ≤ width) :
    p.writeField (Bits.truncate v width) size = p.writeField v size := by
  have hstore : p.store.write p.cursor (p.ordered (Bits.truncate v width) size) size =
      p.store.write p.cursor (p.ordered v size) size := by
    refine BitStore.ext_of_get (by simp only [BitStore.words_write]) fun i => ?_
    rw [BitStore.get_write, BitStore.get_write]
    split
    next hi =>
      have hlow : (if p.settings.bigEndian then size - 1 - (i - p.cursor) else i - p.cursor)
          < width := by split <;> omega
      rw [p.testBit_ordered _ _ _ (by omega), p.testBit_ordered _ _ _ (by omega),
        Bits.testBit_truncate]
      simp [hlow]
    next => rfl
  rw [writeField, writeField, hstore]

theorem packInt_truncate (v : Nat) {size : Nat} (h : size ≤ 64) :
    p.packInt (Bits.truncate v 64) size = p.packInt v size := by
  rw [packInt, packInt, p.writeField_truncate v h]

theorem packWide_eq (v size : Nat) :
    p.packWide v size =
      if size ≤ 64 then p.packInt v size
      else if maxFieldBits < size then p.fail (.fieldTooWide size maxFieldBits "pack_field")
      else p.writeField v size := by
  unfold packWide
  split
  next h => exact p.packInt_truncate v h
  next => rw [writeWide_eq_writeField]

theorem packString_eq (text : String) :
    p.packString text =
      let bytes := Utf8.encode text
      let p := p.writeField (ofBytes bytes) (8 * bytes.length)
      if p.settings.useMetadata then p.writeField 0 8 else p := by
  simp only [packString, writeWide_eq_writeField]

end Packer

end FieldAutomation
