import FieldAutomation.Proofs.Stream.Materialization

/-!
# Bytes and words of one stream

The bytes and the 32-bit words of a stream are digits of one number in two bases, so the bytes of
its words are its bytes, with zeros where a word is not filled.  A word of a big-endian packer has
its most significant byte first, and the first word is the one that may not be filled; otherwise it
is the least significant byte and the last word.

* `Packer.wordBytes`: the bytes of a word in that order;
* `Packer.gather`, `Packer.padded`: bytes taken four at a time, and zeros that fill the last four.

Main statement: `Packer.arrays_regroup` (an array that is packed comes back as it was, and in the
other unit as its bytes say).
-/

namespace FieldAutomation

/-- Digits of a number are determined by it and by their count. -/
theorem IsDigits.unique {base count v : Nat} {l l' : List Nat} (hb : 1 < base)
    (h : IsDigits base count v l) (h' : IsDigits base count v l') : l = l' :=
  Nat.ofDigits_inj_of_len_eq hb (h.length.trans h'.length.symm) h.lt h'.lt
    (h.value.trans h'.value.symm)

/-- Zeros behind the most significant digit. -/
theorem IsDigits.append_zeros {base count v : Nat} {l : List Nat} (hb : 0 < base)
    (h : IsDigits base count v l) (n : Nat) :
    IsDigits base (count + n) v (l ++ List.replicate n 0) where
  length := by rw [List.length_append, List.length_replicate, h.length]
  lt := by
    intro d hd
    rcases List.mem_append.1 hd with hd | hd
    · exact h.lt d hd
    · rw [List.eq_of_mem_replicate hd]
      exact hb
  value := (Nat.ofDigits_append_replicate_zero l).trans h.value

namespace Packer

/-- The bytes of a 32-bit word, most significant first if `bigEndian`. -/
def wordBytes (bigEndian : Bool) (w : Nat) : List Nat :=
  let bytes := [w / 256 / 256 / 256 % 256, w / 256 / 256 % 256, w / 256 % 256, w % 256]
  if bigEndian then bytes else bytes.reverse

/-- The words whose bytes are given, four for each. -/
def gather (bigEndian : Bool) : List Nat → List Nat
  | a :: b :: c :: d :: rest =>
    ofBytes (if bigEndian then [a, b, c, d] else [d, c, b, a]) :: gather bigEndian rest
  | _ => []

/-- Bytes with the zeros that are missing to whole words: before them if `bigEndian`, and behind
them otherwise. -/
def padded (bigEndian : Bool) (bytes : List Nat) : List Nat :=
  let zeros := List.replicate ((4 - bytes.length % 4) % 4) 0
  if bigEndian then zeros ++ bytes else bytes ++ zeros

theorem wordBytes_not (bigEndian : Bool) (w : Nat) :
    wordBytes (!bigEndian) w = (wordBytes bigEndian w).reverse := by
  cases bigEndian <;> rfl

theorem gather_wordBytes_append (bigEndian : Bool) {w : Nat} (hw : w < 2 ^ 32) (rest : List Nat) :
    gather bigEndian (wordBytes bigEndian w ++ rest) = w :: gather bigEndian rest := by
  have hbytes : ofBytes [w / 256 / 256 / 256 % 256, w / 256 / 256 % 256, w / 256 % 256, w % 256] =
      w := by
    simp only [ofBytes, List.foldl_cons, List.foldl_nil]
    omega
  cases bigEndian <;> simp [wordBytes, gather, hbytes]

/-- Words are put together again from their bytes. -/
theorem gather_flatMap_wordBytes (bigEndian : Bool) {words : List Nat}
    (h : ∀ w ∈ words, w < 2 ^ 32) :
    gather bigEndian (words.flatMap (wordBytes bigEndian)) = words := by
  induction words with
  | nil => rfl
  | cons w rest ih =>
    rw [List.flatMap_cons, gather_wordBytes_append bigEndian (h w List.mem_cons_self),
      ih fun v hv => h v (List.mem_cons_of_mem w hv)]

theorem isDigits_wordBytes {w : Nat} (hw : w < 2 ^ 32) :
    IsDigits (2 ^ 8) 4 w (wordBytes false w) where
  length := rfl
  lt := by
    have hlt (v : Nat) : v % 256 < 256 := Nat.mod_lt v (by decide)
    simp [wordBytes, hlt]
  value := by
    simp only [wordBytes, Bool.false_eq_true, if_false, List.reverse_cons, List.reverse_nil,
      List.nil_append, List.cons_append, Nat.ofDigits_cons, Nat.ofDigits_nil]
    omega

/-- The bytes of the words of a number are its bytes. -/
theorem isDigits_flatMap_wordBytes {count v : Nat} {words : List Nat}
    (h : IsDigits (2 ^ 32) count v words) :
    IsDigits (2 ^ 8) (4 * count) v (words.flatMap (wordBytes false)) := by
  obtain ⟨rfl, hlt, rfl⟩ := h
  induction words with
  | nil => exact ⟨rfl, by simp, rfl⟩
  | cons w rest ih =>
    obtain ⟨hlen, hbytes, hvalue⟩ := ih fun v hv => hlt v (List.mem_cons_of_mem w hv)
    have hw := isDigits_wordBytes (hlt w List.mem_cons_self)
    refine ⟨?_, ?_, ?_⟩
    · rw [List.flatMap_cons, List.length_append, hw.length, hlen, List.length_cons]
      omega
    · intro d hd
      rcases List.mem_append.1 (List.flatMap_cons ▸ hd) with hd | hd
      · exact hw.lt d hd
      · exact hbytes d hd
    · rw [List.flatMap_cons, Nat.ofDigits_append, hw.value, hw.length, hvalue, Nat.ofDigits_cons,
        ← Nat.pow_mul]

variable (p : Packer)

theorem isDigits_bytes :
    IsDigits (2 ^ 8) ((p.size + 7) / 8) p.number (p.streamOrder p.bytes) :=
  p.isDigits_chunks (by decide)

theorem isDigits_words :
    IsDigits (2 ^ 32) ((p.size + 31) / 32) p.number (p.streamOrder p.words) :=
  p.isDigits_chunks (by decide)

/-- **The bytes of the words of a stream** are its bytes, filled up to whole words. -/
theorem flatMap_wordBytes_words :
    p.words.flatMap (wordBytes p.settings.bigEndian) = padded p.settings.bigEndian p.bytes := by
  have hcount : 4 * ((p.size + 31) / 32) =
      (p.size + 7) / 8 + (4 - (p.size + 7) / 8 % 4) % 4 := by omega
  have hlen : p.bytes.length = (p.size + 7) / 8 := p.length_chunks 8
  have hwords := isDigits_flatMap_wordBytes p.isDigits_words
  have hbytes := p.isDigits_bytes.append_zeros (by decide) ((4 - (p.size + 7) / 8 % 4) % 4)
  have heq : (p.streamOrder p.words).flatMap (wordBytes false) =
      p.streamOrder p.bytes ++ List.replicate ((4 - p.bytes.length % 4) % 4) 0 := by
    rw [hlen]
    exact IsDigits.unique (by decide) (hcount ▸ hwords) hbytes
  -- a big-endian packer gives both lists back from the end on
  unfold padded
  revert heq
  unfold streamOrder
  cases p.settings.bigEndian with
  | false => exact id
  | true =>
    intro heq
    have hrev := congrArg List.reverse heq
    simpa [List.reverse_flatMap, Function.comp_def, ← wordBytes_not] using hrev

/-- The words of a stream, put together from its bytes. -/
theorem words_eq_gather :
    p.words = gather p.settings.bigEndian (padded p.settings.bigEndian p.bytes) := by
  rw [← p.flatMap_wordBytes_words, gather_flatMap_wordBytes]
  intro w hw
  exact p.isDigits_words.lt w (p.mem_streamOrder.2 hw)

/-! ### Arrays that are packed -/

/-- Elements that are all written in full. -/
theorem writeElements_eq_storeAll (unit : Nat) (values : List Nat) :
    writeElements unit values (values.length * unit) p =
      { p with
        store := storeAll unit values p.cursor p.store
        cursor := p.cursor + values.length * unit } := by
  induction values generalizing p with
  | nil => simp [writeElements, storeAll]
  | cons v rest ih =>
    have hmin : min ((rest.length + 1) * unit) unit = unit :=
      Nat.min_eq_right (Nat.le_mul_of_pos_left unit (Nat.succ_pos _))
    rw [writeElements, List.length_cons, hmin, Nat.add_one_mul, Nat.add_sub_cancel, ih, storeAll,
      Nat.add_assoc, Nat.add_comm unit]

/-- An array that is packed into an empty stream is loaded. -/
theorem commit_packArray_reset (kind : ArrayKind) (values : List Nat) :
    (p.reset.packArray kind values none).commit = p.reset.load kind.unit values := by
  have h := p.reset.writeElements_eq_storeAll kind.unit (p.streamOrder values)
  rw [length_streamOrder, show p.reset.cursor = 0 from rfl, Nat.zero_add] at h
  exact congrArg commit h

theorem padded_of_whole (bigEndian : Bool) {bytes : List Nat} (h : bytes.length % 4 = 0) :
    padded bigEndian bytes = bytes := by
  cases bigEndian <;> simp [padded, h]

/-- **An array that is packed comes back in either unit.**  Words come back as bytes in the order
of the stream, and bytes as words with zeros that fill the last four. -/
theorem arrays_regroup :
    (∀ bytes : List UInt8,
      let values := bytes.map UInt8.toNat
      let q := (p.reset.packArray .bytes values none).commit
      q.bytes = values ∧
        q.words = gather p.settings.bigEndian (padded p.settings.bigEndian values)) ∧
    ∀ words : List UInt32,
      let values := words.map UInt32.toNat
      let q := (p.reset.packArray .words values none).commit
      q.words = values ∧ q.bytes = values.flatMap (wordBytes p.settings.bigEndian) := by
  constructor
  · intro bytes values q
    have hlt : ∀ v ∈ values, v < 2 ^ 8 := by
      intro v hv
      obtain ⟨b, -, rfl⟩ := List.mem_map.1 hv
      exact b.toNat_lt
    have hq : q = p.reset.load 8 values := p.commit_packArray_reset .bytes values
    have hbytes : q.bytes = values := hq ▸ p.reset.chunks_load (by decide) hlt
    have hwords := q.words_eq_gather
    rw [hbytes, hq] at hwords
    exact ⟨hbytes, hq ▸ hwords⟩
  · intro words values q
    have hlt : ∀ v ∈ values, v < 2 ^ 32 := by
      intro v hv
      obtain ⟨w, -, rfl⟩ := List.mem_map.1 hv
      exact w.toNat_lt
    have hq : q = p.reset.load 32 values := p.commit_packArray_reset .words values
    have hwords : q.words = values := hq ▸ p.reset.chunks_load (by decide) hlt
    have hsize : q.size = values.length * 32 := by rw [hq]; rfl
    have hwhole : q.bytes.length % 4 = 0 := by
      rw [Packer.bytes, length_chunks, hsize]
      omega
    have hbytes := q.flatMap_wordBytes_words
    rw [padded_of_whole _ hwhole, hwords, hq] at hbytes
    exact ⟨hwords, hq ▸ hbytes.symm⟩

/-- Five bytes as words: three zeros before them, or behind. -/
example :
    gather true (padded true [1, 2, 3, 4, 5]) = [0x00000001, 0x02030405] ∧
      gather false (padded false [1, 2, 3, 4, 5]) = [0x04030201, 0x00000005] := by
  decide

end Packer

end FieldAutomation
