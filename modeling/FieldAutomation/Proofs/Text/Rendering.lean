import FieldAutomation.Proofs.Comparing.Numbers
import FieldAutomation.Proofs.Stream.Reading
import FieldAutomation.Proofs.Text.Numerals

/-!
# What the text of a field tells

The radices for numbers show a field by the canonical numeral of its low bits, and `dec` by that of
their two's complement reading, so that the text tells the field.  The radix for strings shows the
bytes of a field one by one, each as the character with its number; that is the text that was
packed only if all its characters are below 128 and none is zero.

* `Radix.base?`: the base of the numerals of a radix;
* `Radix.IsSigned`: the two's complement readings of the low bits of a number;
* `Radix.IsNumeric`: the radices that show a number.

Main statements: `Radix.render_decodes` and `Radix.render_packString_iff`.
-/

namespace FieldAutomation

-- Powers are those of the core library, whatever else is in scope.
attribute [local instance (high)] instPowNat

namespace Radix

/-! ### Numbers -/

/-- The base of the numerals that a radix shows fields in. -/
def base? : Radix → Option Nat
  | bin => some 2
  | oct => some 8
  | hex | noRadix => some 16
  | unsigned | time | enum => some 10
  | dec | string | real => none

/-- A radix that shows a field as a number. -/
def IsNumeric (r : Radix) : Prop := r = dec ∨ r.base?.isSome

/-- `n` is the two's complement reading of the low `size` bits of `v`. -/
structure IsSigned (v size : Nat) (n : Int) : Prop where
  congruent : n % (2 ^ size : Nat) = (v : Int) % (2 ^ size : Nat)
  inRange : if size = 0 then n = 0 else -(2 ^ (size - 1) : Nat) ≤ n ∧ n < (2 ^ (size - 1) : Nat)

theorem base?_bounds {r : Radix} {base : Nat} (h : r.base? = some base) :
    1 < base ∧ base ≤ 16 := by
  cases r <;> cases h <;> decide

/-- The texts of these radices are numerals of the low bits. -/
theorem render_of_base? {r : Radix} {base : Nat} (h : r.base? = some base) (v size : Nat) :
    r.render v size = numeral base (v % 2 ^ size) := by
  rw [← Bits.truncate_eq_mod]
  cases r <;> cases h <;> rfl

/-- The top bit of a field says whether it is in the upper half. -/
theorem testBit_top {low k : Nat} (h : low < 2 ^ (k + 1)) :
    low.testBit k = decide (2 ^ k ≤ low) := by
  rw [Nat.pow_succ] at h
  rcases Nat.lt_or_ge low (2 ^ k) with hlow | hlow
  · rw [Nat.testBit_lt_two_pow hlow, decide_eq_false (by omega)]
  · obtain ⟨rest, rfl⟩ := Nat.exists_eq_add_of_le hlow
    rw [Nat.testBit_two_pow_add_eq, Nat.testBit_lt_two_pow (by omega), decide_eq_true hlow]
    rfl

/-- Two's complement is the remainder that is nearest to zero. -/
theorem signed_eq_bmod (v size : Nat) : signed v size = (v : Int).bmod (2 ^ size) := by
  cases size with
  | zero => simp [signed, Int.bmod_one]
  | succ k =>
    have hlow : (v : Int) % (2 ^ (k + 1) : Nat) = (v % 2 ^ (k + 1) : Nat) := rfl
    rw [Int.bmod_def, hlow, signed, Bits.truncate_eq_mod, Nat.add_sub_cancel,
      testBit_top (Nat.mod_lt v (Nat.two_pow_pos (k + 1))), Nat.one_shiftLeft]
    generalize v % 2 ^ (k + 1) = low
    by_cases hupper : 2 ^ k ≤ low
    · rw [if_pos ⟨Nat.succ_pos k, decide_eq_true hupper⟩, if_neg (by rw [Nat.pow_succ]; omega)]
    · rw [if_neg fun h => hupper (of_decide_eq_true h.2), if_pos (by rw [Nat.pow_succ]; omega)]

/-- There is exactly one such reading. -/
theorem isSigned_iff (v size : Nat) (n : Int) : IsSigned v size n ↔ n = signed v size := by
  have hcongruent : n % (2 ^ size : Nat) = (v : Int) % (2 ^ size : Nat) ↔
      ((2 ^ size : Nat) : Int) ∣ n - v := by
    rw [Int.emod_eq_emod_iff_emod_sub_eq_zero, Int.dvd_iff_emod_eq_zero]
  have hrange : (if size = 0 then n = 0 else
      -(2 ^ (size - 1) : Nat) ≤ n ∧ n < (2 ^ (size - 1) : Nat)) ↔
      -(((2 ^ size : Nat) : Int) / 2) ≤ n ∧ n < (((2 ^ size : Nat) : Int) + 1) / 2 := by
    cases size with
    | zero =>
      rw [if_pos rfl, Nat.pow_zero]
      omega
    | succ k =>
      rw [if_neg (Nat.succ_ne_zero k), Nat.add_sub_cancel, Nat.pow_succ]
      generalize 2 ^ k = half
      omega
  rw [signed_eq_bmod, eq_comm, Int.bmod_eq_iff (Nat.two_pow_pos size), ← hcongruent, ← and_assoc,
    ← hrange, and_comm]
  exact ⟨fun h => ⟨h.congruent, h.inRange⟩, fun h => ⟨h.1, h.2⟩⟩

/-- Fields have the same reading exactly if they have the same low bits. -/
theorem signed_eq_iff (v w size : Nat) :
    signed v size = signed w size ↔ v % 2 ^ size = w % 2 ^ size := by
  constructor
  · intro h
    have hv := ((isSigned_iff v size _).2 rfl).congruent
    have hw := ((isSigned_iff w size _).2 rfl).congruent
    have hmod : (v : Int) % (2 ^ size : Nat) = (w : Int) % (2 ^ size : Nat) := by
      rw [← hv, ← hw, h]
    exact_mod_cast hmod
  · intro h
    simp only [signed, Bits.truncate_eq_mod, h]

theorem numeral_injective {base m n : Nat} (hb : 1 < base) (hb' : base ≤ 16)
    (h : numeral base m = numeral base n) : m = n := by
  have hm := (isNumeral_iff hb hb' m _).2 rfl
  have hn := (isNumeral_iff hb hb' n _).2 rfl
  rw [h] at hm
  exact hm.value.symm.trans hn.value

theorem integerNumeral_injective {m n : Int} (h : integerNumeral m = integerNumeral n) :
    m = n := by
  have hm := (isIntegerNumeral_iff m _).2 rfl
  rw [h] at hm
  exact hm.unique ((isIntegerNumeral_iff n _).2 rfl)

/-- **Fields have the same text** in a radix for numbers exactly if they have the same low bits. -/
theorem render_eq_iff {r : Radix} (hr : r.IsNumeric) (v w size : Nat) :
    r.render v size = r.render w size ↔ v % 2 ^ size = w % 2 ^ size := by
  rcases hr with rfl | hbase
  · exact ⟨fun h => (signed_eq_iff v w size).1 (integerNumeral_injective h),
      fun h => congrArg integerNumeral ((signed_eq_iff v w size).2 h)⟩
  · obtain ⟨base, hbase⟩ := Option.isSome_iff_exists.1 hbase
    obtain ⟨hb, hb'⟩ := base?_bounds hbase
    rw [render_of_base? hbase, render_of_base? hbase]
    exact ⟨numeral_injective hb hb', fun h => by rw [h]⟩

end Radix

namespace Comparer

/-- Passes if two texts are the same, and if not keeps a miscompare that shows both. -/
def compareTexts (c : Comparer) (name left right : String) : Bool × Comparer :=
  if left = right then (true, c) else (false, c.tallyField name (sides left right))

/-- Numbers of any width compare as their texts do. -/
theorem compareWide_eq_compareTexts (c : Comparer) (name : String) {r : Radix}
    (hr : r.IsNumeric) (v w size : Nat) :
    c.compareWide name v w size r =
      c.compareTexts name (r.render v size) (r.render w size) := by
  simp only [compareWide_eq, compareTexts, Bits.truncate_eq_mod, Radix.render_eq_iff hr]

end Comparer

namespace Radix

/-- **The text of a number tells its low bits.**  It is the one canonical numeral of them in the
base of the radix, or for `dec` that of their one two's complement reading.  So two numbers have
the same text exactly if they have the same low bits, and a comparison of numbers, or of words,
fails exactly if the two texts that it shows are different. -/
theorem render_decodes (v size : Nat) :
    (∀ (r : Radix) (base : Nat), r.base? = some base → ∀ text : String,
      IsNumeral base (v % 2 ^ size) text.toList ↔ text = r.render v size) ∧
    (∃ n, IsSigned v size n ∧ (∀ m, IsSigned v size m → m = n) ∧
      ∀ text : String, IsIntegerNumeral n text.toList ↔ text = dec.render v size) ∧
    ∀ r : Radix, r.IsNumeric →
      (∀ w, r.render v size = r.render w size ↔ v % 2 ^ size = w % 2 ^ size) ∧
      ∀ (c : Comparer) (name : String),
        (∀ w, c.compareNumber name v w size r =
          c.compareTexts name (r.render v size) (r.render w size)) ∧
        ∀ left right : UInt64, c.compareWord name left right size r =
          c.compareTexts name (r.render left.toNat size) (r.render right.toNat size) := by
  refine ⟨fun r base hbase text => ?_, ⟨signed v size, ?_, ?_, ?_⟩, fun r hr => ⟨?_, ?_⟩⟩
  · obtain ⟨hb, hb'⟩ := base?_bounds hbase
    rw [render_of_base? hbase]
    exact isNumeral_iff hb hb' _ text
  · exact (isSigned_iff v size _).2 rfl
  · exact fun m hm => (isSigned_iff v size m).1 hm
  · exact isIntegerNumeral_iff _
  · exact fun w => render_eq_iff hr v w size
  · intro c name
    refine ⟨fun w => ?_, fun left right => ?_⟩
    · rw [c.compareNumber_eq_compareWide, c.compareWide_eq_compareTexts name hr]
    · rw [c.compareWord_eq, c.compareWide_eq_compareTexts name hr]

/-- The lowest number of eight bits, with a bit above them. -/
theorem render_decodes_lowest :
    hex.base? = some 16 ∧ dec.IsNumeric ∧
      dec.render 0x180 8 = "-128" ∧ dec.render 0x80 8 = "-128" ∧
      (∀ text : String, IsNumeral 16 0x80 text.toList ↔ text = hex.render 0x180 8) ∧
      (dec.render 0x180 8 = dec.render 0x80 8 ↔ (0x180 % 0x100 = 0x80 % 0x100)) ∧
      ∀ c : Comparer, c.compareNumber "x" 0x180 0x7F 8 dec = c.compareTexts "x" "-128" "127" :=
  ⟨rfl, .inl rfl, by decide, by decide, (render_decodes 0x180 8).1 hex 16 rfl,
    ((render_decodes 0x180 8).2.2 dec (.inl rfl)).1 0x80,
    fun c => (((render_decodes 0x180 8).2.2 dec (.inl rfl)).2 c "x").1 0x7F⟩

/-! ### Strings -/

theorem littleEndianBytes_append {n b : Nat} (hb : b < 256) (h : 256 * n + b ≠ 0) :
    littleEndianBytes (256 * n + b) = b :: littleEndianBytes n := by
  rw [littleEndianBytes, if_neg h]
  congr 2 <;> omega

/-- The bytes of a number are those that were put into it, but for zeros. -/
theorem filter_littleEndianBytes {bytes : List Nat} (h : ∀ b ∈ bytes, b < 256) :
    (littleEndianBytes (Packer.ofBytes bytes)).reverse.filter (· ≠ 0) =
      bytes.filter (· ≠ 0) := by
  induction bytes using List.reverseRecOn with
  | nil => simp [Packer.ofBytes, littleEndianBytes]
  | append_singleton bytes b ih =>
    have hb : b < 256 := h b (by simp)
    have ih := ih fun c hc => h c (List.mem_append_left _ hc)
    rw [Packer.ofBytes_append_singleton, List.filter_append, ← ih]
    by_cases hzero : 256 * Packer.ofBytes bytes + b = 0
    · -- zeros at the front are no bytes of the number
      obtain ⟨hv, rfl⟩ : Packer.ofBytes bytes = 0 ∧ b = 0 := by omega
      simp [hv, littleEndianBytes]
    · rw [littleEndianBytes_append hb hzero, List.reverse_cons, List.filter_append]

theorem ofBytes_lt {bytes : List Nat} (h : ∀ b ∈ bytes, b < 256) :
    Packer.ofBytes bytes < 2 ^ (8 * bytes.length) := by
  induction bytes using List.reverseRecOn with
  | nil => simp [Packer.ofBytes]
  | append_singleton bytes b ih =>
    have hb : b < 256 := h b (by simp)
    have ih := ih fun c hc => h c (List.mem_append_left _ hc)
    rw [Packer.ofBytes_append_singleton, List.length_append, List.length_singleton,
      Nat.mul_add_one, Nat.pow_add]
    omega

/-- Bytes are shown one by one, but for zeros. -/
theorem render_string_ofBytes {bytes : List Nat} (h : ∀ b ∈ bytes, b < 256) :
    string.render (Packer.ofBytes bytes) (8 * bytes.length) =
      String.ofList ((bytes.filter (· ≠ 0)).map Char.ofNat) := by
  rw [render, byteText, Bits.truncate_of_lt (ofBytes_lt h), filter_littleEndianBytes h]

theorem toNat_ofNat_of_lt {b : Nat} (h : b < 256) : (Char.ofNat b).toNat = b := by
  have hvalid : b.isValidChar := .inl (by omega)
  rw [Char.ofNat, dif_pos hvalid]
  rfl

/-- The bytes of a text show it exactly if it has no characters but those from 1 to 127. -/
theorem ofList_encode_eq_iff (text : String) :
    String.ofList (((Utf8.encode text).filter (· ≠ 0)).map Char.ofNat) = text ↔
      ∀ c ∈ text.toList, 0 < c.toNat ∧ c.toNat < 128 := by
  constructor
  · intro h
    have hchars : ((Utf8.encode text).filter (· ≠ 0)).map Char.ofNat = text.toList := by
      simpa using congrArg String.toList h
    have hpos : ∀ c ∈ text.toList, 0 < c.toNat := by
      intro c hc
      rw [← hchars] at hc
      obtain ⟨b, hb, rfl⟩ := List.mem_map.1 hc
      obtain ⟨hmem, hne⟩ := List.mem_filter.1 hb
      rw [toNat_ofNat_of_lt (Utf8.lt_of_mem_encode hmem)]
      simpa [Nat.pos_iff_ne_zero] using hne
    -- without zeros there are as many characters as bytes
    have hzero : 0 ∉ Utf8.encode text := fun hmem =>
      absurd (hpos _ (Utf8.zero_mem_encode_iff.1 hmem)) (by decide)
    have hall : (Utf8.encode text).filter (· ≠ 0) = Utf8.encode text :=
      List.filter_eq_self.2 fun b hb => by simpa using ne_of_mem_of_not_mem hb hzero
    have hlength : (Utf8.encode text).length = text.toList.length := by
      rw [← hchars, hall, List.length_map]
    exact fun c hc => ⟨hpos c hc, Utf8.lt_of_length_encode hlength c hc⟩
  · intro h
    have hall : (text.toList.map Char.toNat).filter (· ≠ 0) = text.toList.map Char.toNat := by
      refine List.filter_eq_self.2 fun b hb => ?_
      obtain ⟨c, hc, rfl⟩ := List.mem_map.1 hb
      simpa [Nat.pos_iff_ne_zero] using (h c hc).1
    rw [Utf8.encode_of_ascii fun c hc => (h c hc).2, hall, List.map_map]
    have hid : Char.ofNat ∘ Char.toNat = id := funext Char.ofNat_toNat
    rw [hid, List.map_id, String.ofList_toList]

/-- **What a packed text shows.**  The number that is packed for a text is that of its bytes, and
it shows the text exactly if all characters are from 1 to 127. -/
theorem render_packString_iff (p : Packer) (text : String) :
    let width := 8 * (Utf8.encode text).length
    let v := ((p.reset.packString text).commit.readWide width).1
    v = Packer.ofBytes (Utf8.encode text) ∧
      string.render v width =
        String.ofList (((Utf8.encode text).filter (· ≠ 0)).map Char.ofNat) ∧
      (string.render v width = text ↔ ∀ c ∈ text.toList, 0 < c.toNat ∧ c.toNat < 128) := by
  have hbytes : ∀ b ∈ Utf8.encode text, b < 256 := fun _ => Utf8.lt_of_mem_encode
  have hwrote := p.reset.wrote_packString text
  have hremaining : (p.reset.packString text).commit.remaining =
      (p.reset.packString text).commit.settings.textBits text ++
        p.reset.settings.terminator := by
    rw [Packer.remaining_commit, hwrote.written, Packer.written_reset, List.nil_append]
    exact congrArg (·.textBits text ++ p.reset.settings.terminator) hwrote.settings.symm
  have hv : ((p.reset.packString text).commit.readWide (8 * (Utf8.encode text).length)).1 =
      Packer.ofBytes (Utf8.encode text) := by
    rw [Packer.readWide_eq_readField, Packer.readField_of_remaining hremaining,
      Bits.truncate_of_lt (ofBytes_lt hbytes)]
  dsimp only
  rw [hv, render_string_ofBytes hbytes]
  exact ⟨rfl, rfl, ofList_encode_eq_iff text⟩

end Radix

end FieldAutomation
