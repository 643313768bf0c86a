import FieldAutomation.Proofs.Stream.Layout
import Mathlib.Data.List.Induction

/-!
# Reading a field back

A field whose layout lies at the cursor is read back as the value that was packed, cut to the bits
that were kept of it, whatever the stream holds behind it.

* `FieldData.Fits`: which fields a packed one can be read into;
* `FieldData.carried`: what such a field holds afterwards;
* `TextEnds`: what has to follow a text whose length is not known;
* `Packer.Skipped`: a packer after reading bits, and otherwise unchanged.

Main statement: `Packer.unpackData_of_remaining`.
-/

namespace FieldAutomation

/-- How many bits the element at a place keeps when `total` bits of an array are packed. -/
def keptBits (unit total place : Nat) : Nat := min (total - unit * place) unit

/-- The elements of an array, each cut to the bits that it keeps.  Elements enter the stream from
the last one on when big-endian. -/
def keptElements (bigEndian : Bool) (unit total : Nat) (values : List Nat) : List Nat :=
  values.mapIdx fun i v =>
    Bits.truncate v (keptBits unit total (if bigEndian then values.length - 1 - i else i))

/-- A text of unknown length is read up to a zero byte or the end of the stream. -/
def TextEnds (rest : List Bool) : Prop := rest.length < 8 ∨ List.replicate 8 false <+: rest

theorem textEnds_terminator_append {s : PackerSettings} {rest : List Bool}
    (h : s.useMetadata = true ∨ TextEnds rest) : TextEnds (s.terminator ++ rest) := by
  unfold PackerSettings.terminator
  split
  case isTrue => exact Or.inr (List.prefix_append ..)
  case isFalse hm => exact h.resolve_left hm

namespace FieldData

/-- `d.Fits into` says that `d` can be unpacked into the field `into`: both are of one kind, size
and length.  A text is read by its length in bytes, or by none when it holds no zero. -/
def Fits : FieldData → FieldData → Prop
  | int _ size _, int _ size' _ | wide _ size _, wide _ size' _ => size' = size
  | str text _, str _ (some length) => length = Utf8.size text
  | str text _, str _ none => '\x00' ∉ text.toList
  | array kind values size _, array kind' values' size' _ =>
    kind' = kind ∧ values'.length = values.length ∧ size' = size
  | elements values size _, elements values' size' _ =>
    values'.length = values.length ∧ size' = size
  | real _, real _ | time .., time .. | generic .., generic .. | child _, child _
  | probe, probe => True
  | _, _ => False

/-- What the field `into` holds after `d` was unpacked into it: the low bits of numbers, the bits
of elements that were packed, and texts, times and real numbers in full. -/
def carried (bigEndian : Bool) : FieldData → FieldData → FieldData
  | int v size _, int _ _ radix => int (Bits.truncate v size) size radix
  | wide v size _, wide _ _ radix => wide (Bits.truncate v size) size radix
  | real x, real _ => real x
  | str text _, str _ length => str text length
  | time t _, time _ radix => time (Bits.truncate t 64) radix
  | array kind values size _, array _ _ _ radix =>
    array kind
      (keptElements bigEndian kind.unit (size.getD (values.length * kind.unit)) values) size radix
  | elements values size _, elements _ _ radix =>
    elements (values.map fun v => Bits.truncate v size) size radix
  | _, into => into

/-- A text field that is read by no length. -/
def ReadsToEnd : FieldData → Prop
  | str _ none => True
  | _ => False

end FieldData

namespace Packer

variable {p q : Packer} {rest : List Bool}

/-- `q` is `p` after reading `count` bits. -/
def Skipped (p q : Packer) (count : Nat) : Prop := q = { p.advance count with notes := q.notes }

namespace Skipped

variable {count : Nat}

theorem settings (h : Skipped p q count) : q.settings = p.settings := by
  rw [h]
  rfl

theorem errors (h : Skipped p q count) : q.errors = p.errors := by
  rw [h]
  rfl

theorem reporter (h : Skipped p q count) : q.reporter = p.reporter := by
  rw [h]
  rfl

theorem visits (h : Skipped p q count) : q.visits = p.visits := by
  rw [h]
  rfl

theorem size (h : Skipped p q count) : q.size = p.size := by
  rw [h]
  rfl

theorem cursor (h : Skipped p q count) : q.cursor = p.cursor + count := by
  rw [h]
  rfl

theorem remaining {bits : List Bool} (h : Skipped p q bits.length)
    (hr : p.remaining = bits ++ rest) : q.remaining = rest := by
  rw [h]
  exact remaining_advance hr

theorem trans {r : Packer} {m n : Nat} (h : Skipped p q m) (h' : Skipped q r n) :
    Skipped p r (m + n) := by
  have hr : r = { q.advance n with notes := r.notes } := h'
  rw [h] at hr
  rw [Skipped, ← advance_advance]
  exact hr

end Skipped

/-! ### Numbers -/

theorem readField_of_remaining {v size : Nat}
    (h : p.remaining = p.settings.numberBits v size ++ rest) :
    p.readField size = (Bits.truncate v size, p.advance size) := by
  rw [← toList_ordered] at h
  rw [readField, read_of_remaining h, ordered_ordered]
  rfl

theorem unpackInt_of_remaining {v size : Nat} (hs : size ≤ 64)
    (h : p.remaining = p.settings.numberBits v size ++ rest) :
    p.unpackInt size = (Bits.truncate v size, p.advance size) := by
  have hn := shortage?_eq_none h "integral"
  rw [PackerSettings.length_numberBits] at hn
  rw [unpackInt, if_neg (by omega), hn]
  exact readField_of_remaining h

theorem unpackWide_of_remaining {v size : Nat} (hs : size ≤ maxFieldBits)
    (h : p.remaining = p.settings.numberBits v size ++ rest) :
    p.unpackWide size = (Bits.truncate v size, p.advance size) := by
  unfold unpackWide
  split
  case isTrue h64 => exact unpackInt_of_remaining h64 h
  case isFalse =>
    have hn := shortage?_eq_none h "integral"
    rw [PackerSettings.length_numberBits] at hn
    rw [if_neg (by omega), hn]
    exact (p.readWide_eq_readField size).trans (readField_of_remaining h)

/-- The mark that was written is read back; without metadata an object always follows. -/
theorem unpackMarker_of_remaining {follows : Bool}
    (h : p.remaining = p.settings.mark follows ++ rest) :
    p.unpackMarker =
      (follows || !p.settings.useMetadata, p.advance (p.settings.mark follows).length) := by
  unfold unpackMarker
  unfold PackerSettings.mark at h ⊢
  split at h
  case isTrue hm =>
    have hb : (Bits.truncate follows.toNat markerBits != 0) = follows := by
      cases follows <;> decide
    simp only [unpackInt_of_remaining (by decide) h, hb, hm, if_true, Bool.not_true,
      Bool.or_false, PackerSettings.length_numberBits]
  case isFalse hm => simp [hm]

theorem unpackElements_of_remaining {values : List Nat} {size : Nat} (hs : size ≤ 64)
    (h : p.remaining = (values.flatMap fun v => p.settings.numberBits v size) ++ rest) :
    unpackElements size values.length p =
      (values.map fun v => Bits.truncate v size, p.advance (values.length * size)) := by
  induction values generalizing p with
  | nil => simp [unpackElements]
  | cons v values ih =>
    rw [List.flatMap_cons, List.append_assoc] at h
    have hr := remaining_advance h
    rw [PackerSettings.length_numberBits] at hr
    rw [List.length_cons, unpackElements, unpackInt_of_remaining hs h]
    simp only [ih hr, advance_advance, List.map_cons, Nat.add_one_mul, Nat.add_comm]

/-! ### Arrays -/

theorem readElements_succ (unit count remaining : Nat) (p : Packer) :
    readElements unit (count + 1) remaining p =
      (p.store.read p.cursor (min remaining unit) ::
          (readElements unit count (remaining - min remaining unit)
            (p.advance (min remaining unit))).1,
        (readElements unit count (remaining - min remaining unit)
          (p.advance (min remaining unit))).2) := rfl

theorem readElements_of_remaining {unit total : Nat} {values : List Nat}
    (h : p.remaining = PackerSettings.elementBits unit values total ++ rest)
    (ht : total ≤ values.length * unit) :
    readElements unit values.length total p =
      (keptElements false unit total values, p.advance total) := by
  induction values generalizing p total with
  | nil => simp [readElements, keptElements, show total = 0 by simpa using ht]
  | cons v values ih =>
    rw [PackerSettings.elementBits, List.append_assoc] at h
    rw [List.length_cons, Nat.add_one_mul] at ht
    have hr := remaining_advance h
    rw [Bits.length_toList] at hr
    have hi := ih hr (by omega)
    have hv := read_of_remaining h
    -- behind the first element all are one place further on, with that many bits fewer
    have hk : ∀ i, keptBits unit (total - min total unit) i = keptBits unit total (i + 1) := by
      intro i
      rw [keptBits, keptBits, Nat.mul_add_one]
      omega
    have hw : min total unit + (total - min total unit) = total := by omega
    rw [List.length_cons, readElements_succ, hv, hi, advance_advance, hw]
    have h0 : keptBits unit total 0 = min total unit := by simp [keptBits]
    simp [keptElements, List.mapIdx_cons, hk, h0]

/-- Elements that enter the stream in the opposite order keep the bits of their place there. -/
theorem reverse_keptElements (unit total : Nat) (values : List Nat) :
    (keptElements false unit total values.reverse).reverse =
      keptElements true unit total values := by
  apply List.ext_getElem
  · simp [keptElements]
  · intro i hi hj
    have hi' : i < values.length := by simpa [keptElements] using hi
    simp [keptElements]

theorem unpackArray_of_remaining {kind : ArrayKind} {values : List Nat} {size : Option Nat}
    (hall : values.length * kind.unit < UInt64.size)
    (hs : ∀ n ∈ size, n ≤ values.length * kind.unit)
    (h : p.remaining = p.settings.arrayBits kind.unit values
      (size.getD (values.length * kind.unit)) ++ rest) :
    p.unpackArray kind values.length size =
      (keptElements p.settings.bigEndian kind.unit (size.getD (values.length * kind.unit)) values,
        p.advance (size.getD (values.length * kind.unit))) := by
  have ht : size.getD (values.length * kind.unit) ≤ values.length * kind.unit := by
    cases size with
    | none => exact Nat.le_refl _
    | some n => exact hs n rfl
  have hn := fun what => shortage?_eq_none h what
  simp only [PackerSettings.length_arrayBits _ ht] at hn
  simp only [unpackArray, Size.mul_of_lt hall, arrayBits_eq_ok hs, hn]
  unfold PackerSettings.arrayBits at h
  split at h
  case isTrue hb =>
    have hr := readElements_of_remaining h (by simpa using ht)
    rw [List.length_reverse] at hr
    simp [hr, streamOrder, advance, hb, reverse_keptElements]
  case isFalse hb =>
    simp [readElements_of_remaining h ht, streamOrder, advance, hb]

/-! ### Texts -/

theorem ofBytes_append_singleton (bytes : List Nat) (b : Nat) :
    ofBytes (bytes ++ [b]) = 256 * ofBytes bytes + b := by
  simp [ofBytes]

theorem toBytes_ofBytes {bytes : List Nat} (h : ∀ b ∈ bytes, b < 256) :
    toBytes (ofBytes bytes) bytes.length = bytes := by
  induction bytes using List.reverseRecOn with
  | nil => rfl
  | append_singleton bytes b ih =>
    have hb : b < 256 := h b (by simp)
    have hd : (256 * ofBytes bytes + b) / 256 = ofBytes bytes := by omega
    have hm : (256 * ofBytes bytes + b) % 256 = b := by omega
    rw [ofBytes_append_singleton, List.length_append, List.length_singleton, toBytes, hd, hm,
      ih fun c hc => h c (List.mem_append_left _ hc)]

/-- The low bytes of a number are those of its low bits. -/
theorem toBytes_truncate (v count : Nat) :
    toBytes (Bits.truncate v (8 * count)) count = toBytes v count := by
  induction count generalizing v with
  | zero => rfl
  | succ count ih =>
    -- the lowest byte and the rest are cut apart
    have hp : 2 ^ (8 * (count + 1)) = 256 * 2 ^ (8 * count) := by
      rw [Nat.mul_add_one, Nat.pow_add, Nat.mul_comm]
    have hd : Bits.truncate v (8 * (count + 1)) / 256 = Bits.truncate (v / 256) (8 * count) := by
      rw [Bits.truncate_eq_mod, Bits.truncate_eq_mod, hp, Nat.mod_mul_right_div_self]
    have hm : Bits.truncate v (8 * (count + 1)) % 256 = v % 256 := by
      rw [Bits.truncate_eq_mod, hp, Nat.mod_mul_right_mod]
    rw [toBytes, toBytes, hd, hm, ih]

/-- The bits of a text, byte by byte: its last byte comes first. -/
theorem toList_ofBytes {bytes : List Nat} (h : ∀ b ∈ bytes, b < 256) :
    Bits.toList (ofBytes bytes) (8 * bytes.length) =
      bytes.reverse.flatMap fun b => Bits.toList b 8 := by
  -- from the end, where the low byte stands
  induction bytes using List.reverseRecOn with
  | nil => rfl
  | append_singleton bytes b ih =>
    have hb : b < 256 := h b (by simp)
    have hs : (256 * ofBytes bytes + b) >>> 8 = ofBytes bytes := by
      rw [Nat.shiftRight_eq_div_pow]
      omega
    have hl : Bits.toList (256 * ofBytes bytes + b) 8 = Bits.toList b 8 := by
      apply List.ext_getElem
      · simp
      · intro j hj _
        have hj' : j < 8 := by simpa using hj
        have ht := Nat.testBit_two_pow_mul_add (ofBytes bytes) (i := 8) (by simpa using hb) j
        simpa [hj'] using ht
    rw [List.length_append, List.length_singleton, Nat.mul_add_one, Nat.add_comm,
      ofBytes_append_singleton, Bits.toList_add, hs, hl,
      ih fun c hc => h c (List.mem_append_left _ hc), List.reverse_append]
    rfl

theorem true_mem_toList {b : Nat} (hb : b < 256) (h0 : b ≠ 0) : true ∈ Bits.toList b 8 := by
  obtain ⟨j, hj⟩ := Nat.exists_testBit_of_ne_zero h0
  have hj8 : j < 8 := by
    by_contra h
    have hp := Nat.testBit_lt_two_pow (Nat.lt_of_lt_of_le hb
      (Nat.pow_le_pow_right (n := 2) (by decide) (Nat.not_lt.1 h)))
    simp [hj] at hp
  exact List.mem_map.2 ⟨j, List.mem_range.2 hj8, hj⟩

/-- The bytes of a text in the stream, each with a one among its bits unless it is zero. -/
theorem exists_octets (s : PackerSettings) (text : String) :
    ∃ octets : List (List Bool), s.textBits text = octets.flatten ∧
      octets.length = (Utf8.encode text).length ∧
      ∀ o ∈ octets, o.length = 8 ∧ ('\x00' ∉ text.toList → true ∈ o) := by
  have hlt : ∀ b ∈ Utf8.encode text, b < 256 := fun b => Utf8.lt_of_mem_encode
  have hone : ∀ b ∈ Utf8.encode text, '\x00' ∉ text.toList → true ∈ Bits.toList b 8 := by
    intro b hb hz
    refine true_mem_toList (hlt b hb) ?_
    rintro rfl
    exact hz (Utf8.zero_mem_encode_iff.1 hb)
  unfold PackerSettings.textBits PackerSettings.numberBits
  rw [toList_ofBytes hlt]
  cases s.bigEndian with
  | true =>
    refine ⟨(Utf8.encode text).map fun b => (Bits.toList b 8).reverse, ?_, by simp, ?_⟩
    · rw [if_pos rfl, List.reverse_flatMap, List.reverse_reverse, List.flatMap_def]
      rfl
    · simp only [List.mem_map]
      rintro o ⟨b, hb, rfl⟩
      exact ⟨by simp, fun hz => List.mem_reverse.2 (hone b hb hz)⟩
  | false =>
    refine ⟨(Utf8.encode text).reverse.map fun b => Bits.toList b 8, ?_, by simp, ?_⟩
    · simp [List.flatMap_def]
    · simp only [List.mem_map, List.mem_reverse]
      rintro o ⟨b, hb, rfl⟩
      exact ⟨by simp, hone b hb⟩

/-- The search for the end of a text passes the bytes that are not zero and stops behind them. -/
theorem bytesBeforeZero_of_remaining {octets : List (List Bool)}
    (ho : ∀ o ∈ octets, o.length = 8 ∧ true ∈ o) (h : p.remaining = octets.flatten ++ rest)
    (hend : TextEnds rest) :
    bytesBeforeZero p.store (p.available / 8) p.cursor = octets.length := by
  induction octets generalizing p with
  | nil =>
    rw [List.flatten_nil, List.nil_append] at h
    -- fewer than eight bits are left, or the next eight are zeros
    rcases hend with hend | ⟨more, hend⟩
    · rw [← length_remaining, h, Nat.div_eq_of_lt hend]
      rfl
    · have hz : p.remaining = Bits.toList 0 8 ++ more := by
        rw [h, ← hend, Bits.toList_zero_left]
      have hle := length_le_available hz
      rw [Bits.length_toList] at hle
      obtain ⟨k, hk⟩ : ∃ k, p.available / 8 = k + 1 := ⟨p.available / 8 - 1, by omega⟩
      rw [hk, bytesBeforeZero, read_of_remaining hz, if_pos (by decide)]
      rfl
  | cons o octets ih =>
    obtain ⟨ho8, hone⟩ := ho o (by simp)
    rw [List.flatten_cons, List.append_assoc] at h
    have hle := length_le_available h
    have hr := remaining_advance h
    rw [ho8] at hle hr
    have hi := ih (fun o' h' => ho o' (List.mem_cons_of_mem _ h')) hr
    -- a byte that is read as zero would have no one among its bits
    have hne : p.store.read p.cursor 8 ≠ 0 := by
      intro h0
      have hb := (bitsFrom_cursor h).1
      rw [ho8, ← BitStore.toList_read, h0] at hb
      rw [← hb, Bits.toList_zero_left] at hone
      simp at hone
    obtain ⟨k, hk⟩ : ∃ k, p.available / 8 = k + 1 := ⟨p.available / 8 - 1, by omega⟩
    have hk' : (p.advance 8).available / 8 = k := by
      simp only [available, advance] at hk ⊢
      omega
    rw [hk'] at hi
    rw [hk, bytesBeforeZero, if_neg hne, show p.cursor + 8 = (p.advance 8).cursor from rfl,
      show p.store = (p.advance 8).store from rfl, hi, List.length_cons]

/-- The bytes of a text are read back as the text. -/
theorem decode_readField_of_remaining {text : String}
    (h : p.remaining = p.settings.textBits text ++ rest) :
    Utf8.decodeLossy (toBytes (p.readField (8 * (Utf8.encode text).length)).1
      (Utf8.encode text).length) = text := by
  rw [readField_of_remaining h, toBytes_truncate, toBytes_ofBytes fun b => Utf8.lt_of_mem_encode,
    Utf8.decodeLossy_encode]

theorem eq_empty_of_encode_eq_nil {text : String} (h : Utf8.encode text = []) : text = "" := by
  rw [← Utf8.decodeLossy_encode text, h]
  simp [Utf8.decodeLossy, Utf8.decodeChars]

/-- The search for the end of a text finds its length. -/
theorem getD_bytesBeforeZero_of_remaining {text : String} {length : Option Nat}
    (hlen : ∀ n ∈ length, n = Utf8.size text)
    (hend : length = none → '\x00' ∉ text.toList ∧ TextEnds rest)
    (h : p.remaining = p.settings.textBits text ++ rest) :
    length.getD (bytesBeforeZero p.store (p.available / 8) p.cursor) =
      (Utf8.encode text).length := by
  cases length with
  | some n => rw [Utf8.length_encode_eq_size, Option.getD_some, hlen n rfl]
  | none =>
    obtain ⟨hz, hend⟩ := hend rfl
    obtain ⟨octets, ht, hl, ho⟩ := exists_octets p.settings text
    rw [ht] at h
    rw [Option.getD_none, bytesBeforeZero_of_remaining
      (fun o hm => ⟨(ho o hm).1, (ho o hm).2 hz⟩) h hend, hl]

/-- A text is read back, and the zero byte behind it skipped if metadata is used. -/
theorem unpackString_of_remaining {text : String} {length : Option Nat}
    (hall : 8 * Utf8.size text < UInt64.size) (hlen : ∀ n ∈ length, n = Utf8.size text)
    (hend : length = none → '\x00' ∉ text.toList ∧ TextEnds (p.settings.terminator ++ rest))
    (h : p.remaining = p.settings.textBits text ++ (p.settings.terminator ++ rest)) :
    p.unpackString length =
      (text, p.advance (8 * (Utf8.encode text).length + p.settings.terminator.length)) := by
  have hcount := getD_bytesBeforeZero_of_remaining hlen hend h
  have hs := shortage?_eq_none h "string"
  have hr := remaining_advance h
  rw [PackerSettings.length_textBits] at hs hr
  -- the empty text is told without reading, which comes to the same
  have ht : (if (Utf8.encode text).length = 0 then ("", p)
      else (text, p.advance (8 * (Utf8.encode text).length))) =
        (text, p.advance (8 * (Utf8.encode text).length)) := by
    split
    case isTrue h0 => rw [h0, eq_empty_of_encode_eq_nil (List.eq_nil_of_length_eq_zero h0)]; rfl
    case isFalse => rfl
  have hd := decode_readField_of_remaining h
  rw [readField_of_remaining h] at hd
  rw [← Utf8.length_encode_eq_size] at hall
  simp only [unpackString, hcount, Size.mul_of_lt hall, hs, readWide_eq_readField,
    readField_of_remaining h, hd, ht, settings_advance]
  by_cases hm : p.settings.useMetadata = true
  · have hterm : p.settings.terminator = List.replicate 8 false := if_pos hm
    rw [hterm] at hr ⊢
    have hz := shortage?_eq_none hr "string"
    rw [List.length_replicate] at hz ⊢
    rw [if_pos hm, hz, ← advance_advance]
    rfl
  · simp [PackerSettings.terminator, hm]

/-- A field whose layout lies at the cursor is read back, and nothing but its bits is read. -/
theorem unpackData_of_remaining {d into : FieldData} (hl : d.WithinLimits) (hf : d.Fits into)
    (hend : into.ReadsToEnd → TextEnds (p.settings.terminator ++ rest))
    (h : p.remaining = d.layout p.settings ++ rest) :
    (unpackData into p).1 = d.carried p.settings.bigEndian into ∧
      Skipped p (unpackData into p).2 (d.layout p.settings).length := by
  -- fields of different kinds do not fit
  cases d <;> cases into <;> try exact hf.elim
  case int.int v size radix _ _ _ =>
    cases hf
    simp only [unpackData, unpackInt_of_remaining hl h, FieldData.layout,
      PackerSettings.length_numberBits]
    exact ⟨rfl, rfl⟩
  case wide.wide v size radix _ _ _ =>
    cases hf
    simp only [unpackData, unpackWide_of_remaining hl h, FieldData.layout,
      PackerSettings.length_numberBits]
    exact ⟨rfl, rfl⟩
  case real.real x _ =>
    have hx : Binary64.ofNat (Bits.truncate x.toNat 64) = x := by
      rw [Bits.truncate_of_lt x.toNat_lt, Binary64.ofNat_toNat]
    simp only [unpackData, unpackReal, unpackInt_of_remaining (by decide) h, hx,
      FieldData.layout, PackerSettings.length_numberBits]
    exact ⟨rfl, rfl⟩
  case str.str text _ _ length =>
    have hlen : ∀ n ∈ length, n = Utf8.size text := by
      rintro n ⟨⟩
      exact hf
    have hz : length = none → '\x00' ∉ text.toList ∧ TextEnds (p.settings.terminator ++ rest) := by
      rintro rfl
      exact ⟨hf, hend trivial⟩
    rw [FieldData.layout, List.append_assoc] at h
    simp only [unpackData, unpackString_of_remaining hl hlen hz h, FieldData.layout,
      List.length_append, PackerSettings.length_textBits]
    exact ⟨rfl, rfl⟩
  case time.time t _ _ _ =>
    simp only [unpackData, unpackTime, unpackInt_of_remaining (by decide) h, FieldData.layout,
      PackerSettings.length_numberBits]
    exact ⟨rfl, rfl⟩
  case array.array _ values _ _ kind values' size _ =>
    obtain ⟨rfl, hlen, rfl⟩ := hf
    obtain ⟨hall, hs⟩ := hl
    have ht : size.getD (values.length * kind.unit) ≤ values.length * kind.unit := by
      cases size with
      | none => exact Nat.le_refl _
      | some n => exact hs n rfl
    simp only [unpackData, hlen, unpackArray_of_remaining hall hs h, FieldData.layout,
      PackerSettings.length_arrayBits _ ht]
    exact ⟨rfl, rfl⟩
  case elements.elements values _ _ values' size _ =>
    obtain ⟨hlen, rfl⟩ := hf
    simp only [unpackData, hlen, unpackElements_of_remaining hl h,
      FieldData.length_layout (d := .elements values size _) hl, FieldData.packedWidth]
    exact ⟨rfl, rfl⟩
  all_goals exact ⟨rfl, rfl⟩

end Packer

end FieldAutomation
