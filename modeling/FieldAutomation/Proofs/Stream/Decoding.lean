import Mathlib.Data.Nat.Bitwise
import Mathlib.Data.Set.Function
import FieldAutomation.Proofs.Stream.RoundTrip
import FieldAutomation.Proofs.Stream.Transport

/-!
# Unpacking as a decoding

Fields without texts take the same number of bits whatever they hold, and every string of that
many bits is the layout of some values.  Unpacking is then one half of a bijection, and packing
the other.

* `FieldData.IsNumeric`: the fields that are not texts, objects or probes;
* `FieldData.InRange`: the values that a field has room for, element by element in an array that
  is packed in part.

Main statement: `Packer.decoding_bijOn`.
-/

namespace FieldAutomation

/-- Bits are those of a number that is not too large for them. -/
theorem Bits.exists_toList (bits : List Bool) :
    ∃ v < 2 ^ bits.length, Bits.toList v bits.length = bits := by
  refine ⟨Nat.ofBits fun i : Fin bits.length => bits[i], Nat.ofBits_lt_two_pow _, ?_⟩
  apply List.ext_getElem
  · simp
  · intro i hi hi'
    rw [Bits.getElem_toList, Nat.testBit_ofBits_lt _ _ hi']
    rfl

namespace PackerSettings

variable (s : PackerSettings)

theorem exists_numberBits (bits : List Bool) :
    ∃ v < 2 ^ bits.length, s.numberBits v bits.length = bits := by
  unfold numberBits
  split
  · obtain ⟨v, hv, hbits⟩ := Bits.exists_toList bits.reverse
    rw [List.length_reverse] at hv hbits
    exact ⟨v, hv, by rw [hbits, List.reverse_reverse]⟩
  · exact Bits.exists_toList bits

/-- Bits are those of a list of numbers, if they are as many as the numbers take. -/
theorem exists_flatMap_numberBits {size count : Nat} {bits : List Bool}
    (h : bits.length = count * size) :
    ∃ values : List Nat, values.length = count ∧ (∀ v ∈ values, v < 2 ^ size) ∧
      (values.flatMap fun v => s.numberBits v size) = bits := by
  induction count generalizing bits with
  | zero =>
    have hbits : bits = [] := List.eq_nil_of_length_eq_zero (by simpa using h)
    exact ⟨[], rfl, by simp, by simp [hbits]⟩
  | succ count ih =>
    rw [Nat.add_one_mul] at h
    have htake : (bits.take size).length = size := by
      rw [List.length_take]
      omega
    obtain ⟨v, hv, hbits⟩ := s.exists_numberBits (bits.take size)
    have hdrop : (bits.drop size).length = count * size := by
      rw [List.length_drop]
      omega
    obtain ⟨values, hlen, hlt, hrest⟩ := ih hdrop
    rw [htake] at hv hbits
    refine ⟨v :: values, by simp [hlen], ?_, ?_⟩
    · simpa using ⟨hv, hlt⟩
    · rw [List.flatMap_cons, hbits, hrest, List.take_append_drop]

/-- Bits are those of elements, none of which is larger than what is kept of it. -/
theorem exists_elementBits {unit count : Nat} {bits : List Bool} (h : bits.length ≤ count * unit) :
    ∃ values : List Nat, values.length = count ∧
      (∀ i (hi : i < values.length), values[i] < 2 ^ keptBits unit bits.length i) ∧
      elementBits unit values bits.length = bits := by
  induction count generalizing bits with
  | zero =>
    have hbits : bits = [] := List.eq_nil_of_length_eq_zero (by simpa using h)
    exact ⟨[], rfl, by simp, by simp [hbits, elementBits]⟩
  | succ count ih =>
    rw [Nat.add_one_mul] at h
    have htake : (bits.take unit).length = min bits.length unit := by
      rw [List.length_take, Nat.min_comm]
    have hdrop : (bits.drop unit).length = bits.length - min bits.length unit := by
      rw [List.length_drop]
      omega
    obtain ⟨v, hv, hbits⟩ := Bits.exists_toList (bits.take unit)
    have hle : (bits.drop unit).length ≤ count * unit := by omega
    obtain ⟨values, hlen, hlt, hrest⟩ := ih hle
    rw [htake] at hv hbits
    rw [hdrop] at hlt hrest
    -- behind the first element all are one place further on, with that many bits fewer
    have hk : ∀ i, keptBits unit (bits.length - min bits.length unit) i =
        keptBits unit bits.length (i + 1) := by
      intro i
      rw [keptBits, keptBits, Nat.mul_add_one]
      omega
    refine ⟨v :: values, by simp [hlen], ?_, ?_⟩
    · intro i hi
      cases i with
      | zero => simpa [keptBits] using hv
      | succ i =>
        have hi' : i < values.length := by simpa using hi
        simpa [hk] using hlt i hi'
    · rw [elementBits, hbits, hrest, List.take_append_drop]

/-- Bits are those of an array, in either order of elements. -/
theorem exists_arrayBits {unit count : Nat} {bits : List Bool} (h : bits.length ≤ count * unit) :
    ∃ values : List Nat, values.length = count ∧
      (∀ i (hi : i < values.length),
        values[i] < 2 ^ keptBits unit bits.length (if s.bigEndian then count - 1 - i else i)) ∧
      s.arrayBits unit values bits.length = bits := by
  obtain ⟨values, hlen, hlt, hbits⟩ := exists_elementBits h
  unfold arrayBits
  split
  case isFalse => exact ⟨values, hlen, hlt, hbits⟩
  case isTrue =>
    refine ⟨values.reverse, by rw [List.length_reverse, hlen], fun i hi => ?_, ?_⟩
    · rw [List.length_reverse] at hi
      rw [List.getElem_reverse, ← hlen]
      exact hlt _ (by omega)
    · rw [List.reverse_reverse, hbits]

end PackerSettings

namespace FieldData

variable {d into : FieldData} {bits : List Bool} {bigEndian : Bool}

/-- Fields that are not texts, objects or probes. -/
def IsNumeric : FieldData → Prop
  | int .. | wide .. | real _ | time .. | array .. | elements .. => True
  | _ => False

/-- `into.InRange bigEndian d`: the field `into` has room for the value of `d`, and is like it in
all else.  An element of an array has room for the bits that are kept of it. -/
def InRange (bigEndian : Bool) : FieldData → FieldData → Prop
  | int _ size radix, int v size' radix' | wide _ size radix, wide v size' radix' =>
    size' = size ∧ radix' = radix ∧ v < 2 ^ size
  | real _, real _ => True
  | time _ radix, time t radix' => radix' = radix ∧ t < 2 ^ 64
  | array kind values size radix, array kind' values' size' radix' =>
    kind' = kind ∧ values'.length = values.length ∧ size' = size ∧ radix' = radix ∧
      ∀ i (h : i < values'.length), values'[i] <
        2 ^ keptBits kind.unit (size.getD (values.length * kind.unit))
          (if bigEndian then values.length - 1 - i else i)
  | elements values size radix, elements values' size' radix' =>
    values'.length = values.length ∧ size' = size ∧ radix' = radix ∧ ∀ v ∈ values', v < 2 ^ size
  | _, _ => False

/-- What is in the range of a field can be unpacked into it. -/
theorem InRange.fits (h : into.InRange bigEndian d) : d.Fits into := by
  cases into <;> cases d <;> try exact h.elim
  case int.int => exact h.1.symm
  case wide.wide => exact h.1.symm
  case array.array =>
    obtain ⟨hkind, hlen, hsize, -, -⟩ := h
    exact ⟨hkind.symm, hlen.symm, hsize.symm⟩
  case elements.elements =>
    obtain ⟨hlen, hsize, -, -⟩ := h
    exact ⟨hlen.symm, hsize.symm⟩
  all_goals trivial

theorem InRange.withinLimits (h : into.InRange bigEndian d) (hl : into.WithinLimits) :
    d.WithinLimits := by
  cases into <;> cases d <;> try exact h.elim
  case int.int => exact h.1 ▸ hl
  case wide.wide => exact h.1 ▸ hl
  case array.array _ _ _ _ _ _ size _ =>
    obtain ⟨rfl, hlen, rfl, -, -⟩ := h
    simpa only [WithinLimits, hlen] using hl
  case elements.elements => exact h.2.1 ▸ hl
  all_goals trivial

theorem InRange.not_readsToEnd (h : into.InRange bigEndian d) : ¬ into.ReadsToEnd := by
  cases into <;> cases d <;> first | exact h.elim | exact id

/-- Elements that are not too large are kept. -/
theorem keptElements_eq_self {unit total : Nat} {values : List Nat}
    (h : ∀ i (hi : i < values.length),
      values[i] < 2 ^ keptBits unit total (if bigEndian then values.length - 1 - i else i)) :
    keptElements bigEndian unit total values = values := by
  apply List.ext_getElem
  · simp [keptElements]
  · intro i _ hi
    simp only [keptElements, List.getElem_mapIdx]
    exact Bits.truncate_of_lt (h i hi)

/-- What is in the range of a field is carried into it as it is. -/
theorem InRange.carried_eq (h : into.InRange bigEndian d) : d.carried bigEndian into = d := by
  cases into <;> cases d <;> try exact h.elim
  case int.int =>
    obtain ⟨rfl, rfl, hv⟩ := h
    rw [carried, Bits.truncate_of_lt hv]
  case wide.wide =>
    obtain ⟨rfl, rfl, hv⟩ := h
    rw [carried, Bits.truncate_of_lt hv]
  case real.real => rfl
  case time.time =>
    obtain ⟨rfl, ht⟩ := h
    rw [carried, Bits.truncate_of_lt ht]
  case array.array =>
    obtain ⟨rfl, hlen, rfl, rfl, hlt⟩ := h
    rw [← hlen] at hlt
    rw [carried, keptElements_eq_self hlt]
  case elements.elements values _ _ =>
    obtain ⟨-, rfl, rfl, hlt⟩ := h
    have hmap : ∀ v ∈ values, Bits.truncate v _ = v := fun v hv => Bits.truncate_of_lt (hlt v hv)
    rw [carried, List.map_congr_left hmap, List.map_id']

/-- The layout of a value in range is as wide as its field. -/
theorem InRange.packedWidth_eq (h : into.InRange bigEndian d) (s : PackerSettings) :
    d.packedWidth s = into.packedWidth s := by
  cases into <;> cases d <;> try exact h.elim
  case int.int => exact h.1
  case wide.wide => exact h.1
  case array.array =>
    obtain ⟨rfl, hlen, rfl, -, -⟩ := h
    simp only [packedWidth, hlen]
  case elements.elements =>
    obtain ⟨hlen, rfl, -, -⟩ := h
    simp only [packedWidth, hlen]
  all_goals rfl

/-- The layout of a value in range depends on the order of bits alone. -/
theorem InRange.layout_congr (h : into.InRange bigEndian d) {s t : PackerSettings}
    (hst : s.bigEndian = t.bigEndian) : d.layout s = d.layout t := by
  cases into <;> cases d <;> try exact h.elim
  all_goals simp only [layout, PackerSettings.numberBits, PackerSettings.arrayBits, hst]

/-- **Every string of bits is a layout**: of a value that the field has room for. -/
theorem exists_inRange (s : PackerSettings) (hn : into.IsNumeric) (hl : into.WithinLimits)
    (hb : bits.length = into.packedWidth s) :
    ∃ d, into.InRange s.bigEndian d ∧ d.layout s = bits := by
  cases into with
  | int v size radix =>
    obtain rfl : bits.length = size := hb
    obtain ⟨v, hv, hbits⟩ := s.exists_numberBits bits
    exact ⟨int v bits.length radix, ⟨rfl, rfl, hv⟩, hbits⟩
  | wide v size radix =>
    obtain rfl : bits.length = size := hb
    obtain ⟨v, hv, hbits⟩ := s.exists_numberBits bits
    exact ⟨wide v bits.length radix, ⟨rfl, rfl, hv⟩, hbits⟩
  | real x =>
    obtain ⟨v, hv, hbits⟩ := s.exists_numberBits bits
    have h64 : bits.length = 64 := hb
    rw [h64] at hv hbits
    have hsize : v < UInt64.size := by simpa [UInt64.size] using hv
    refine ⟨real (.ofNat v), trivial, ?_⟩
    rw [layout, Binary64.toNat_ofNat, Nat.mod_eq_of_lt hsize, hbits]
  | time t radix =>
    obtain ⟨v, hv, hbits⟩ := s.exists_numberBits bits
    have h64 : bits.length = 64 := hb
    rw [h64] at hv hbits
    exact ⟨time v radix, ⟨rfl, hv⟩, hbits⟩
  | array kind values size radix =>
    have ht : size.getD (values.length * kind.unit) ≤ values.length * kind.unit := by
      cases size with
      | none => exact Nat.le_refl _
      | some n => exact hl.2 n rfl
    have hb : bits.length = size.getD (values.length * kind.unit) := hb
    rw [← hb] at ht
    obtain ⟨values', hlen, hlt, hbits⟩ := s.exists_arrayBits ht
    rw [hb] at hlt hbits
    refine ⟨array kind values' size radix, ⟨rfl, hlen, rfl, rfl, hlt⟩, ?_⟩
    rw [layout, hlen, hbits]
  | elements values size radix =>
    obtain ⟨values', hlen, hlt, hbits⟩ := s.exists_flatMap_numberBits hb
    exact ⟨elements values' size radix, ⟨hlen, rfl, rfl, hlt⟩, hbits⟩
  | str _ _ | generic _ _ | child _ | probe => exact hn.elim

/-- Every string of bits is the layout of values in range. -/
theorem exists_inRange_all (s : PackerSettings) {fields : List FieldData}
    (hn : ∀ d ∈ fields, d.IsNumeric) (hl : ∀ d ∈ fields, d.WithinLimits)
    (hb : bits.length = totalWidth s fields) :
    ∃ values, List.Forall₂ (InRange s.bigEndian) fields values ∧ layoutAll s values = bits := by
  induction fields generalizing bits with
  | nil => exact ⟨[], .nil, (List.eq_nil_of_length_eq_zero hb).symm⟩
  | cons into rest ih =>
    rw [totalWidth] at hb
    have htake : (bits.take (into.packedWidth s)).length = into.packedWidth s := by
      rw [List.length_take]
      omega
    have hdrop : (bits.drop (into.packedWidth s)).length = totalWidth s rest := by
      rw [List.length_drop]
      omega
    obtain ⟨d, hd, hbits⟩ := exists_inRange s (hn into (by simp)) (hl into (by simp)) htake
    obtain ⟨values, hvalues, hrest⟩ :=
      ih (fun e he => hn e (by simp [he])) (fun e he => hl e (by simp [he])) hdrop
    refine ⟨d :: values, .cons hd hvalues, ?_⟩
    rw [layoutAll, List.flatMap_cons, ← layoutAll, hbits, hrest, List.take_append_drop]

variable {fields values : List FieldData}

theorem withinLimits_of_inRange (h : List.Forall₂ (InRange bigEndian) fields values)
    (hl : ∀ d ∈ fields, d.WithinLimits) : ∀ d ∈ values, d.WithinLimits := by
  induction h with
  | nil => exact hl
  | cons hd _ ih =>
    rw [List.forall_mem_cons] at hl ⊢
    exact ⟨hd.withinLimits hl.1, ih hl.2⟩

theorem totalWidth_of_inRange (h : List.Forall₂ (InRange bigEndian) fields values)
    (s : PackerSettings) : totalWidth s values = totalWidth s fields := by
  induction h with
  | nil => rfl
  | cons hd _ ih => rw [totalWidth, totalWidth, hd.packedWidth_eq, ih]

theorem layoutAll_congr (h : List.Forall₂ (InRange bigEndian) fields values)
    {s t : PackerSettings} (hst : s.bigEndian = t.bigEndian) :
    layoutAll s values = layoutAll t values := by
  induction h with
  | nil => rfl
  | cons hd _ ih =>
    rw [layoutAll, layoutAll, List.flatMap_cons, List.flatMap_cons, hd.layout_congr hst]
    exact congrArg _ ih

end FieldData

namespace Packer

variable {p : Packer} {fields values : List FieldData} {rest : List Bool}

/-- Values in range are unpacked from their layout as they are. -/
theorem unpackAll_of_inRange
    (h : List.Forall₂ (FieldData.InRange p.settings.bigEndian) fields values)
    (hl : ∀ d ∈ fields, d.WithinLimits)
    (hr : p.remaining = FieldData.layoutAll p.settings values ++ rest) :
    (unpackAll fields p).1 = values ∧
      Skipped p (unpackAll fields p).2 (FieldData.layoutAll p.settings values).length := by
  induction fields generalizing p values with
  | nil =>
    cases h
    exact ⟨rfl, rfl⟩
  | cons into later ih =>
    cases h with | cons hd hds
    rw [List.forall_mem_cons] at hl
    rw [FieldData.layoutAll, List.flatMap_cons, List.append_assoc] at hr
    obtain ⟨hv, hs⟩ := unpackData_of_remaining (hd.withinLimits hl.1) hd.fits
      (fun hend => absurd hend hd.not_readsToEnd) hr
    rw [hd.carried_eq] at hv
    have hi := ih (p := (unpackData into p).2) (hs.settings ▸ hds) hl.2
      (hs.settings ▸ hs.remaining hr)
    rw [hs.settings] at hi
    rw [unpackAll, FieldData.layoutAll, List.flatMap_cons, List.length_append]
    exact ⟨by rw [← hv, ← hi.1], hs.trans hi.2⟩

/-- Bits that were loaded are all that remains to be read. -/
theorem remaining_loadBits (p : Packer) (bits : List Bool) :
    (p.loadBits bits).remaining = bits := by
  simpa [remaining, available, BitStore.bitsFrom, bitList, loadBits] using
    p.bitList_loadBits bits

/-- **Packing undoes unpacking.**  For fields within the limits that are not texts, objects or
probes, unpacking is a bijection between the strings of as many bits as the fields take and the
values that the fields have room for.  Its inverse is to pack the values in any packer of the same
order of bits that was reset.  Neither way notes a misuse, and the whole string is read. -/
theorem decoding_bijOn (p q : Packer) (fields : List FieldData)
    (hq : q.settings.bigEndian = p.settings.bigEndian) (hn : ∀ d ∈ fields, d.IsNumeric)
    (hl : ∀ d ∈ fields, d.WithinLimits) :
    let strings := {bits : List Bool | bits.length = FieldData.totalWidth p.settings fields}
    let ranges := {values | List.Forall₂ (FieldData.InRange p.settings.bigEndian) fields values}
    let decode := fun bits => (unpackAll fields (p.loadBits bits)).1
    let encode := fun values => (packAll values q.reset).commit.bitList
    Set.BijOn decode strings ranges ∧ Set.InvOn encode decode strings ranges ∧
      (∀ bits ∈ strings, ∀ last, last = (unpackAll fields (p.loadBits bits)).2 →
        last.errors = p.errors ∧ last.reporter = p.reporter ∧ last.cursor = bits.length) ∧
      ∀ values ∈ ranges, (packAll values q.reset).errors = [] ∧
        (packAll values q.reset).reporter = q.reporter := by
  intro strings ranges decode encode
  -- the values of a string are those whose layout it is
  have hdecode : ∀ values ∈ ranges, ∀ bits,
      FieldData.layoutAll p.settings values = bits →
      decode bits = values ∧
        Skipped (p.loadBits bits) (unpackAll fields (p.loadBits bits)).2 bits.length := by
    rintro values hv bits rfl
    have hr : (p.loadBits (FieldData.layoutAll p.settings values)).remaining =
        FieldData.layoutAll (p.loadBits (FieldData.layoutAll p.settings values)).settings values ++
          [] := by
      rw [remaining_loadBits, List.append_nil]
      rfl
    exact unpackAll_of_inRange hv hl hr
  have hwrote : ∀ values ∈ ranges,
      Wrote q.reset (packAll values q.reset) (FieldData.layoutAll p.settings values) := by
    intro values hv
    rw [FieldData.layoutAll_congr hv hq.symm]
    exact wrote_packAll q.reset (FieldData.withinLimits_of_inRange hv hl)
  have hencode : ∀ values ∈ ranges, encode values = FieldData.layoutAll p.settings values := by
    intro values hv
    rw [show encode values = _ from bitList_commit _, (hwrote values hv).written, written_reset,
      List.nil_append]
  have hmem : ∀ values ∈ ranges, FieldData.layoutAll p.settings values ∈ strings := by
    intro values hv
    rw [Set.mem_ofPred_eq, length_layoutAll (FieldData.withinLimits_of_inRange hv hl),
      FieldData.totalWidth_of_inRange hv]
  have hvalues : ∀ bits ∈ strings,
      ∃ values ∈ ranges, FieldData.layoutAll p.settings values = bits :=
    fun bits hb => FieldData.exists_inRange_all p.settings hn hl hb
  have hinv : Set.InvOn encode decode strings ranges := by
    constructor
    · intro bits hb
      obtain ⟨values, hv, hlay⟩ := hvalues bits hb
      rw [(hdecode values hv bits hlay).1, hencode values hv, hlay]
    · intro values hv
      rw [hencode values hv, (hdecode values hv _ rfl).1]
  have hmaps : Set.MapsTo decode strings ranges := by
    intro bits hb
    obtain ⟨values, hv, hlay⟩ := hvalues bits hb
    rwa [(hdecode values hv bits hlay).1]
  refine ⟨hinv.bijOn hmaps fun values hv => ?_, hinv, ?_, fun values hv => ?_⟩
  · rw [hencode values hv]
    exact hmem values hv
  · rintro bits hb _ rfl
    obtain ⟨values, hv, hlay⟩ := hvalues bits hb
    have hs := (hdecode values hv bits hlay).2
    exact ⟨hs.errors, hs.reporter, hs.cursor.trans (Nat.zero_add _)⟩
  · exact ⟨(hwrote values hv).errors, (hwrote values hv).reporter⟩

/-- A number, a wide number and an array of which the first element is packed in part, in a
big-endian packer. -/
theorem decoding_bijOn_partialArray :
    let p : Packer := { settings := { bigEndian := true } }
    let fields : List FieldData := [.int 0 3 .hex, .array .bytes [0, 0] (some 11) .hex,
      .wide 0 66 .dec]
    let bits := (List.range 80).map fun i => i % 3 == 0
    (∀ d ∈ fields, d.IsNumeric) ∧ (∀ d ∈ fields, d.WithinLimits) ∧
      bits.length = FieldData.totalWidth p.settings fields ∧
      (packAll (unpackAll fields (p.loadBits bits)).1 p.reset).commit.bitList = bits := by
  intro p fields bits
  have hn : ∀ d ∈ fields, d.IsNumeric := by simp [fields, FieldData.IsNumeric]
  have hl : ∀ d ∈ fields, d.WithinLimits := by
    simp [fields, FieldData.WithinLimits, ArrayKind.unit, maxFieldBits, UInt64.size]
  have hb : bits.length = FieldData.totalWidth p.settings fields := by decide
  exact ⟨hn, hl, hb, (decoding_bijOn p p fields rfl hn hl).2.1.1 hb⟩

end Packer

end FieldAutomation
