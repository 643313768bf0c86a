import FieldAutomation.Packer.Objects
import FieldAutomation.Proofs.Stream.View
import FieldAutomation.Proofs.Text.Utf8

/-!
# The layout of a field

Every field has a layout: the bits it becomes in the stream, which depend on the settings alone
and not on the place or on the fields around it.

* `PackerSettings.numberBits`, `PackerSettings.arrayBits`, `PackerSettings.terminator` and
  `PackerSettings.mark`: the parts of a layout;
* `FieldData.layout`: the layout of a field, and `FieldData.packedWidth` its length;
* `FieldData.WithinLimits`: the fields that a packer takes;
* `Packer.Wrote`: a packer after writing bits, and otherwise unchanged.

Main statements: `Packer.wrote_packData` (packing a field appends its layout) and
`FieldData.length_layout`.
-/

namespace FieldAutomation

namespace PackerSettings

variable (s : PackerSettings)

/-- The bits of a number. -/
def numberBits (v size : Nat) : List Bool :=
  if s.bigEndian then (Bits.toList v size).reverse else Bits.toList v size

/-- The bits of elements of `unit` bits, as long as `remaining` bits are left for them. -/
def elementBits (unit : Nat) : List Nat → Nat → List Bool
  | [], _ => []
  | v :: rest, remaining =>
    Bits.toList v (min remaining unit) ++ elementBits unit rest (remaining - min remaining unit)

/-- The first `total` bits of an array: the last element comes first when big-endian. -/
def arrayBits (unit : Nat) (values : List Nat) (total : Nat) : List Bool :=
  elementBits unit (if s.bigEndian then values.reverse else values) total

/-- What follows a string. -/
def terminator : List Bool := if s.useMetadata then List.replicate 8 false else []

/-- The mark that says whether an object follows. -/
def mark (follows : Bool) : List Bool :=
  if s.useMetadata then s.numberBits follows.toNat Packer.markerBits else []

/-- What a string becomes. -/
def textBits (text : String) : List Bool :=
  s.numberBits (Packer.ofBytes (Utf8.encode text)) (8 * (Utf8.encode text).length)

@[simp] theorem length_numberBits (v size : Nat) : (s.numberBits v size).length = size := by
  unfold numberBits
  split <;> simp

/-- A number without ones looks the same in both orders. -/
theorem numberBits_zero (size : Nat) : s.numberBits 0 size = List.replicate size false := by
  unfold numberBits
  split <;> simp [Bits.toList_zero_left]

@[simp] theorem length_textBits (text : String) :
    (s.textBits text).length = 8 * (Utf8.encode text).length := by
  simp [textBits]

/-- Elements take all the bits that they have room for. -/
theorem length_elementBits {unit : Nat} {values : List Nat} {total : Nat}
    (h : total ≤ values.length * unit) : (elementBits unit values total).length = total := by
  induction values generalizing total with
  | nil => simpa [elementBits, eq_comm] using h
  | cons v rest ih =>
    rw [List.length_cons, Nat.add_one_mul] at h
    rw [elementBits, List.length_append, Bits.length_toList, ih (by omega)]
    omega

theorem length_arrayBits {unit : Nat} {values : List Nat} {total : Nat}
    (h : total ≤ values.length * unit) : (s.arrayBits unit values total).length = total := by
  unfold arrayBits
  split
  · exact length_elementBits (by simpa using h)
  · exact length_elementBits h

end PackerSettings

namespace FieldData

/-- The fields that a packer takes: numbers that are not too wide, and of an array no more bits
than it has.  The bits of an array or a text are as many as can be counted. -/
def WithinLimits : FieldData → Prop
  | int _ size _ | elements _ size _ => size ≤ 64
  | wide _ size _ => size ≤ Packer.maxFieldBits
  | str text _ => 8 * Utf8.size text < UInt64.size
  | array kind values size _ =>
    values.length * kind.unit < UInt64.size ∧ ∀ n ∈ size, n ≤ values.length * kind.unit
  | _ => True

/-- The bits that a field becomes in the stream. -/
def layout (s : PackerSettings) : FieldData → List Bool
  | int v size _ | wide v size _ => s.numberBits v size
  | real x => s.numberBits x.toNat 64
  | time t _ => s.numberBits t 64
  | str text _ => s.textBits text ++ s.terminator
  | array kind values size _ =>
    s.arrayBits kind.unit values (size.getD (values.length * kind.unit))
  | elements values size _ => values.flatMap fun v => s.numberBits v size
  | generic .. | child _ | probe => []

/-- The number of bits that a field is packed into: its width, and 8 bits more for a string if
metadata is used. -/
def packedWidth (s : PackerSettings) : FieldData → Nat
  | int _ size _ | wide _ size _ => size
  | real _ | time _ _ => 64
  | str text _ => 8 * Utf8.size text + if s.useMetadata then 8 else 0
  | array kind values size _ => size.getD (values.length * kind.unit)
  | elements values size _ => values.length * size
  | generic .. | child _ | probe => 0

theorem length_layout {s : PackerSettings} {d : FieldData} (h : d.WithinLimits) :
    (d.layout s).length = d.packedWidth s := by
  cases d with
  | str text length =>
    simp only [layout, packedWidth, PackerSettings.terminator, List.length_append,
      PackerSettings.length_textBits, Utf8.length_encode_eq_size]
    split <;> simp
  | array kind values size radix =>
    refine s.length_arrayBits ?_
    cases size with
    | none => exact Nat.le_refl _
    | some size => exact h.2 size rfl
  | elements values size radix =>
    simp only [layout, packedWidth]
    clear h
    induction values with
    | nil => simp
    | cons v rest ih =>
      rw [List.flatMap_cons, List.length_append, ih, PackerSettings.length_numberBits,
        List.length_cons, Nat.add_one_mul, Nat.add_comm]
  | _ => simp [layout, packedWidth]

end FieldData

namespace Packer

variable {p q r : Packer}

/-- `q` is `p` after writing `bits`. -/
structure Wrote (p q : Packer) (bits : List Bool) : Prop where
  written : q.written = p.written ++ bits
  unchanged : q = { p with store := q.store, cursor := q.cursor, notes := q.notes }

namespace Wrote

theorem refl (p : Packer) : Wrote p p [] := ⟨by simp, rfl⟩

theorem settings {l : List Bool} (h : Wrote p q l) : q.settings = p.settings := by
  rw [h.unchanged]

theorem errors {l : List Bool} (h : Wrote p q l) : q.errors = p.errors := by
  rw [h.unchanged]

theorem reporter {l : List Bool} (h : Wrote p q l) : q.reporter = p.reporter := by
  rw [h.unchanged]

theorem visits {l : List Bool} (h : Wrote p q l) : q.visits = p.visits := by
  rw [h.unchanged]

theorem trans {l m : List Bool} (h : Wrote p q l) (h' : Wrote q r m) : Wrote p r (l ++ m) := by
  refine ⟨by rw [h'.written, h.written, List.append_assoc], ?_⟩
  have hr := h'.unchanged
  rw [h.unchanged] at hr
  exact hr

end Wrote

theorem wrote_put (p : Packer) (v width : Nat) : Wrote p (p.put v width) (Bits.toList v width) :=
  ⟨p.written_put v width, rfl⟩

theorem toList_ordered (p : Packer) (v size : Nat) :
    Bits.toList (p.ordered v size) size = p.settings.numberBits v size := by
  unfold ordered PackerSettings.numberBits
  split
  · rw [Bits.toList_reverse]
  · rfl

theorem wrote_writeField (p : Packer) (v size : Nat) :
    Wrote p (p.writeField v size) (p.settings.numberBits v size) := by
  rw [← toList_ordered, writeField_eq_put]
  exact wrote_put ..

theorem wrote_packInt (p : Packer) (v : Nat) {size : Nat} (h : size ≤ 64) :
    Wrote p (p.packInt v size) (p.settings.numberBits v size) := by
  rw [packInt, if_neg (by omega)]
  exact wrote_writeField ..

theorem wrote_packWide (p : Packer) (v : Nat) {size : Nat} (h : size ≤ maxFieldBits) :
    Wrote p (p.packWide v size) (p.settings.numberBits v size) := by
  rw [packWide_eq]
  split
  case isTrue hs => exact wrote_packInt p v hs
  case isFalse =>
    rw [if_neg (by omega)]
    exact wrote_writeField ..

theorem wrote_packInts (p : Packer) (values : List Nat) {size : Nat} (h : size ≤ 64) :
    Wrote p (values.foldl (fun p v => p.packInt v size) p)
      (values.flatMap fun v => p.settings.numberBits v size) := by
  induction values generalizing p with
  | nil => exact .refl p
  | cons v rest ih =>
    have hv := wrote_packInt p v h
    have hr := ih (p.packInt v size)
    rw [hv.settings] at hr
    rw [List.foldl_cons, List.flatMap_cons]
    exact hv.trans hr

theorem wrote_writeElements (p : Packer) (unit : Nat) (values : List Nat) (remaining : Nat) :
    Wrote p (writeElements unit values remaining p)
      (PackerSettings.elementBits unit values remaining) := by
  induction values generalizing p remaining with
  | nil => exact .refl p
  | cons v rest ih => exact (wrote_put p v (min remaining unit)).trans (ih ..)

theorem arrayBits_eq_ok {capacity : Nat} {size : Option Nat} {operation : String}
    (h : ∀ n ∈ size, n ≤ capacity) :
    arrayBits capacity size operation = .ok (size.getD capacity) := by
  cases size with
  | none => rfl
  | some n =>
    rw [arrayBits, if_neg (Nat.not_lt.2 (h n rfl))]
    rfl

theorem wrote_packArray (p : Packer) {kind : ArrayKind} {values : List Nat} {size : Option Nat}
    (h : ∀ n ∈ size, n ≤ values.length * kind.unit) :
    Wrote p (p.packArray kind values size)
      (p.settings.arrayBits kind.unit values (size.getD (values.length * kind.unit))) := by
  simp only [packArray, arrayBits_eq_ok h]
  exact wrote_writeElements ..

theorem wrote_packString (p : Packer) (text : String) :
    Wrote p (p.packString text) (p.settings.textBits text ++ p.settings.terminator) := by
  have ht := wrote_writeField p (ofBytes (Utf8.encode text)) (8 * (Utf8.encode text).length)
  -- the zero byte is a number without ones, the same in both orders
  by_cases hm : p.settings.useMetadata = true
  · have hz := wrote_writeField (p.writeField (ofBytes (Utf8.encode text))
      (8 * (Utf8.encode text).length)) 0 8
    rw [PackerSettings.numberBits_zero] at hz
    simpa only [packString_eq, PackerSettings.terminator, settings_writeField, hm, if_true]
      using! ht.trans hz
  · simpa only [packString_eq, PackerSettings.terminator, settings_writeField, hm,
      Bool.false_eq_true, if_false, List.append_nil] using! ht

theorem wrote_packMarker (p : Packer) (follows : Bool) :
    Wrote p (p.packMarker follows) (p.settings.mark follows) := by
  unfold packMarker PackerSettings.mark
  split
  · exact wrote_writeField ..
  · exact .refl p

/-- Packing a field appends its layout and changes nothing else. -/
theorem wrote_packData (p : Packer) {d : FieldData} (h : d.WithinLimits) :
    Wrote p (packData d p) (d.layout p.settings) := by
  cases d with
  | int v size radix => exact wrote_packInt p v h
  | wide v size radix => exact wrote_packWide p v h
  | real x => exact wrote_writeField ..
  | str text length => exact wrote_packString ..
  | time t radix => exact wrote_writeField ..
  | array kind values size radix => exact wrote_packArray p h.2
  | elements values size radix => exact wrote_packInts p values h
  | generic text typeName => exact .refl p
  | child target => exact .refl p
  | probe => exact ⟨by simp [FieldData.layout, packData, written], rfl⟩

end Packer

end FieldAutomation
