import FieldAutomation.Proofs.Packing.Independence
import FieldAutomation.Proofs.Stream.Placement

/-!
# Calls that are refused

A field that is too wide is refused, and so is an array of which more bits are asked than it has,
and a field for which the stream is too short.  A refusal is noted and reported, and nothing else
comes of it: the next call finds the cursor where it was.  A call that is not refused moves the
cursor by the width of its field.

Three calls do not keep to this.  An array may be asked for of which the bits cannot be counted,
and only what is left of their number is then looked for in the stream.  A text is read in two
steps, its bytes and the zero byte behind them, and one step may be refused and the other not.  And
looking at the mark of an object does not ask how much of the stream is left, as reading it does.

* `Packer.noted`: a packer with more misuses, and otherwise unchanged;
* `Packer.PackCall`, `Packer.UnpackCall`: when a call is refused, and what comes of it;
* `Packer.AllOrNothing`: a text is read as a whole, or nothing of it;
* `Packer.TakesAsNull`: no object is found in the stream;
* `Packer.Consumed`: what any call that unpacks may leave of a packer.

Main statements: `Packer.field_calls`, `Packer.allOrNothing_iff` and `Packer.atNull_agrees_iff`.
-/

namespace FieldAutomation

namespace PackError

/-- The report about a misuse. -/
def report (e : PackError) : Report := ⟨.error, .none, e.reportId, e.message⟩

/-- Misuses are not reported under any other id than theirs. -/
theorem filter_map_report_eq_nil {es : List PackError} {id : String}
    (h : ∀ e ∈ es, e.reportId ≠ id) : (es.map report).filter (·.id = id) = [] := by
  rw [List.filter_eq_nil_iff]
  intro r hr
  obtain ⟨e, he, rfl⟩ := List.mem_map.1 hr
  simp [report, h e he]

end PackError

namespace Packer

/-- A packer that has noted and reported some more misuses. -/
def noted (p : Packer) (es : List PackError) : Packer :=
  { p with
    errors := p.errors ++ es
    reporter := { p.reporter with reports := p.reporter.reports ++ es.map PackError.report } }

variable {p q r : Packer}

@[simp] theorem errors_noted (p : Packer) (es : List PackError) :
    (p.noted es).errors = p.errors ++ es := rfl

@[simp] theorem cursor_noted (p : Packer) (es : List PackError) :
    (p.noted es).cursor = p.cursor := rfl

@[simp] theorem settings_noted (p : Packer) (es : List PackError) :
    (p.noted es).settings = p.settings := rfl

@[simp] theorem available_noted (p : Packer) (es : List PackError) :
    (p.noted es).available = p.available := rfl

@[simp] theorem errors_advance (p : Packer) (count : Nat) :
    (p.advance count).errors = p.errors := rfl

@[simp] theorem cursor_advance (p : Packer) (count : Nat) :
    (p.advance count).cursor = p.cursor + count := rfl

@[simp] theorem available_advance (p : Packer) (count : Nat) :
    (p.advance count).available = p.available - count := Nat.sub_add_eq ..

theorem fail_eq_noted (p : Packer) (e : PackError) : p.fail e = p.noted [e] := rfl

/-- Whatever is noted can be told. -/
theorem noted_ne_of_errors_eq {e : PackError} (h : q.errors = p.errors) : q ≠ p.noted [e] := by
  rintro rfl
  exact List.cons_ne_nil e [] (List.self_eq_append_right.1 h.symm)

theorem noted_inj {e e' : PackError} (h : p.noted [e] = p.noted [e']) : e = e' := by
  have herrors : p.errors ++ [e] = p.errors ++ [e'] := congrArg errors h
  simpa using herrors

/-! ### Packing -/

/-- `q` is `p` after `width` bits were packed: no bit outside them has changed. -/
structure Fills (p q : Packer) (width : Nat) : Prop where
  others : ∀ i, i < p.cursor ∨ p.cursor + width ≤ i → q.store.get i = p.store.get i
  rest : q = { p with store := q.store, cursor := p.cursor + width }

namespace Fills

variable {m n width : Nat}

theorem errors (h : Fills p q width) : q.errors = p.errors := by rw [h.rest]

theorem cursor (h : Fills p q width) : q.cursor = p.cursor + width := by rw [h.rest]

theorem trans (h : Fills p q m) (h' : Fills q r n) : Fills p r (m + n) where
  others i hi := by
    rw [h'.others i (by rw [h.cursor]; omega), h.others i (by omega)]
  rest := by
    have hr := h'.rest
    rw [h.rest] at hr
    rw [← Nat.add_assoc]
    exact hr

end Fills

theorem LaysOut.fills {v size : Nat} (h : p.LaysOut q v size) : Fills p q size := ⟨h.others, h.rest⟩

theorem fills_put (p : Packer) (v width : Nat) : Fills p (p.put v width) width where
  others i hi := by
    rw [put, BitStore.get_write, if_neg (by omega)]
  rest := rfl

theorem fills_writeElements {unit : Nat} {values : List Nat} (p : Packer) (total : Nat)
    (h : total ≤ values.length * unit) : Fills p (writeElements unit values total p) total := by
  induction values generalizing p total with
  | nil =>
    obtain rfl : total = 0 := by simpa using h
    exact ⟨fun _ _ => rfl, rfl⟩
  | cons v rest ih =>
    rw [List.length_cons, Nat.add_one_mul] at h
    have hrest := ih (p.put v (min total unit)) (total - min total unit) (by omega)
    have hall := (fills_put p v (min total unit)).trans hrest
    rwa [show min total unit + (total - min total unit) = total by omega] at hall

/-- A call that packs `width` bits and makes `p` into `q`: refused, with the misuse `e`, if it asks
for more than `limit` bits. -/
structure PackCall (p q : Packer) (limit width : Nat) (e : PackError) : Prop where
  refused_iff : q = p.noted [e] ↔ limit < width
  accepted_iff : p.Fills q width ↔ width ≤ limit

namespace PackCall

variable {limit width : Nat} {e : PackError}

theorem of_refused (h : limit < width) (hq : q = p.noted [e]) : p.PackCall q limit width e where
  refused_iff := iff_of_true hq h
  accepted_iff := iff_of_false (fun hf => noted_ne_of_errors_eq hf.errors hq) (Nat.not_le.2 h)

theorem of_accepted (h : width ≤ limit) (hq : p.Fills q width) : p.PackCall q limit width e where
  refused_iff := iff_of_false (noted_ne_of_errors_eq hq.errors) (Nat.not_lt.2 h)
  accepted_iff := iff_of_true hq h

end PackCall

theorem packCall_packInt (p : Packer) (v size : Nat) :
    p.PackCall (p.packInt v size) 64 size (.fieldTooWide size 64 "pack_field_int") := by
  by_cases h : 64 < size
  · exact .of_refused h (if_pos h)
  · exact .of_accepted (Nat.not_lt.1 h) (p.laysOut_packInt v (Nat.not_lt.1 h)).fills

theorem packCall_packWide (p : Packer) (v size : Nat) :
    p.PackCall (p.packWide v size) maxFieldBits size
      (.fieldTooWide size maxFieldBits "pack_field") := by
  by_cases h : maxFieldBits < size
  · have h64 : ¬size ≤ 64 := fun hle => absurd (h.trans_le hle) (by decide)
    refine .of_refused h ?_
    rw [packWide_eq, if_neg h64, if_pos h, fail_eq_noted]
  · exact .of_accepted (Nat.not_lt.1 h) (p.laysOut_packWide v (Nat.not_lt.1 h)).fills

/-- How many bits are asked of an array decides whether they are refused. -/
theorem arrayBits_eq (capacity : Nat) (size : Option Nat) (operation : String) :
    arrayBits capacity size operation =
      if capacity < size.getD capacity then
        .error (.sizeExceedsCapacity (size.getD capacity) capacity operation)
      else .ok (size.getD capacity) := by
  cases size with
  | none => simp [arrayBits]
  | some size => rfl

/-- The name under which an array is packed. -/
def packingName : ArrayKind → String
  | .bytes => "pack_bytes"
  | .words => "pack_ints"

theorem packCall_packArray (p : Packer) (kind : ArrayKind) (values : List Nat)
    (size : Option Nat) :
    p.PackCall (p.packArray kind values size) (values.length * kind.unit)
      (size.getD (values.length * kind.unit))
      (.sizeExceedsCapacity (size.getD (values.length * kind.unit)) (values.length * kind.unit)
        (packingName kind)) := by
  have hlength : (p.streamOrder values).length = values.length := by
    unfold streamOrder
    split <;> simp
  simp only [packArray, arrayBits_eq]
  split
  next total e h =>
    split at h
    next hlt =>
      cases h
      refine .of_refused hlt ?_
      cases kind <;> rfl
    next => cases h
  next total h =>
    split at h
    next => cases h
    next hle =>
      cases h
      exact .of_accepted (Nat.not_lt.1 hle)
        (fills_writeElements p _ (by rw [hlength]; exact Nat.not_lt.1 hle))

/-! ### Unpacking -/

/-- A call that unpacks `width` bits of `p` and comes to `r`: refused, with the misuse `e`, if it
asks for more than `limit` bits, and otherwise if the stream is too short.  What is refused reads
as `zero`. -/
structure UnpackCall {α : Type} (p : Packer) (r : α × Packer) (zero : α) (limit width : Nat)
    (e : PackError) (what : String) : Prop where
  tooWide_iff : r = (zero, p.noted [e]) ↔ limit < width
  tooShort_iff : r = (zero, p.noted [.notEnoughBits width p.available what]) ↔
    width ≤ limit ∧ p.available < width
  accepted_iff : r.2 = p.advance width ↔ width ≤ limit ∧ width ≤ p.available

namespace UnpackCall

variable {α : Type} {zero : α} {x : α × Packer} {limit width : Nat} {e : PackError}
  {what : String}

/-- A call that asks first for its limit and then for the bits that are left. -/
theorem of_guarded (read : α × Packer) (hread : read.2 = p.advance width)
    (he : e ≠ .notEnoughBits width p.available what)
    (hx : x = if limit < width then (zero, p.fail e)
      else match p.shortage? width what with
        | some e => (zero, p.fail e)
        | none => read) :
    p.UnpackCall x zero limit width e what := by
  by_cases hw : limit < width
  · rw [if_pos hw, fail_eq_noted] at hx
    subst hx
    refine ⟨iff_of_true rfl hw, iff_of_false (fun h => he ?_) fun h => absurd hw (Nat.not_lt.2 h.1),
      iff_of_false (fun h => ?_) fun h => absurd hw (Nat.not_lt.2 h.1)⟩
    · exact noted_inj (Prod.ext_iff.1 h).2
    · exact noted_ne_of_errors_eq (p := p) (q := p.advance width) rfl h.symm
  rw [if_neg hw] at hx
  by_cases hs : p.available < width
  · rw [shortage?, if_pos hs] at hx
    subst hx
    refine ⟨iff_of_false (fun h => he ?_) hw, iff_of_true rfl ⟨Nat.not_lt.1 hw, hs⟩,
      iff_of_false (fun h => ?_) fun h => absurd hs (Nat.not_lt.2 h.2)⟩
    · exact (noted_inj (Prod.ext_iff.1 h).2).symm
    · exact noted_ne_of_errors_eq (p := p) (q := p.advance width) rfl h.symm
  · rw [shortage?, if_neg hs] at hx
    subst hx
    have hne : ∀ e, x ≠ (zero, p.noted [e]) := fun e h =>
      noted_ne_of_errors_eq (p := p) (q := x.2) (by rw [hread]; rfl) (Prod.ext_iff.1 h).2
    exact ⟨iff_of_false (hne _) hw, iff_of_false (hne _) fun h => hs h.2,
      iff_of_true hread ⟨Nat.not_lt.1 hw, Nat.not_lt.1 hs⟩⟩

end UnpackCall

theorem unpackCall_unpackInt (p : Packer) (size : Nat) :
    p.UnpackCall (p.unpackInt size) 0 64 size (.fieldTooWide size 64 "unpack_field_int")
      "integral" :=
  .of_guarded (p.readField size) rfl (by simp) rfl

/-- A narrow number is not too wide for a wide field. -/
theorem unpackWide_eq (p : Packer) (size : Nat) :
    p.unpackWide size =
      if maxFieldBits < size then (0, p.fail (.fieldTooWide size maxFieldBits "unpack_field"))
      else match p.shortage? size "integral" with
        | some e => (0, p.fail e)
        | none => p.readField size := by
  unfold unpackWide
  split
  next h =>
    have hmax : ¬maxFieldBits < size := fun hlt => absurd (hlt.trans_le h) (by decide)
    exact (if_neg (Nat.not_lt.2 h)).trans (if_neg hmax).symm
  next => cases p.shortage? size "integral" <;> simp only [readWide_eq_readField]

theorem unpackCall_unpackWide (p : Packer) (size : Nat) :
    p.UnpackCall (p.unpackWide size) 0 maxFieldBits size
      (.fieldTooWide size maxFieldBits "unpack_field") "integral" :=
  .of_guarded (p.readField size) rfl (by simp) (p.unpackWide_eq size)

theorem readElements_snd {unit count total : Nat} (p : Packer) (h : total ≤ count * unit) :
    (readElements unit count total p).2 = p.advance total := by
  induction count generalizing p total with
  | zero =>
    obtain rfl : total = 0 := by simpa using h
    rfl
  | succ count ih =>
    rw [Nat.add_one_mul] at h
    rw [readElements_succ, ih _ (by omega), advance_advance,
      show min total unit + (total - min total unit) = total by omega]

/-- The name under which an array is unpacked. -/
def unpackingName : ArrayKind → String
  | .bytes => "unpack_bytes"
  | .words => "unpack_ints"

/-- An array is looked for in the stream as if it had `capacity` bits, which is what is left of
their number. -/
theorem unpackCall_unpackArray (p : Packer) {kind : ArrayKind} {count capacity : Nat}
    (h : Size.mul count kind.unit = capacity) (size : Option Nat) :
    p.UnpackCall (p.unpackArray kind count size) (List.replicate count 0) capacity
      (size.getD capacity) (.sizeExceedsCapacity (size.getD capacity) capacity
        (unpackingName kind)) (unpackingName kind) := by
  generalize hwidth : size.getD capacity = width
  by_cases hle : width ≤ capacity
  · have hread := readElements_snd p (hle.trans (h ▸ Size.mul_le count kind.unit))
    generalize hall : readElements kind.unit count width p = read at hread
    refine .of_guarded (read.2.streamOrder read.1, read.2) hread (by simp) ?_
    rw [← hall]
    simp only [unpackArray, arrayBits_eq, h, hwidth, if_neg (Nat.not_lt.2 hle)]
    cases kind <;> rfl
  · refine .of_guarded ([], p.advance width) rfl (by simp) ?_
    simp only [unpackArray, arrayBits_eq, h, hwidth, if_pos (Nat.not_le.1 hle)]
    cases kind <;> rfl

theorem unpackCall_unpackReal (p : Packer) :
    p.UnpackCall p.unpackReal (.ofNat 0) 64 64 (.fieldTooWide 64 64 "unpack_field_int")
      "integral" := by
  refine .of_guarded ((p.readField 64).map Binary64.ofNat id) rfl (by simp) ?_
  rw [unpackReal, unpackInt]
  cases p.shortage? 64 "integral" <;> rfl

/-- **An array of which all bits are asked for** keeps to this exactly if they can be counted. -/
theorem unpackCall_unpackArray_iff (p : Packer) (kind : ArrayKind) (count : Nat) :
    p.UnpackCall (p.unpackArray kind count none) (List.replicate count 0) (count * kind.unit)
        (count * kind.unit) (.sizeExceedsCapacity (count * kind.unit) (count * kind.unit)
          (unpackingName kind)) (unpackingName kind) ↔
      count * kind.unit < UInt64.size := by
  refine ⟨fun hclaim => ?_, fun h => p.unpackCall_unpackArray (Size.mul_of_lt h) none⟩
  have hcall := p.unpackCall_unpackArray (rfl : Size.mul count kind.unit = _) none
  generalize hkept : Size.mul count kind.unit = kept at hcall
  have hlt : kept < UInt64.size := hkept ▸ Size.wrap_lt _
  have hle : kept ≤ count * kind.unit := hkept ▸ Size.mul_le ..
  generalize count * kind.unit = all at hclaim hle
  suffices hsame : kept = all from hsame ▸ hlt
  rw [Option.getD_none] at hcall
  by_cases hshort : p.available < kept
  · -- what is noted says how many bits were looked for
    have hnoted := hcall.tooShort_iff.2 ⟨Nat.le_refl _, hshort⟩
    rw [hclaim.tooShort_iff.2 ⟨Nat.le_refl _, hshort.trans_le hle⟩] at hnoted
    simpa [eq_comm] using noted_inj (Prod.ext_iff.1 hnoted).2
  · have hread := hcall.accepted_iff.2 ⟨Nat.le_refl _, Nat.not_lt.1 hshort⟩
    by_cases hall : p.available < all
    · rw [hclaim.tooShort_iff.2 ⟨Nat.le_refl _, hall⟩] at hread
      exact absurd hread.symm (noted_ne_of_errors_eq rfl)
    · rw [hclaim.accepted_iff.2 ⟨Nat.le_refl _, Nat.not_lt.1 hall⟩] at hread
      have hcursor := congrArg cursor hread
      simp only [cursor_advance] at hcursor
      omega

/-- How many bytes are read as a text: as many as are asked for, or those before a zero byte. -/
def textLength (p : Packer) (length : Option Nat) : Nat :=
  length.getD (bytesBeforeZero p.store (p.available / 8) p.cursor)

theorem readText_snd (p : Packer) (count : Nat) :
    (p.readText count).2 =
      if p.available < Size.mul 8 count then
        p.noted [.notEnoughBits (Size.mul 8 count) p.available "string"]
      else p.advance (Size.mul 8 count) := by
  unfold readText shortage?
  by_cases h0 : count = 0
  · subst h0
    rfl
  rw [if_neg h0]
  split
  next h =>
    split at h
    next hlt =>
      cases h
      rw [if_pos hlt, fail_eq_noted]
    next => cases h
  next h =>
    split at h
    next => cases h
    next hle =>
      rw [readWide_eq_readField, if_neg hle]
      rfl

theorem skipTerminator_eq (p : Packer) :
    p.skipTerminator =
      if p.settings.useMetadata then
        if p.available < 8 then p.noted [.notEnoughBits 8 p.available "string"] else p.advance 8
      else p := by
  unfold skipTerminator shortage?
  by_cases h : p.available < 8
  · rw [if_pos h, if_pos h]
    rfl
  · rw [if_neg h, if_neg h]

/-- If a misuse is noted while a text is read, it is one only, and nothing of the stream is
read. -/
def AllOrNothing (p : Packer) (length : Option Nat) : Prop :=
  let q := (p.unpackString length).2
  q.errors ≠ p.errors → q.cursor = p.cursor ∧ q.errors.length ≤ p.errors.length + 1

/-- **A text is read as a whole or not at all exactly if** no zero byte is expected behind it, or it
is empty, or it is there together with that byte.  Otherwise a zero byte is skipped where there was
no text, or a text is read that is not ended, or both steps are refused and noted. -/
theorem allOrNothing_iff (p : Packer) (length : Option Nat)
    (h : 8 * p.textLength length < UInt64.size) :
    p.AllOrNothing length ↔
      p.settings.useMetadata = false ∨ p.textLength length = 0 ∨
        8 * p.textLength length + 8 ≤ p.available := by
  have hsnd : (p.unpackString length).2 = (p.readText (p.textLength length)).2.skipTerminator := by
    rw [unpackString_eq]
    rfl
  rw [AllOrNothing, hsnd, skipTerminator_eq, readText_snd, Size.mul_of_lt h]
  generalize p.textLength length = count
  cases hmetadata : p.settings.useMetadata with
  | false => by_cases htext : p.available < 8 * count <;> simp [htext, hmetadata]
  | true =>
    -- text and zero byte are asked for one after the other, and each may be refused
    by_cases htext : p.available < 8 * count
    · by_cases hend : p.available < 8 <;> simp [htext, hend, hmetadata] <;> omega
    · by_cases hend : p.available - 8 * count < 8 <;> simp [htext, hend, hmetadata] <;> omega

/-- Four bytes of text are asked of a stream of three: the text is refused, and one byte skipped. -/
theorem not_allOrNothing_threeBytes :
    let p := ({ settings.useMetadata := true } : Packer).loadBytes [0x41, 0x42, 0x43]
    8 * p.textLength (some 4) < UInt64.size ∧ ¬p.AllOrNothing (some 4) := by
  intro p
  have h : 8 * p.textLength (some 4) < UInt64.size := by decide
  exact ⟨h, (p.allOrNothing_iff (some 4) h).not.2 (by decide)⟩

/-! ### Marks -/

/-- A number that is read is zero if none of its bits is set. -/
theorem ordered_read_eq_zero_iff (p : Packer) (s : BitStore) (pos size : Nat) :
    p.ordered (s.read pos size) size = 0 ↔ ∀ j < size, s.get (pos + j) = false := by
  have hmirror : (∀ j < size,
      s.get (pos + if p.settings.bigEndian then size - 1 - j else j) = false) ↔
        ∀ j < size, s.get (pos + j) = false := by
    cases p.settings.bigEndian with
    | false => rfl
    | true =>
      refine ⟨fun h j hj => ?_, fun h j hj => h _ (by simp; omega)⟩
      have hj' := h (size - 1 - j) (by omega)
      rwa [if_pos rfl, show size - 1 - (size - 1 - j) = j by omega] at hj'
  rw [← hmirror]
  constructor
  · intro h j hj
    have hbit := p.testBit_ordered_read s pos size j
    rwa [h, Nat.zero_testBit, decide_eq_true hj, Bool.true_and, eq_comm] at hbit
  · intro h
    refine Nat.eq_of_testBit_eq fun j => ?_
    rw [p.testBit_ordered_read, Nat.zero_testBit]
    by_cases hj : j < size
    · rw [h j hj, Bool.and_false]
    · rw [decide_eq_false hj, Bool.false_and]

theorem read_eq_zero_iff (s : BitStore) (pos size : Nat) :
    s.read pos size = 0 ↔ ∀ j < size, s.get (pos + j) = false :=
  -- a packer that is not big-endian reads what is stored
  ordered_read_eq_zero_iff { settings.bigEndian := false } s pos size

/-- The mark that is read is null if it is not all there. -/
theorem unpackInt_markerBits_eq_zero_iff (p : Packer) :
    (p.unpackInt markerBits).1 = 0 ↔
      p.available < markerBits ∨ ∀ j < markerBits, p.store.get (p.cursor + j) = false := by
  rw [unpackInt, if_neg (by decide), shortage?]
  by_cases h : p.available < markerBits
  · rw [if_pos h]
    exact iff_of_true rfl (.inl h)
  · rw [if_neg h, or_iff_right h]
    exact p.ordered_read_eq_zero_iff p.store p.cursor markerBits

/-- The mark that is looked at is null whatever is left of the stream. -/
theorem atNull_eq_true_iff (hm : p.settings.useMetadata = true) :
    p.atNull = true ↔ ∀ j < markerBits, p.store.get (p.cursor + j) = false := by
  rw [atNull, hm, Bool.true_and, beq_iff_eq, read_eq_zero_iff]

/-- No object is found in the stream: whatever object is unpacked next, and in whatever graph,
nothing but a mark is read. -/
def TakesAsNull (p : Packer) : Prop :=
  ∀ (g : ObjectGraph) (fuel : Nat) (target : Option ObjectRef),
    unpackObject (fuel + 1) target ⟨g, p⟩ = some ⟨g, (p.unpackInt markerBits).2⟩

theorem unpackMarker_of_metadata (hm : p.settings.useMetadata = true) :
    p.unpackMarker = ((p.unpackInt markerBits).1 != 0, (p.unpackInt markerBits).2) := by
  rw [unpackMarker, if_pos hm]

theorem takesAsNull_iff (hm : p.settings.useMetadata = true)
    (hp : p.settings.policy ≠ .reference) :
    p.TakesAsNull ↔ (p.unpackInt markerBits).1 = 0 := by
  have hmark := p.unpackMarker_of_metadata hm
  by_cases h0 : (p.unpackInt markerBits).1 = 0
  · refine iff_of_true (fun g fuel target => ?_) h0
    rw [h0] at hmark
    exact unpackObject_of_not_follows hmark
  · refine iff_of_false (fun h => ?_) h0
    have hsettings := (scanned_unpackInt p markerBits).settings
    -- where an object is announced, one that is not there is missed
    have hmissed : unpackObject 1 none ⟨{}, p⟩ =
        some ⟨{}, (p.unpackInt markerBits).2.fail .nullObject⟩ :=
      unpackObject_of_null 0 (by rw [hmark, bne_iff_ne.2 h0]) (by rwa [hsettings]) rfl
    rw [h, Option.some_inj, Unpacking.mk.injEq, fail_eq_noted] at hmissed
    exact noted_ne_of_errors_eq rfl hmissed.2

/-- **Looking at a mark agrees with reading it exactly if** the mark is all there, or no bit is set
where it should be.  Otherwise what looks like a mark is cut short by the end of the stream, or
comes after it.  What is read decides whether an object is taken as null. -/
theorem atNull_agrees_iff (hm : p.settings.useMetadata = true) :
    ((p.atNull = true ↔ (p.unpackInt markerBits).1 = 0) ↔
      markerBits ≤ p.available ∨ ∀ j < markerBits, p.store.get (p.cursor + j) = false) ∧
    (p.settings.policy ≠ .reference →
      (p.TakesAsNull ↔ (p.unpackInt markerBits).1 = 0)) := by
  refine ⟨?_, takesAsNull_iff hm⟩
  rw [atNull_eq_true_iff hm, unpackInt_markerBits_eq_zero_iff, ← Nat.not_lt]
  tauto

/-- A stream of one bit is too short for a mark, but does not look like it. -/
theorem atNull_disagrees :
    let p := ({ settings.useMetadata := true } : Packer).loadBits [true]
    p.atNull = false ∧ (p.unpackInt markerBits).1 = 0 ∧ p.TakesAsNull ∧
      ¬(p.atNull = true ↔ (p.unpackInt markerBits).1 = 0) := by
  intro p
  obtain ⟨hagrees, hnull⟩ := atNull_agrees_iff (p := p) rfl
  exact ⟨by decide, by decide, (hnull (by decide)).2 (by decide), hagrees.not.2 (by decide)⟩

/-! ### What is consumed -/

/-- `q` is `p` after part of what is left of the stream was consumed, and misuses were noted. -/
def Consumed (p q : Packer) : Prop :=
  ∃ es n, (∀ e ∈ es, e.reportId ≠ "BDUNPK") ∧ n ≤ p.available ∧ q = (p.noted es).advance n

namespace Consumed

theorem noted {e : PackError} (he : e.reportId ≠ "BDUNPK") : Consumed p (p.noted [e]) :=
  ⟨[e], 0, by simpa using he, Nat.zero_le _, rfl⟩

theorem advance {n : Nat} (hn : n ≤ p.available) : Consumed p (p.advance n) :=
  ⟨[], n, by simp, hn, by simp [Packer.noted, Packer.advance]⟩

theorem refl (p : Packer) : Consumed p p := advance (Nat.zero_le _)

theorem trans (h : Consumed p q) (h' : Consumed q r) : Consumed p r := by
  obtain ⟨es, n, hes, hn, rfl⟩ := h
  obtain ⟨es', n', hes', hn', rfl⟩ := h'
  rw [available_advance, available_noted] at hn'
  refine ⟨es ++ es', n + n', ?_, by omega, ?_⟩
  · intro e he
    exact (List.mem_append.1 he).elim (hes e) (hes' e)
  · simp [Packer.noted, Packer.advance, Nat.add_assoc]

theorem visits (h : Consumed p q) : q.visits = p.visits := by
  obtain ⟨es, n, -, -, rfl⟩ := h
  rfl

theorem scope (h : Consumed p q) : q.scope = p.scope := by
  obtain ⟨es, n, -, -, rfl⟩ := h
  rfl

end Consumed

/-- A call consumes what it asks for, or nothing. -/
theorem UnpackCall.consumed {α : Type} {x : α × Packer} {zero : α} {limit width : Nat}
    {e : PackError} {what : String} (h : p.UnpackCall x zero limit width e what)
    (he : e.reportId ≠ "BDUNPK") : Consumed p x.2 := by
  by_cases hwide : limit < width
  · rw [h.tooWide_iff.2 hwide]
    exact .noted he
  by_cases hshort : p.available < width
  · rw [h.tooShort_iff.2 ⟨Nat.not_lt.1 hwide, hshort⟩]
    exact .noted (by simp [PackError.reportId])
  · rw [h.accepted_iff.2 ⟨Nat.not_lt.1 hwide, Nat.not_lt.1 hshort⟩]
    exact .advance (Nat.not_lt.1 hshort)

theorem consumed_unpackInt (p : Packer) (size : Nat) : Consumed p (p.unpackInt size).2 :=
  (p.unpackCall_unpackInt size).consumed (by simp [PackError.reportId])

theorem consumed_unpackWide (p : Packer) (size : Nat) : Consumed p (p.unpackWide size).2 :=
  (p.unpackCall_unpackWide size).consumed (by simp [PackError.reportId])

theorem consumed_unpackArray (p : Packer) (kind : ArrayKind) (count : Nat) (size : Option Nat) :
    Consumed p (p.unpackArray kind count size).2 :=
  (p.unpackCall_unpackArray (rfl : Size.mul count kind.unit = _) size).consumed
    (by simp [PackError.reportId])

theorem consumed_unpackReal (p : Packer) : Consumed p p.unpackReal.2 :=
  p.unpackCall_unpackReal.consumed (by simp [PackError.reportId])

theorem consumed_unpackElements (p : Packer) (size count : Nat) :
    Consumed p (unpackElements size count p).2 := by
  induction count generalizing p with
  | zero => exact .refl p
  | succ count ih => exact (p.consumed_unpackInt size).trans (ih _)

theorem consumed_readText (p : Packer) (count : Nat) : Consumed p (p.readText count).2 := by
  rw [readText_snd]
  split
  next => exact .noted (by simp [PackError.reportId])
  next h => exact .advance (Nat.not_lt.1 h)

theorem consumed_skipTerminator (p : Packer) : Consumed p p.skipTerminator := by
  rw [skipTerminator_eq]
  split
  next =>
    split
    next => exact .noted (by simp [PackError.reportId])
    next h => exact .advance (Nat.not_lt.1 h)
  next => exact .refl p

theorem consumed_unpackString (p : Packer) (length : Option Nat) :
    Consumed p (p.unpackString length).2 := by
  rw [unpackString_eq]
  exact (consumed_readText ..).trans (consumed_skipTerminator _)

theorem consumed_enoughBits (p : Packer) (needed : Nat) (what : String) :
    Consumed p (p.enoughBits needed what).2 := by
  unfold enoughBits shortage?
  by_cases h : p.available < needed
  · rw [if_pos h]
    exact .noted (by simp [PackError.reportId])
  · rw [if_neg h]
    exact .refl p

theorem consumed_unpackMarker (p : Packer) : Consumed p p.unpackMarker.2 := by
  unfold unpackMarker
  split
  · exact consumed_unpackInt ..
  · exact .refl p

end Packer

end FieldAutomation
