import FieldAutomation.Proofs.Comparing.Checking
import FieldAutomation.Proofs.Packing.RoundTrip

/-!
# What was unpacked compares equal

A part of a graph is packed and unpacked into another part of it of the same shape.  Comparing the
first part with the second then finds no difference, whatever the objects share, whatever cycles
they form, and whatever bits values have above their sizes.

* `DataObject.frame`, `SameFrames`: objects without their fields, which unpacking leaves alone;
* `FieldData.PackedInFull`: the data that comparing cannot tell from what is packed of them;
* `Twins`: matched objects that are told to be equal as soon as their fields are;
* `Comparer.exists_compare_of_bisimulation`: a bisimulation makes a comparison true.

Main statement: `ObjectGraph.compare_unpack_pack`.
-/

namespace FieldAutomation

open ObjectGraph (instanceId)

open Packer

/-! ### Frames -/

/-- An object without its fields. -/
def DataObject.frame (o : DataObject) : DataObject := o.mapFields fun _ => []

theorem DataObject.frame_mapFields (f : List Field → List Field) (o : DataObject) :
    (o.mapFields f).frame = o.frame := by
  cases hb : o.body <;> simp [frame, mapFields, hb]

theorem DataObject.typeName_frame (o : DataObject) : o.frame.typeName = o.typeName :=
  o.typeName_mapFields _

theorem DataObject.concreteType_frame (o : DataObject) : o.frame.concreteType = o.concreteType :=
  o.concreteType_mapFields _

theorem DataObject.verdict_frame (o : DataObject) : o.frame.verdict = o.verdict :=
  o.verdict_mapFields _

/-- Two graphs with the same objects but for their fields. -/
def SameFrames (g h : ObjectGraph) : Prop :=
  ∀ r, (h.object? r).map DataObject.frame = (g.object? r).map DataObject.frame

namespace SameFrames

variable {g h k : ObjectGraph} {r : ObjectRef} {o : DataObject}

theorem refl (g : ObjectGraph) : SameFrames g g := fun _ => rfl

theorem trans (hgh : SameFrames g h) (hhk : SameFrames h k) : SameFrames g k :=
  fun r => (hhk r).trans (hgh r)

theorem setData (g : ObjectGraph) (r : ObjectRef) (index : Nat) (data : FieldData) :
    SameFrames g (g.setData r index data) := by
  intro s
  by_cases hs : s = r
  · subst hs
    simp only [ObjectGraph.setData, ObjectGraph.object?, Array.getElem?_modify, if_true,
      Option.map_map]
    congr 1
    funext o
    exact DataObject.frame_mapFields ..
  · rw [ObjectGraph.object?_setData_of_ne _ _ hs]

/-- Each object has one of the same frame on the other side. -/
theorem exists_object (hgh : SameFrames g h) (ho : h.object? r = some o) :
    ∃ o', g.object? r = some o' ∧ o'.frame = o.frame := by
  have heq := hgh r
  rw [ho, Option.map_some, eq_comm, Option.map_eq_some_iff] at heq
  exact heq

theorem symm (hgh : SameFrames g h) : SameFrames h g := fun r => (hgh r).symm

theorem exists_resolve {target : Option ObjectRef} (hgh : SameFrames g h)
    (hr : g.resolve target = some (r, o)) :
    ∃ o', h.resolve target = some (r, o') ∧ o'.name = o.name := by
  obtain ⟨htarget, ho⟩ := ObjectGraph.resolve_eq_some.1 hr
  obtain ⟨o', ho', hframe⟩ := hgh.symm.exists_object ho
  refine ⟨o', ObjectGraph.resolve_eq_some.2 ⟨htarget, ho'⟩, ?_⟩
  have hname := congrArg DataObject.name hframe
  simpa only [DataObject.frame, DataObject.name_mapFields] using hname

theorem resolve_eq_none {target : Option ObjectRef} (hgh : SameFrames g h)
    (hr : g.resolve target = none) : h.resolve target = none := by
  cases hr' : h.resolve target with
  | none => rfl
  | some found =>
    obtain ⟨o', ho', -⟩ := hgh.symm.exists_resolve hr'
    rw [hr] at ho'
    cases ho'

end SameFrames

namespace Packer

variable {u v : Unpacking} {sub : Option ObjectRef → Unpacking → Option Unpacking}

theorem sameFrames_unpackField
    (hsub : ∀ target u v, sub target u = some v → SameFrames u.graph v.graph)
    {r : ObjectRef} {index : Nat} {f : Field} (h : unpackField sub r index f u = some v) :
    SameFrames u.graph v.graph := by
  unfold unpackField at h
  split at h
  · split at h
    · exact hsub _ _ _ h
    · cases h
      exact .setData u.graph r index _
  · cases h
    exact .refl _

theorem sameFrames_unpackFields
    (hsub : ∀ target u v, sub target u = some v → SameFrames u.graph v.graph)
    {r : ObjectRef} {index : Nat} {fields : List Field}
    (h : unpackFields sub r index fields u = some v) : SameFrames u.graph v.graph := by
  induction fields generalizing index u with
  | nil =>
    cases h
    exact .refl _
  | cons f rest ih =>
    rw [unpackFields_cons, Option.bind_eq_some_iff] at h
    obtain ⟨w, hw, h⟩ := h
    exact (sameFrames_unpackField hsub hw).trans (ih h)

/-- Unpacking changes nothing of an object but its fields. -/
theorem sameFrames_unpackObject {fuel : Nat} {target : Option ObjectRef}
    (h : unpackObject fuel target u = some v) : SameFrames u.graph v.graph := by
  induction fuel generalizing target u v with
  | zero => cases h
  | succ fuel ih =>
    rw [unpackObject] at h
    dsimp only at h
    split at h
    case isFalse =>
      cases h
      exact .refl _
    case isTrue =>
      split at h
      case h_1 =>
        cases h
        exact .refl _
      case h_2 =>
        split at h
        case h_1 =>
          cases h
          exact .refl _
        case h_2 =>
          rw [Option.bind_eq_bind, Option.bind_eq_some_iff] at h
          obtain ⟨w, hw, h⟩ := h
          cases h
          have hfields := sameFrames_unpackFields (fun _ _ _ hsub => ih hsub) hw
          exact hfields

end Packer

/-! ### What is packed agrees with what it was packed from -/

namespace FieldData

variable {d into : FieldData} {bigEndian : Bool}

/-- Data that comparing cannot tell from what is packed of them: real numbers that are numbers,
arrays of which all bits are packed, and nothing of a declared type. -/
def PackedInFull : FieldData → Prop
  | real x => x.isNaN = false
  | array kind values (some size) _ => size = values.length * kind.unit
  | generic .. => False
  | _ => True

theorem keptElements_full (bigEndian : Bool) (unit : Nat) (values : List Nat) :
    keptElements bigEndian unit (values.length * unit) values =
      values.map fun v => Bits.truncate v unit := by
  apply List.ext_getElem
  · simp [keptElements]
  · intro i hi _
    have hi' : i < values.length := by simpa [keptElements] using hi
    -- an element in any place but the last one behind it has all its bits
    have hk : ∀ j < values.length, keptBits unit (values.length * unit) j = unit := by
      intro j hj
      have hle : (j + 1) * unit ≤ values.length * unit := Nat.mul_le_mul_right _ hj
      rw [Nat.add_one_mul, Nat.mul_comm j] at hle
      rw [keptBits]
      omega
    simp only [keptElements, List.getElem_mapIdx, List.getElem_map]
    split
    · rw [hk _ (by omega)]
    · rw [hk _ hi']

theorem agrees_map_truncate (unit : Nat) (values : List Nat) :
    ∀ x ∈ values.zip (values.map fun v => Bits.truncate v unit),
      Bits.truncate x.1 unit = Bits.truncate x.2 unit := by
  induction values with
  | nil => simp
  | cons v rest ih =>
    rw [List.map_cons, List.zip_cons_cons, List.forall_mem_cons]
    exact ⟨(Bits.truncate_truncate ..).symm, ih⟩

theorem encode_map_truncate (values : List Nat) :
    Hex.encode (values.map fun v => Bits.truncate v 8) = Hex.encode values := by
  unfold Hex.encode
  rw [List.flatMap_map]
  congr 2
  funext b
  have h1 : Bits.truncate b 8 / 16 % 16 = b / 16 % 16 := by
    rw [Bits.truncate_eq_mod]
    omega
  have h2 : Bits.truncate b 8 % 16 = b % 16 := by
    rw [Bits.truncate_eq_mod]
    omega
  rw [h1, h2]

/-- Data without parts agree with what is carried of them into another field. -/
theorem agreesPlain_carried (hchild : ∀ target, d ≠ .child target) (hfits : d.Fits into)
    (hfull : d.PackedInFull) :
    d.AgreesPlain (d.carried bigEndian into) := by
  cases d <;> cases into <;> try exact hfits.elim
  case int.int => exact (Bits.truncate_truncate ..).symm
  case wide.wide => exact (Bits.truncate_truncate ..).symm
  case real.real => exact Binary64.agrees_self hfull
  case str.str => rfl
  case time.time => exact (Bits.truncate_truncate ..).symm
  case array.array kind values size _ _ _ _ _ =>
    have htotal : size.getD (values.length * kind.unit) = values.length * kind.unit := by
      cases size with
      | none => rfl
      | some n => exact hfull
    rw [carried, htotal, keptElements_full]
    cases kind with
    | bytes => exact (encode_map_truncate values).symm
    | words => exact agrees_map_truncate 32 values
  case elements.elements values size _ _ _ _ => exact agrees_map_truncate size values
  case generic.generic => exact hfull.elim
  case child.child => exact absurd rfl (hchild _)
  case probe.probe => trivial

end FieldData

/-! ### Twins -/

/-- Matched objects of one graph that are told to be equal as soon as their fields are: they are
apart, of one type, and all that is compared of them is packed in full. -/
structure Twins (s : PackerSettings) (cs : ComparerSettings) (g : ObjectGraph)
    (m : ObjectRef → ObjectRef → Prop) : Prop where
  apart : ∀ {x y x' y'}, m x y → m x' y' → x ≠ y'
  types : ∀ {x y o o'}, m x y → g.object? x = some o → g.object? y = some o' →
    o'.typeName = o.typeName ∧ o'.concreteType = o.concreteType
  fields : ∀ {x y index f}, m x y → g.field? x index = some f → f.isCompared cs →
    f.isPacked s ∧ f.data.PackedInFull
  /-- References mean objects. -/
  resolves : ∀ {r index f target}, g.field? r index = some f → f.data = .child (some target) →
    target < g.size

/-- A relation with one left object at most for each right one is a pairing. -/
theorem exists_pairing {P : ObjectRef → ObjectRef → Prop}
    (hP : ∀ x x' y, P x y → P x' y → x' = x) :
    ∃ pairs : Pairing, ∀ x y, pairs y = some x ↔ P x y := by
  classical
  refine ⟨fun y => if h : ∃ x, P x y then some h.choose else none, fun x y => ?_⟩
  dsimp only
  constructor
  · intro hxy
    split at hxy
    case isTrue h =>
      cases hxy
      exact h.choose_spec
    case isFalse => cases hxy
  · intro hxy
    have h : ∃ x, P x y := ⟨x, hxy⟩
    rw [dif_pos h, hP x _ y hxy h.choose_spec]

/-- A bisimulation makes a comparison true, with no miscompare. -/
theorem ObjectGraph.exists_compare_of_bisimulation {g : ObjectGraph} {c : Comparer}
    {l r : ObjectRef} {m : Pairing} (hnames : g.PlainNames) (hg : g.Faithful c.settings)
    (hc : c.scope.depth = 0) (hm : Bisimulation c.settings g m) (hrl : m r = some l) :
    ∃ out, g.compare? l (some r) c = some out ∧ out.1 = true ∧ out.2.result = 0 := by
  obtain ⟨left, -, hl, -, -⟩ := hm l r hrl
  have hbound : g.size < g.comparisonBound := by
    rw [comparisonBound, Nat.add_mul]
    omega
  obtain ⟨same, d, hout, hchk⟩ := Comparer.exists_compareWithin_root (some r) hnames hl hc hbound
  have hnone : (c.enterRoot left).Within m := by
    intro y x hyx
    cases hyx
  obtain ⟨hsame, hresult, -⟩ := hchk.complete hg m hm hnone rfl ⟨r, rfl, hrl⟩
  obtain ⟨reporter, hleave⟩ := Comparer.leaveRoot_eq d l left (g.resolve (some r))
  refine ⟨_, hout, ?_, ?_⟩
  · simp only at hsame hresult
    simp [hresult, hsame]
  · rw [hleave]
    exact hresult

section Restoring

variable {g h : ObjectGraph} {m : ObjectRef → ObjectRef → Prop} {s : PackerSettings}
  {cs : ComparerSettings} {x y dst : ObjectRef}

/-- Names and visibilities stay, whatever takes its packed value. -/
theorem Towards.exists_field_name {k : Field} {index : Nat} (ht : Towards s g g m g h)
    (hk : h.field? y index = some k) : ∃ f, g.field? y index = some f ∧ k.name = f.name := by
  rcases ht.fields y index with heq | ⟨x, f, k', -, -, -, hk', hfk⟩
  · exact ⟨k, heq ▸ hk, rfl⟩
  · rw [hk] at hfk
    cases hfk
    exact ⟨k', hk', rfl⟩

theorem ObjectGraph.PlainNames.towards (hnames : g.PlainNames) (ht : Towards s g g m g h)
    (hframes : SameFrames g h) : h.PlainNames := by
  intro r o ho f hf
  obtain ⟨index, hindex⟩ := List.mem_iff_getElem?.1 hf
  obtain ⟨o', ho', -⟩ := hframes.exists_object ho
  obtain ⟨f', hf', hname⟩ := ht.exists_field_name (h := h)
    (show h.field? r index = some f by rw [ObjectGraph.field?_of_object? ho, hindex])
  rw [ObjectGraph.field?_of_object? ho'] at hf'
  rw [hname]
  exact hnames r o' ho' f' (List.mem_of_getElem? hf')

theorem ObjectGraph.Faithful.sameFrames (hg : g.Faithful cs) (hframes : SameFrames g h) :
    h.Faithful cs where
  verdict := by
    intro r o ho
    obtain ⟨o', ho', hframe⟩ := hframes.exists_object ho
    rw [← o.verdict_frame, ← hframe, o'.verdict_frame]
    exact hg.verdict r o' ho'
  policy := hg.policy

/-- Left objects are matched with none, so that they stay as they are. -/
theorem Twins.field?_eq (htw : Twins s cs g m) (ht : Towards s g g m g h) (hxy : m x y)
    (index : Nat) : h.field? x index = g.field? x index := by
  rcases ht.fields x index with heq | ⟨x', -, -, hx', -⟩
  · exact heq
  · exact absurd rfl (htw.apart hxy hx')

/-- References to matched objects agree, and so do those to none. -/
theorem Twins.agrees_child (htw : Twins s cs g m) {a b : Option ObjectRef} {f k : Field}
    {index : Nat} (hf : g.field? x index = some f) (hk : g.field? y index = some k)
    (ha : f.data = .child a) (hb : k.data = .child b) (hab : TargetsMatch s g g m a b)
    {pairs : Pairing}
    (hpairs : ∀ z w o, g.resolve b = some (w, o) → m z w → pairs w = some z) :
    (FieldData.child a).Agrees pairs (.child b) := by
  have hnull : ∀ {t : Option ObjectRef} {r : ObjectRef} {d : Field},
      g.field? r index = some d → d.data = .child t → g.resolve t = none → t = none := by
    intro t r d hd ht hres
    cases t with
    | none => rfl
    | some target =>
      have hlt : target < g.objects.size := htw.resolves hd ht
      simp [ObjectGraph.resolve, ObjectGraph.object?, hlt] at hres
  unfold TargetsMatch at hab
  split at hab
  case h_1 z o w o' hga hgb =>
    obtain ⟨rfl, -⟩ := ObjectGraph.resolve_eq_some.1 hga
    have hw := hpairs z w o' hgb hab
    obtain ⟨rfl, -⟩ := ObjectGraph.resolve_eq_some.1 hgb
    exact Or.inr ⟨z, w, rfl, rfl, hw⟩
  case h_2 hga hgb => exact Or.inl ((hnull hf ha hga).trans (hnull hk hb hgb).symm)
  case h_3 => exact hab.elim

/-- **Restored objects agree** with those that were packed, as far as these are compared. -/
theorem Twins.bisimulation (htw : Twins s cs g m) (hm : Matching s g g m)
    (ht : Towards s g g m g h) (hframes : SameFrames g h)
    (hres : ∀ z, Relation.ReflTransGen (ObjectGraph.PackedChild s g) dst z →
      ObjectRestored s g g m h z) {pairs : Pairing}
    (hpairs : ∀ x y, pairs y = some x ↔
      m x y ∧ Relation.ReflTransGen (ObjectGraph.PackedChild s g) dst y) :
    Bisimulation cs h pairs := by
  intro x y hxy
  obtain ⟨hxy, hy⟩ := (hpairs x y).1 hxy
  obtain ⟨o, o', ho, ho', -⟩ := hm.objects hxy
  obtain ⟨left, hl, hlo⟩ := hframes.symm.exists_object ho
  obtain ⟨right, hr, hro⟩ := hframes.symm.exists_object ho'
  obtain ⟨hname, htype⟩ := htw.types hxy ho ho'
  rw [← DataObject.typeName_frame o', ← DataObject.typeName_frame o, ← hlo, ← hro,
    DataObject.typeName_frame, DataObject.typeName_frame] at hname
  rw [← DataObject.concreteType_frame o', ← DataObject.concreteType_frame o, ← hlo, ← hro,
    DataObject.concreteType_frame, DataObject.concreteType_frame] at htype
  refine ⟨left, right, hl, hr, fun _ => hname.symm, .inr htype.symm, ?_⟩
  rintro ⟨f, k₁⟩ hfk₁ hcmp
  obtain ⟨index, hindex⟩ := List.mem_iff_getElem?.1 hfk₁
  obtain ⟨hf, hk₁⟩ : left.fields[index]? = some f ∧ right.fields[index]? = some k₁ :=
    List.getElem?_zip_eq_some.1 hindex
  rw [← ObjectGraph.field?_of_object? hl, htw.field?_eq ht hxy] at hf
  rw [← ObjectGraph.field?_of_object? hr] at hk₁
  obtain ⟨hpk, hfull⟩ := htw.fields hxy hf hcmp
  -- the right field holds what was packed of the left one
  obtain ⟨k, hk, hfk⟩ := hm.exists_right hxy hf
  obtain ⟨x', f', k', hx', hf', -, hk', hheld⟩ := hres y hy hxy hf hpk
  obtain rfl := hm.injective hxy hx'
  cases hf.symm.trans hf'
  cases hk.symm.trans hk'
  obtain rfl := Option.some.inj (hk₁.symm.trans hheld)
  have hd := hfk.data hpk
  show f.data.Agrees pairs (f.data.carried s.bigEndian k.data)
  by_cases hc : ∃ a, f.data = .child a
  · obtain ⟨a, ha⟩ := hc
    obtain ⟨b, hb, hab⟩ := hd.exists_child ha
    rw [ha, hb]
    refine htw.agrees_child hf hk ha hb hab fun z w o hw hzw => ?_
    exact (hpairs z w).2 ⟨hzw, hy.tail ⟨index, k, b, o, hk, hfk.isPacked_eq ▸ hpk, hb, hw⟩⟩
  · have hne : ∀ a, f.data ≠ .child a := fun a ha => hc ⟨a, ha⟩
    rw [FieldData.agrees_of_ne_child fun l _ hl => absurd hl (hne l)]
    exact FieldData.agreesPlain_carried hne hd.fits hfull

end Restoring

/-! ### There, back, and compared -/

section Comparing

variable {g : ObjectGraph} {m : ObjectRef → ObjectRef → Prop} {p q : Packer}
  {src dst : ObjectRef}

/-- A part of a graph that is packed and unpacked into a matching part of it restores that part,
and the graph keeps its frames. -/
theorem Matching.exists_restored (t : Transport) (hm : Matching p.settings g g m)
    (hroot : m src dst) (hpol : p.settings.policy ≠ .reference) (hq : q.settings = p.settings)
    (hidle : ∀ x y, m x y → p.visits.contains (instanceId x) = false ∧
      q.visits.contains (instanceId y) = false) :
    ∃ h q', g.unpack dst (t.carry (g.pack src p)) q = (.ok (g.pack src p).size, h, q') ∧
      Towards p.settings g g m g h ∧ SameFrames g h ∧
      ∀ z, Relation.ReflTransGen (ObjectGraph.PackedChild p.settings g) dst z →
        ObjectRestored p.settings g g m h z := by
  obtain ⟨o, v, ho, hunpack, -, herrors, hcursor, ht, hres⟩ :=
    hm.exists_unpacked t hroot hpol hq hidle
  have hframes := sameFrames_unpackFields (fun _ _ _ hsub => sameFrames_unpackObject hsub) hunpack
  obtain ⟨v', hunpack', hv⟩ :=
    ObjectGraph.exists_unpackLoaded dst ⟨g, t.carry (g.pack src p) q.reset⟩ ho
  obtain rfl := Option.some.inj (hunpack.symm.trans hunpack')
  have hresult := ObjectGraph.unpack_of_unpackLoaded? hv
  have hok := (ObjectGraph.unpackOutcome_of_errors_eq_nil (t.carry (g.pack src p) q.reset).size
    (p := { v.packer with
      scope := v.packer.scope.up
      visits := if (t.carry (g.pack src p) q.reset).visits.contains (instanceId dst)
        then v.packer.visits else v.packer.visits.leave (instanceId dst) }) herrors).1
  rw [hok, hcursor] at hresult
  exact ⟨_, _, hresult, ht, hframes, hres⟩

/-- **Packing, unpacking and comparing agree.**  A part of a graph is packed and unpacked into its
twin, in either bit order, with and without metadata, in any form of the stream, whatever is shared
and whatever cycles there are.  This succeeds, and any comparison at the top of the first part with
the second is true and keeps no miscompare, as long as it follows references and what it compares
was packed. -/
theorem ObjectGraph.compare_unpack_pack (t : Transport) {c : Comparer}
    (hm : Matching p.settings g g m) (htw : Twins p.settings c.settings g m) (hroot : m src dst)
    (hpol : p.settings.policy ≠ .reference) (hq : q.settings = p.settings)
    (hidle : ∀ x y, m x y → p.visits.contains (instanceId x) = false ∧
      q.visits.contains (instanceId y) = false)
    (hnames : g.PlainNames) (hg : g.Faithful c.settings) (hc : c.scope.depth = 0) :
    let result := g.unpack dst (t.carry (g.pack src p)) q
    result.1 = .ok (g.pack src p).size ∧
      ∃ out, result.2.1.compare? src (some dst) c = some out ∧
        out.1 = true ∧ out.2.result = 0 := by
  intro result
  obtain ⟨h, q', hresult, ht, hframes, hres⟩ := hm.exists_restored t hroot hpol hq hidle
  obtain ⟨pairs, hpairs⟩ := exists_pairing (P := fun x y =>
    m x y ∧ Relation.ReflTransGen (PackedChild p.settings g) dst y)
    fun x x' y hx hx' => hm.injective hx.1 hx'.1
  have hbis := htw.bisimulation hm ht hframes hres hpairs
  rw [show result = _ from hresult]
  exact ⟨rfl, exists_compare_of_bisimulation (hnames.towards ht hframes) (hg.sameFrames hframes) hc
    hbis ((hpairs src dst).2 ⟨hroot, .refl⟩)⟩

end Comparing

/-- What holds of all fields can be checked object by object. -/
theorem ObjectGraph.forall_field? {g : ObjectGraph} {P : Field → Prop}
    (hP : ∀ o ∈ g.objects.toList, ∀ f ∈ o.fields, P f) {r : ObjectRef} {index : Nat} {f : Field}
    (hf : g.field? r index = some f) : P f := by
  rw [field?, Option.bind_eq_some_iff] at hf
  obtain ⟨o, ho, hf⟩ := hf
  exact forall_object?_iff.2 hP r o ho f (List.mem_of_getElem? hf)

theorem twins_twoRings :
    Twins { useMetadata := true } {} ObjectGraph.twoRings
      fun (x y : Nat) => y = x + 2 ∧ x < 2 where
  apart := by
    rintro x y x' y' ⟨-, hx⟩ ⟨rfl, -⟩ rfl
    omega
  types := by
    rintro x y o o' ⟨rfl, hx⟩ ho ho'
    obtain rfl | rfl := Nat.le_one_iff_eq_zero_or_eq_one.1 (Nat.le_of_lt_succ hx)
    all_goals
      cases ho
      cases ho'
      exact ⟨rfl, rfl⟩
  fields := by
    intro x y index f _ hf _
    refine ObjectGraph.forall_field? (P := fun f => f.isPacked { useMetadata := true } ∧
      f.data.PackedInFull) ?_ hf
    simp [ObjectGraph.twoRings, DataObject.fields, Field.isPacked, Visibility.holds,
      FieldData.PackedInFull]
  resolves := by
    intro r index f target hf ht
    have hlt := ObjectGraph.forall_field? (P := fun f => ∀ target, f.data = .child (some target) →
      target < ObjectGraph.twoRings.size) (by
        simp [ObjectGraph.twoRings, DataObject.fields, ObjectGraph.size]) hf
    exact hlt target ht

/-- A ring is packed into words and unpacked into the other one, which then compares equal although
a number of the first has a bit above its size. -/
theorem ObjectGraph.compare_unpack_pack_twoRings :
    let p : Packer := { settings := { useMetadata := true } }
    let result := twoRings.unpack 2 (Transport.words.carry (twoRings.pack 0 p)) p
    result.1 = .ok (twoRings.pack 0 p).size ∧
      (result.2.1.compare? 0 (some 2) {}).map (fun out => (out.1, out.2.result)) =
        some (true, 0) := by
  intro p result
  have hroot : (fun (x y : Nat) => y = x + 2 ∧ x < 2) 0 2 := ⟨rfl, by decide⟩
  obtain ⟨hok, out, hout, hsame, hresult⟩ := compare_unpack_pack (p := p) (q := p) (c := {}) .words
    matching_twoRings twins_twoRings hroot (by decide) rfl (fun x y _ => ⟨rfl, rfl⟩)
    (forall_object?_iff.2 (by decide))
    ⟨forall_object?_iff.2 (by decide), by decide⟩ rfl
  exact ⟨hok, by rw [hout, Option.map_some, hsame, hresult]⟩

end FieldAutomation
