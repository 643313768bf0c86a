import FieldAutomation.Proofs.Packing.Independence

/-!
# Null references without metadata

Without metadata nothing in a stream says that a reference is null: packing one writes no bit.  It
does what packing a number of no bits would do.  So a graph with null references is packed into the
same stream as one without, which has such numbers in their places, and graphs of one shape stay
of one shape when their null references are replaced.

* `ObjectGraph.isNull`: the fields that refer to no object;
* `ObjectGraph.standIn`, `ObjectGraph.filled`: numbers of no bits in their places;
* `Delimited`: no text is read to its end.

Main statements: `ObjectGraph.pack_filled` and `Matching.filled`.
-/

namespace FieldAutomation

open ObjectGraph (instanceId)

open Packer

/-! ### Stand-ins -/

namespace ObjectGraph

variable (g : ObjectGraph) (mark : Nat)

/-- Whether a field refers to no object. -/
def isNull (f : Field) : Bool :=
  match f.data with
  | .child target => (g.resolve target).isNone
  | _ => false

/-- A field, or a number of no bits in its place if it refers to no object. -/
def standIn (f : Field) : Field :=
  if g.isNull f then { f with data := .int mark 0 .dec } else f

/-- An object with such numbers in place of its null references. -/
def fillObject (o : DataObject) : DataObject :=
  o.mapFields fun fields => fields.map (g.standIn mark)

/-- The graph with such numbers in place of its null references. -/
def filled : ObjectGraph := ⟨g.objects.map (g.fillObject mark)⟩

variable {g mark} {f : Field} {r : ObjectRef}

theorem isNull_iff : g.isNull f ↔ ∃ target, f.data = .child target ∧ g.resolve target = none := by
  unfold isNull
  split
  next target hd => simp [hd]
  next hd => exact iff_of_false Bool.false_ne_true fun ⟨target, h, _⟩ => hd target h

theorem isNull_eq_false {target : Option ObjectRef} {found : ObjectRef × DataObject}
    (hd : f.data = .child target) (hr : g.resolve target = some found) : g.isNull f = false := by
  rw [isNull, hd]
  simp [hr]

theorem isNull_eq_false_of_ne_child (hd : ∀ target, f.data ≠ .child target) :
    g.isNull f = false := by
  rw [← Bool.not_eq_true, isNull_iff]
  rintro ⟨target, h, -⟩
  exact hd target h

theorem standIn_of_null (h : g.isNull f = true) :
    g.standIn mark f = { f with data := .int mark 0 .dec } := if_pos h

theorem standIn_of_not_null (h : g.isNull f = false) : g.standIn mark f = f :=
  if_neg (by simp [h])

@[simp] theorem visibility_standIn : (g.standIn mark f).visibility = f.visibility := by
  unfold standIn
  split <;> rfl

theorem isPacked_standIn (s : PackerSettings) : (g.standIn mark f).isPacked s = f.isPacked s := by
  rw [Field.isPacked, visibility_standIn, Field.isPacked]

@[simp] theorem fields_fillObject (o : DataObject) :
    (g.fillObject mark o).fields = o.fields.map (g.standIn mark) := by
  cases hb : o.body <;> simp [fillObject, DataObject.mapFields, DataObject.fields, hb]

@[simp] theorem name_fillObject (o : DataObject) : (g.fillObject mark o).name = o.name :=
  DataObject.name_mapFields ..

theorem object?_filled (r : ObjectRef) :
    (g.filled mark).object? r = (g.object? r).map (g.fillObject mark) := by
  simp [filled, object?]

theorem depthBound_filled : (g.filled mark).depthBound = g.depthBound := by
  simp [depthBound, size, filled]

theorem field?_filled (r : ObjectRef) (index : Nat) :
    (g.filled mark).field? r index = (g.field? r index).map (g.standIn mark) := by
  rw [field?, object?_filled, field?]
  cases g.object? r with
  | none => rfl
  | some o => simp

theorem resolve_filled (target : Option ObjectRef) :
    (g.filled mark).resolve target =
      (g.resolve target).map fun found => (found.1, g.fillObject mark found.2) := by
  cases target with
  | none => rfl
  | some r =>
    simp only [resolve, Option.bind_some, object?_filled, Option.map_map]
    rfl

theorem resolve_filled_of_some {target : Option ObjectRef} {o : DataObject}
    (h : g.resolve target = some (r, o)) :
    (g.filled mark).resolve target = some (r, g.fillObject mark o) := by
  rw [resolve_filled, h, Option.map_some]

theorem PackedChild.filled {s : PackerSettings} {y z : ObjectRef} (h : PackedChild s g y z) :
    PackedChild s (g.filled mark) y z := by
  obtain ⟨index, f, target, o, hf, hp, hd, hr⟩ := h
  refine ⟨index, f, target, _, ?_, hp, hd, resolve_filled_of_some hr⟩
  rw [field?_filled, hf, Option.map_some, standIn_of_not_null (isNull_eq_false hd hr)]

end ObjectGraph

/-! ### Packing -/

namespace Packer

variable {g : ObjectGraph} {mark : Nat} {p : Packer} {visits : VisitSet}
  {sub sub' : Option ObjectRef → Packer → Option Packer}

theorem packInt_zero (p : Packer) (v : Nat) : p.packInt v 0 = p := by
  simp [packInt, writeField, BitStore.write]

theorem packMarker_of_not_metadata (hm : p.settings.useMetadata = false) (follows : Bool) :
    p.packMarker follows = p := by
  rw [packMarker, if_neg (by simp [hm])]

/-- Without metadata, a null reference is packed like a number of no bits. -/
theorem packField_standIn (hm : p.settings.useMetadata = false)
    (hsub : ∀ target, sub' target p = sub target p)
    (hnull : ∀ target, g.resolve target = none → sub target p = some (p.packMarker false))
    (f : Field) : packField sub' (g.standIn mark f) p = packField sub f p := by
  have hincludes : p.includes (g.standIn mark f) = p.includes f :=
    ObjectGraph.isPacked_standIn p.settings
  cases hp : p.includes f with
  | false =>
    rw [packField_of_not_includes (hincludes.trans hp), packField_of_not_includes hp]
  | true =>
    cases hf : g.isNull f with
    | true =>
      obtain ⟨target, hd, hr⟩ := ObjectGraph.isNull_iff.1 hf
      rw [packField_of_child hp hd, hnull target hr, packMarker_of_not_metadata hm]
      rw [packField_of_ne_child (hincludes.trans hp)] <;> rw [ObjectGraph.standIn_of_null hf]
      · exact congrArg some (p.packInt_zero mark)
      · simp
    | false =>
      rw [ObjectGraph.standIn_of_not_null hf]
      by_cases hc : ∃ target, f.data = .child target
      · obtain ⟨target, hd⟩ := hc
        rw [packField_of_child hp hd, packField_of_child hp hd, hsub]
      · have hne : ∀ target, f.data ≠ .child target := fun target hd => hc ⟨target, hd⟩
        rw [packField_of_ne_child hp hne, packField_of_ne_child hp hne]

theorem packFields_standIn (hp : p.visits = visits) (hm : p.settings.useMetadata = false)
    (happ : ∀ target p, p.visits = visits → ∃ q, sub target p = some q ∧ Appended p q)
    (hsub : ∀ target p, p.visits = visits → p.settings.useMetadata = false →
      sub' target p = sub target p)
    (hnull : ∀ target p, g.resolve target = none → sub target p = some (p.packMarker false))
    (fields : List Field) :
    packFields sub' (fields.map (g.standIn mark)) p = packFields sub fields p := by
  induction fields generalizing p with
  | nil => rfl
  | cons f rest ih =>
    rw [List.map_cons, packFields_cons, packFields_cons,
      packField_standIn hm (hsub · p hp hm) (hnull · p)]
    obtain ⟨q, hq, hpq⟩ := exists_packField happ f hp
    rw [hq, Option.bind_some, Option.bind_some]
    exact ih (hpq.visits.trans hp) (by rw [hpq.settings, hm])

/-- Packing an object takes no notice of such numbers. -/
theorem packObject_filled (mark fuel : Nat) (target : Option ObjectRef)
    (hp : g.unvisited p.visits < fuel) (hm : p.settings.useMetadata = false) :
    packObject (g.filled mark) fuel target p = packObject g fuel target p := by
  induction fuel generalizing target p with
  | zero => exact absurd hp (Nat.not_lt_zero _)
  | succ fuel ih =>
    cases hr : g.resolve target with
    | none =>
      have hfilled : (g.filled mark).resolve target = none := by
        rw [ObjectGraph.resolve_filled, hr, Option.map_none]
      rw [packObject_of_resolve_eq_none hfilled, packObject_of_resolve_eq_none hr]
    | some found =>
      obtain ⟨r, o⟩ := found
      have hfilled : (g.filled mark).resolve target = some (r, g.fillObject mark o) :=
        ObjectGraph.resolve_filled_of_some hr
      cases hv : p.visits.contains (instanceId r) with
      | true => rw [packObject_of_visited hfilled hv, packObject_of_visited hr hv]
      | false =>
        by_cases hpol : p.settings.policy = .reference
        · rw [packObject_of_reference fuel hfilled hv hpol, packObject_of_reference fuel hr hv hpol]
        · have hV := VisitSet.enter?_of_not_contains hv
          generalize (⟨instanceId r :: p.visits.active⟩ : VisitSet) = visits at hV
          have hlt := ObjectGraph.unvisited_enter?
            (ObjectGraph.lt_size_of_object? (ObjectGraph.resolve_eq_some.1 hr).2) hV
          have hmarker : { p with visits }.packMarker true = { p with visits } :=
            packMarker_of_not_metadata (p := { p with visits }) hm true
          have hdeep : g.unvisited visits < fuel := by omega
          -- one level below, at least one more is left to find out that a reference is null
          have hfields :
              packFields (packObject (g.filled mark) fuel) (o.fields.map (g.standIn mark))
                { p with visits, scope := p.scope.down o.name } =
              packFields (packObject g fuel) o.fields
                { p with visits, scope := p.scope.down o.name } :=
            packFields_standIn (p := { p with visits, scope := p.scope.down o.name }) rfl hm
              (fun target q hq => exists_packObject g fuel target (by rw [hq]; exact hdeep))
              (fun target q hq hqm => ih target (by rw [hq]; exact hdeep) hqm)
              (fun target q hnull => by
                obtain ⟨n, rfl⟩ : ∃ n, fuel = n + 1 := ⟨fuel - 1, by omega⟩
                exact packObject_of_resolve_eq_none hnull) o.fields
          rw [packObject_of_not_visited hfilled hV hpol, packObject_of_not_visited hr hV hpol,
            hmarker, ObjectGraph.fields_fillObject, ObjectGraph.name_fillObject]
          exact congrArg (Option.bind · _) hfields

end Packer

namespace ObjectGraph

/-- **Null references are packed like numbers of no bits**, if metadata is not used. -/
theorem pack_filled (g : ObjectGraph) (mark : Nat) (r : ObjectRef) {p : Packer}
    (hm : p.settings.useMetadata = false) : (g.filled mark).pack r p = g.pack r p := by
  cases ho : g.object? r with
  | none =>
    have hfilled : (g.filled mark).object? r = none := by rw [object?_filled, ho]; rfl
    simp only [pack, pack?, ho, hfilled]
  | some o =>
    have hfilled : (g.filled mark).object? r = some (g.fillObject mark o) := by
      rw [object?_filled, ho, Option.map_some]
    have hroot : packRoot r (g.fillObject mark o) p.reset = packRoot r o p.reset := by
      simp only [packRoot, name_fillObject]
    have hfields : packFields (Packer.packObject (g.filled mark) g.depthBound)
        (o.fields.map (g.standIn mark)) (packRoot r o p.reset) =
        packFields (Packer.packObject g g.depthBound) o.fields (packRoot r o p.reset) :=
      packFields_standIn (p := packRoot r o p.reset) rfl hm
        (fun target q _ =>
          exists_packObject g g.depthBound target (g.unvisited_lt_depthBound q.visits))
        (fun target q _ hqm =>
          packObject_filled mark g.depthBound target (g.unvisited_lt_depthBound q.visits) hqm)
        (fun target q hnull => packObject_of_resolve_eq_none hnull) o.fields
    simp only [pack, pack?, ho, hfilled, depthBound_filled, fields_fillObject, hroot, hfields]

end ObjectGraph

/-! ### Matchings -/

section Matching

variable {s : PackerSettings} {g h : ObjectGraph} {m : ObjectRef → ObjectRef → Prop}

/-- No text of a field that is matched and packed is read to its end. -/
def Delimited (s : PackerSettings) (h : ObjectGraph) (m : ObjectRef → ObjectRef → Prop) : Prop :=
  ∀ ⦃x y⦄, m x y → ∀ ⦃index k⦄, h.field? y index = some k → k.isPacked s → ¬k.data.ReadsToEnd

theorem DataMatch.of_not_readsToEnd {d into : FieldData} (hc : ∀ a, d ≠ .child a)
    (hl : d.WithinLimits) (hf : d.Fits into) (hend : ¬into.ReadsToEnd) :
    DataMatch s g h m d into := by
  unfold DataMatch
  split
  next a b => exact absurd rfl (hc a)
  next => exact ⟨hl, hf, fun he => absurd he hend⟩

/-- Packed fields that match as with metadata are both null, or refer to matched objects, or refer
to none at all. -/
theorem FieldsMatch.data_cases {f k : Field}
    (hfk : FieldsMatch { s with useMetadata := true } g h m f k) (hp : f.isPacked s) :
    (g.isNull f ∧ h.isNull k) ∨
      (∃ a b x o y o', f.data = .child a ∧ k.data = .child b ∧ g.resolve a = some (x, o) ∧
        h.resolve b = some (y, o') ∧ m x y) ∨
      ((∀ a, f.data ≠ .child a) ∧ (∀ b, k.data ≠ .child b) ∧ f.data.WithinLimits ∧
        f.data.Fits k.data) := by
  have hd := hfk.data hp
  by_cases hc : ∃ a, f.data = .child a
  · obtain ⟨a, ha⟩ := hc
    obtain ⟨b, hb, hab⟩ := hd.exists_child ha
    unfold TargetsMatch at hab
    split at hab
    next x o y o' hga hhb => exact .inr (.inl ⟨a, b, x, o, y, o', ha, hb, hga, hhb, hab⟩)
    next hga hhb =>
      exact .inl ⟨ObjectGraph.isNull_iff.2 ⟨a, ha, hga⟩, ObjectGraph.isNull_iff.2 ⟨b, hb, hhb⟩⟩
    next => exact hab.elim
  · have hne : ∀ a, f.data ≠ .child a := fun a ha => hc ⟨a, ha⟩
    obtain ⟨hl, hf, -⟩ := hd.of_ne_child hne
    exact .inr (.inr ⟨hne, hf.ne_child hne, hl, hf⟩)

theorem FieldsMatch.isNull_eq {f k : Field}
    (hfk : FieldsMatch { s with useMetadata := true } g h m f k) (hp : f.isPacked s) :
    h.isNull k = g.isNull f := by
  rcases hfk.data_cases hp with ⟨hf, hk⟩ | ⟨a, b, x, o, y, o', ha, hb, hga, hhb, -⟩ | ⟨hf, hk, -⟩
  · rw [hf, hk]
  · rw [ObjectGraph.isNull_eq_false ha hga, ObjectGraph.isNull_eq_false hb hhb]
  · rw [ObjectGraph.isNull_eq_false_of_ne_child hf, ObjectGraph.isNull_eq_false_of_ne_child hk]

theorem FieldsMatch.standIn {f k : Field}
    (hfk : FieldsMatch { s with useMetadata := true } g h m f k)
    (htext : k.isPacked s → ¬k.data.ReadsToEnd) (mark mark' : Nat) :
    FieldsMatch s (g.filled mark) (h.filled mark') m (g.standIn mark f) (h.standIn mark' k) := by
  constructor
  case visibility =>
    rw [ObjectGraph.visibility_standIn, ObjectGraph.visibility_standIn, hfk.visibility]
  case data =>
    intro hp
    rw [ObjectGraph.isPacked_standIn] at hp
    rcases hfk.data_cases hp with ⟨hf, hk⟩ | ⟨a, b, x, o, y, o', ha, hb, hga, hhb, hxy⟩ |
      ⟨hf, hk, hl, hfits⟩
    · rw [ObjectGraph.standIn_of_null hf, ObjectGraph.standIn_of_null hk]
      exact ⟨Nat.zero_le _, rfl, nofun⟩
    · rw [ObjectGraph.standIn_of_not_null (ObjectGraph.isNull_eq_false ha hga),
        ObjectGraph.standIn_of_not_null (ObjectGraph.isNull_eq_false hb hhb), ha, hb]
      simp only [DataMatch, TargetsMatch, ObjectGraph.resolve_filled_of_some hga,
        ObjectGraph.resolve_filled_of_some hhb]
      exact hxy
    · rw [ObjectGraph.standIn_of_not_null (ObjectGraph.isNull_eq_false_of_ne_child hf),
        ObjectGraph.standIn_of_not_null (ObjectGraph.isNull_eq_false_of_ne_child hk)]
      exact .of_not_readsToEnd hf hl hfits (htext (hfk.isPacked_eq ▸ hp))

/-- Graphs that match as with metadata, match without it once numbers of no bits are in place of
their null references. -/
theorem Matching.filled (hm : Matching { s with useMetadata := true } g h m)
    (htext : Delimited s h m) (mark mark' : Nat) :
    Matching s (g.filled mark) (h.filled mark') m where
  objects {x y} hxy := by
    obtain ⟨o, o', ho, ho', hfields⟩ := hm.objects hxy
    refine ⟨g.fillObject mark o, h.fillObject mark' o', by rw [ObjectGraph.object?_filled, ho]; rfl,
      by rw [ObjectGraph.object?_filled, ho']; rfl, ?_⟩
    rw [ObjectGraph.fields_fillObject, ObjectGraph.fields_fillObject, List.forall₂_map_left_iff,
      List.forall₂_map_right_iff]
    obtain ⟨hlen, hzip⟩ := List.forall₂_iff_zip.1 hfields
    refine List.forall₂_iff_zip.2 ⟨hlen, fun {f k} hfk => ?_⟩
    obtain ⟨index, hindex⟩ := List.mem_iff_getElem?.1 (List.of_mem_zip hfk).2
    rw [← ObjectGraph.field?_of_object? ho'] at hindex
    exact (hzip hfk).standIn (htext hxy hindex) mark mark'
  functional := hm.functional
  injective := hm.injective

end Matching

end FieldAutomation
