import FieldAutomation.Proofs.Graph
import FieldAutomation.Proofs.Stream.Reading

/-!
# Graphs of one shape

What a graph was packed from can be unpacked into another one of the same shape.  A matching pairs
the objects of the two: matched objects have fields of the same kinds and sizes, and refer to
matched objects.  While it is unpacked into, a graph goes from its own values towards the packed
ones, field by field, and never back.

* `Field.isPacked`, `ObjectGraph.PackedChild`: the fields that are packed, and the objects that
  they refer to;
* `Matching`: two graphs of one shape;
* `FieldRestored`, `ObjectRestored`: fields and objects that hold what was packed;
* `Towards`: a graph before and after a part of the unpacking.

Main statements: `Towards.eq_or_eq_carried` (a matched field holds its own value or the packed
one) and `towards_setData`.
-/

namespace FieldAutomation

open ObjectGraph (instanceId)

/-- Whether a field is packed. -/
def Field.isPacked (s : PackerSettings) (f : Field) : Bool :=
  f.visibility.holds s.physicalFields s.abstractFields

/-- What the field `into` is after `f` was unpacked into it. -/
def Field.carried (bigEndian : Bool) (f into : Field) : Field :=
  { into with data := f.data.carried bigEndian into.data }

theorem Packer.includes_eq (p : Packer) (f : Field) : p.includes f = f.isPacked p.settings := rfl

theorem FieldData.carried_carried (bigEndian : Bool) (d into : FieldData) :
    d.carried bigEndian (d.carried bigEndian into) = d.carried bigEndian into := by
  cases d <;> cases into <;> rfl

theorem Field.carried_carried (bigEndian : Bool) (f into : Field) :
    f.carried bigEndian (f.carried bigEndian into) = f.carried bigEndian into := by
  rw [carried, carried, FieldData.carried_carried]

namespace ObjectGraph

variable {g : ObjectGraph} {r : ObjectRef} {index : Nat}

/-- A field of `r` that is packed refers to `c`. -/
def PackedChild (s : PackerSettings) (g : ObjectGraph) (r c : ObjectRef) : Prop :=
  ∃ index f target o, g.field? r index = some f ∧ f.isPacked s ∧ f.data = .child target ∧
    g.resolve target = some (c, o)

end ObjectGraph

/-! ### Matchings -/

section Matching

variable (s : PackerSettings) (g h : ObjectGraph) (m : ObjectRef → ObjectRef → Prop)

/-- References that match: to matched objects, or both to none if metadata is used. -/
def TargetsMatch (a b : Option ObjectRef) : Prop :=
  match g.resolve a, h.resolve b with
  | some (x, _), some (y, _) => m x y
  | none, none => s.useMetadata = true
  | _, _ => False

/-- Data that can be packed, and be unpacked into other data. -/
def DataMatch (d into : FieldData) : Prop :=
  match d, into with
  | .child a, .child b => TargetsMatch s g h m a b
  | d, into => d.WithinLimits ∧ d.Fits into ∧ (into.ReadsToEnd → s.useMetadata = true)

/-- Fields that match: both are packed, and their data match, or neither is. -/
structure FieldsMatch (f k : Field) : Prop where
  visibility : k.visibility = f.visibility
  data : f.isPacked s → DataMatch s g h m f.data k.data

/-- A matching of two graphs: each object is matched once at most, field by field. -/
structure Matching : Prop where
  objects : ∀ {x y}, m x y → ∃ o o', g.object? x = some o ∧ h.object? y = some o' ∧
    List.Forall₂ (FieldsMatch s g h m) o.fields o'.fields
  functional : ∀ {x y y'}, m x y → m x y' → y' = y
  injective : ∀ {x x' y}, m x y → m x' y → x' = x

end Matching

variable {s : PackerSettings} {g h : ObjectGraph} {m : ObjectRef → ObjectRef → Prop}

theorem DataMatch.fits {d into : FieldData} (hd : DataMatch s g h m d into) : d.Fits into := by
  unfold DataMatch at hd
  split at hd
  · trivial
  · exact hd.2.1

theorem DataMatch.exists_child {d into : FieldData} {a : Option ObjectRef}
    (hd : DataMatch s g h m d into) (ha : d = .child a) :
    ∃ b, into = .child b ∧ TargetsMatch s g h m a b := by
  subst ha
  have hf := hd.fits
  cases into <;> try exact hf.elim
  case child b => exact ⟨b, rfl, hd⟩

theorem DataMatch.of_ne_child {d into : FieldData} (hd : DataMatch s g h m d into)
    (hc : ∀ a, d ≠ .child a) :
    d.WithinLimits ∧ d.Fits into ∧ (into.ReadsToEnd → s.useMetadata = true) := by
  unfold DataMatch at hd
  split at hd
  · next a _ => exact absurd rfl (hc a)
  · exact hd

theorem FieldData.Fits.ne_child {d into : FieldData} (hf : d.Fits into)
    (hc : ∀ a, d ≠ .child a) (b : Option ObjectRef) : into ≠ .child b := by
  rintro rfl
  cases d <;> try exact hf.elim
  case child a => exact hc a rfl

/-- A field that was unpacked into still matches. -/
theorem DataMatch.carried {d into : FieldData} (hd : DataMatch s g h m d into) :
    DataMatch s g h m d (d.carried s.bigEndian into) := by
  -- kinds, sizes and lengths are what they were
  have hf := hd.fits
  cases d <;> cases into <;> try exact hf.elim
  case array.array kind values size _ _ _ _ _ =>
    obtain ⟨hl, -, hr⟩ := hd
    exact ⟨hl, ⟨rfl, by simp [keptElements], rfl⟩, hr⟩
  case elements.elements values size _ _ _ _ =>
    obtain ⟨hl, -, hr⟩ := hd
    exact ⟨hl, ⟨by simp, rfl⟩, hr⟩
  case int.int => exact ⟨hd.1, rfl, fun hr => hr.elim⟩
  case wide.wide => exact ⟨hd.1, rfl, fun hr => hr.elim⟩
  case str.str _ _ _ length => cases length <;> exact hd
  all_goals exact hd

theorem FieldsMatch.isPacked_eq {f k : Field} (hfk : FieldsMatch s g h m f k) :
    k.isPacked s = f.isPacked s := by
  rw [Field.isPacked, hfk.visibility, Field.isPacked]

theorem FieldsMatch.carried {f k : Field} (hfk : FieldsMatch s g h m f k) :
    FieldsMatch s g h m f (f.carried s.bigEndian k) :=
  ⟨hfk.visibility, fun hp => (hfk.data hp).carried⟩

namespace Matching

variable {x y : ObjectRef} {index : Nat}

/-- The fields of matched objects match one by one. -/
theorem fields (hm : Matching s g h m) (hxy : m x y) (index : Nat) :
    (g.field? x index = none ∧ h.field? y index = none) ∨
      ∃ f k, g.field? x index = some f ∧ h.field? y index = some k ∧ FieldsMatch s g h m f k := by
  obtain ⟨o, o', ho, ho', hfields⟩ := hm.objects hxy
  rw [ObjectGraph.field?_of_object? ho, ObjectGraph.field?_of_object? ho']
  generalize o.fields = fs at hfields
  generalize o'.fields = ks at hfields
  induction hfields generalizing index with
  | nil => exact Or.inl ⟨rfl, rfl⟩
  | cons hfk _ ih =>
    cases index with
    | zero => exact Or.inr ⟨_, _, rfl, rfl, hfk⟩
    | succ index => exact ih index

theorem exists_right {f : Field} (hm : Matching s g h m) (hxy : m x y)
    (hf : g.field? x index = some f) :
    ∃ k, h.field? y index = some k ∧ FieldsMatch s g h m f k := by
  rcases hm.fields hxy index with ⟨hn, -⟩ | ⟨f', k, hf', hk, hfk⟩
  · rw [hf] at hn
    cases hn
  · rw [hf] at hf'
    cases hf'
    exact ⟨k, hk, hfk⟩

theorem exists_left {k : Field} (hm : Matching s g h m) (hxy : m x y)
    (hk : h.field? y index = some k) :
    ∃ f, g.field? x index = some f ∧ FieldsMatch s g h m f k := by
  rcases hm.fields hxy index with ⟨-, hn⟩ | ⟨f, k', hf, hk', hfk⟩
  · rw [hk] at hn
    cases hn
  · rw [hk] at hk'
    cases hk'
    exact ⟨f, hf, hfk⟩

/-- Objects that matched ones refer to are matched. -/
theorem exists_packedChild {z : ObjectRef} (hm : Matching s g h m) (hxy : m x y)
    (hz : ObjectGraph.PackedChild s h y z) : ∃ w, m w z := by
  obtain ⟨index, k, b, o, hk, hp, hb, hres⟩ := hz
  obtain ⟨f, -, hfk⟩ := hm.exists_left hxy hk
  have hd := hfk.data (by rw [← hfk.isPacked_eq]; exact hp)
  have hfits := hd.fits
  rw [hb] at hd hfits
  cases hf : f.data <;> rw [hf] at hd hfits <;> try exact hfits.elim
  case child a =>
    simp only [DataMatch, TargetsMatch, hres] at hd
    split at hd
    · next heq =>
      cases heq
      exact ⟨_, hd⟩
    · next heq => cases heq
    · exact hd.elim

theorem exists_of_reflTransGen {z : ObjectRef} (hm : Matching s g h m) (hxy : m x y)
    (hz : Relation.ReflTransGen (ObjectGraph.PackedChild s h) y z) : ∃ w, m w z := by
  induction hz with
  | refl => exact ⟨x, hxy⟩
  | tail _ hstep ih =>
    obtain ⟨w, hw⟩ := ih
    exact hm.exists_packedChild hw hstep

end Matching

/-! ### Towards the packed values -/

section Restored

variable (s g h m)

/-- The field at `index` of `y` in the graph `h'` holds what was packed of the field that it is
matched with. -/
def FieldRestored (h' : ObjectGraph) (y : ObjectRef) (index : Nat) : Prop :=
  ∃ x f k, m x y ∧ g.field? x index = some f ∧ f.isPacked s ∧ h.field? y index = some k ∧
    h'.field? y index = some (f.carried s.bigEndian k)

/-- The fields of `y` that are packed hold what was packed. -/
def ObjectRestored (h' : ObjectGraph) (y : ObjectRef) : Prop :=
  ∀ ⦃x index f⦄, m x y → g.field? x index = some f → f.isPacked s →
    FieldRestored s g h m h' y index

/-- From `h₁` to `h₂` fields keep their values or take those that were packed. -/
structure Towards (h₁ h₂ : ObjectGraph) : Prop where
  size : h₂.size = h₁.size
  fields : ∀ y index,
    h₂.field? y index = h₁.field? y index ∨ FieldRestored s g h m h₂ y index

end Restored

variable {h₁ h₂ h₃ : ObjectGraph} {x y : ObjectRef} {index : Nat}

theorem FieldRestored.towards (hr : FieldRestored s g h m h₁ y index)
    (ht : Towards s g h m h₁ h₂) : FieldRestored s g h m h₂ y index := by
  rcases ht.fields y index with heq | hr'
  · obtain ⟨x, f, k, hxy, hf, hp, hk, hfk⟩ := hr
    exact ⟨x, f, k, hxy, hf, hp, hk, heq.trans hfk⟩
  · exact hr'

theorem ObjectRestored.towards (hr : ObjectRestored s g h m h₁ y)
    (ht : Towards s g h m h₁ h₂) : ObjectRestored s g h m h₂ y :=
  fun _ _ _ hxy hf hp => (hr hxy hf hp).towards ht

namespace Towards

theorem refl (h₁ : ObjectGraph) : Towards s g h m h₁ h₁ := ⟨rfl, fun _ _ => Or.inl rfl⟩

theorem trans (ht : Towards s g h m h₁ h₂) (ht' : Towards s g h m h₂ h₃) :
    Towards s g h m h₁ h₃ := by
  refine ⟨ht'.size.trans ht.size, fun y index => ?_⟩
  rcases ht'.fields y index with heq | hr
  · rcases ht.fields y index with heq' | hr'
    · exact Or.inl (heq.trans heq')
    · exact Or.inr (hr'.towards ht')
  · exact Or.inr hr

/-- A matched field holds its own value or, if it is packed, the one that was packed. -/
theorem eq_or_eq_carried {f k : Field} (ht : Towards s g h m h h₁) (hm : Matching s g h m)
    (hxy : m x y) (hf : g.field? x index = some f) (hk : h.field? y index = some k) :
    h₁.field? y index = some k ∨
      f.isPacked s ∧ h₁.field? y index = some (f.carried s.bigEndian k) := by
  rcases ht.fields y index with heq | ⟨x', f', k', hxy', hf', hp, hk', hfk⟩
  · exact Or.inl (heq.trans hk)
  · obtain rfl := hm.injective hxy hxy'
    rw [hf] at hf'
    rw [hk] at hk'
    cases hf'
    cases hk'
    exact Or.inr ⟨hp, hfk⟩

/-- Such a field takes the packed value whatever it held. -/
theorem exists_field {f k : Field} (ht : Towards s g h m h h₁) (hm : Matching s g h m)
    (hxy : m x y) (hf : g.field? x index = some f) (hk : h.field? y index = some k)
    (hfk : FieldsMatch s g h m f k) :
    ∃ k₁, h₁.field? y index = some k₁ ∧ FieldsMatch s g h m f k₁ ∧
      f.carried s.bigEndian k₁ = f.carried s.bigEndian k := by
  rcases ht.eq_or_eq_carried hm hxy hf hk with heq | ⟨-, heq⟩
  · exact ⟨k, heq, hfk, rfl⟩
  · exact ⟨_, heq, hfk.carried, Field.carried_carried ..⟩

theorem field?_eq_none (ht : Towards s g h m h h₁) (hk : h.field? y index = none) :
    h₁.field? y index = none := by
  rcases ht.fields y index with heq | ⟨x, f, k, -, -, -, hk', -⟩
  · exact heq.trans hk
  · rw [hk] at hk'
    cases hk'

/-- The objects of a graph stay. -/
theorem resolve_map_fst (ht : Towards s g h m h₁ h₂) (target : Option ObjectRef) :
    (h₂.resolve target).map Prod.fst = (h₁.resolve target).map Prod.fst := by
  have hs : h₂.objects.size = h₁.objects.size := ht.size
  cases target with
  | none => rfl
  | some r =>
    simp only [ObjectGraph.resolve, ObjectGraph.object?, Option.bind_some]
    by_cases hr : r < h₁.objects.size
    · have hr' : r < h₂.objects.size := hs ▸ hr
      rw [Array.getElem?_eq_getElem hr, Array.getElem?_eq_getElem hr']
      rfl
    · have hr' : h₁.objects.size ≤ r := Nat.le_of_not_lt hr
      rw [Array.getElem?_eq_none hr', Array.getElem?_eq_none (hs ▸ hr')]

end Towards

theorem Towards.exists_resolve {target : Option ObjectRef} {o : DataObject}
    (ht : Towards s g h m h₁ h₂) (hres : h₁.resolve target = some (y, o)) :
    ∃ o', h₂.resolve target = some (y, o') := by
  have heq := ht.resolve_map_fst target
  rw [hres, Option.map_some, Option.map_eq_some_iff] at heq
  obtain ⟨⟨y', o'⟩, hres', rfl⟩ := heq
  exact ⟨o', hres'⟩

/-- Unpacking a field takes it to its packed value. -/
theorem towards_setData {f k k₁ : Field} (ht : Towards s g h m h h₁) (hm : Matching s g h m)
    (hxy : m x y) (hf : g.field? x index = some f) (hp : f.isPacked s)
    (hk : h.field? y index = some k) (hk₁ : f.carried s.bigEndian k₁ = f.carried s.bigEndian k) :
    let h₂ := h₁.setData y index (f.data.carried s.bigEndian k₁.data)
    Towards s g h m h₁ h₂ ∧ FieldRestored s g h m h₂ y index := by
  intro h₂
  have hd : f.data.carried s.bigEndian k₁.data = f.data.carried s.bigEndian k.data :=
    congrArg Field.data hk₁
  have hr : FieldRestored s g h m h₂ y index := by
    refine ⟨x, f, k, hxy, hf, hp, hk, ?_⟩
    simp only [h₂, ObjectGraph.field?_setData, and_self, if_true, hd]
    rcases ht.eq_or_eq_carried hm hxy hf hk with heq | ⟨-, heq⟩
    · rw [heq]
      rfl
    · rw [heq]
      rfl
  refine ⟨⟨ObjectGraph.size_setData .., fun y' index' => ?_⟩, hr⟩
  by_cases hy : y' = y ∧ index' = index
  · obtain ⟨rfl, rfl⟩ := hy
    exact Or.inr hr
  · exact Or.inl (by rw [ObjectGraph.field?_setData, if_neg hy])

end FieldAutomation
