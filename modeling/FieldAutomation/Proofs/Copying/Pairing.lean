import FieldAutomation.Proofs.Traversal.Copying

/-!
# Copies of one shape

A copy goes from the objects of one part of a graph to the objects of another part that has the
same shape.  A pairing says which object is copied onto which.  While it is copied onto, the second
part goes from its own values to those of the first one, field by field, and nothing takes a value
back; and whatever is not copied onto stays as it is.

* `FieldData.SameValue`: data that show the same value;
* `Copying.Pairing`: two parts of a graph that have the same shape;
* `Copying.FieldCopied`, `Copying.ObjectCopied`: fields and objects that were copied onto;
* `Copying.Progress`: a graph before and after a part of a copy.

Main statements: `Copying.Progress.exists_field` (what a field of a target is meanwhile) and
`Copying.progress_copyOwn` (one field that is copied).
-/

namespace FieldAutomation

open ObjectGraph (instanceId)

/-! ### Data -/

namespace FieldData

/-- Data of one kind.  References are alike if they lead to a pair, or both to nothing. -/
def Alike (m : ObjectRef → ObjectRef → Prop) : FieldData → FieldData → Prop
  | .int .., .int .. => True
  | .wide .., .wide .. => True
  | .real .., .real .. => True
  | .str .., .str .. => True
  | .time .., .time .. => True
  | .array kind .., .array kind' .. => kind' = kind
  | .elements .., .elements .. => True
  | .generic .., .generic .. => True
  | .child a, .child b => Option.Rel m a b
  | .probe, .probe => True
  | _, _ => False

/-- Data that show the same value, whatever their width and radix.  What a reference leads to is
not part of the value. -/
def SameValue : FieldData → FieldData → Prop
  | .int v .., .int w .. => w = v
  | .wide v .., .wide w .. => w = v
  | .real x, .real y => y = x
  | .str text _, .str text' _ => text' = text
  | .time t _, .time t' _ => t' = t
  | .array kind values .., .array kind' values' .. => kind' = kind ∧ values' = values
  | .elements values .., .elements values' .. => values' = values
  | .generic text typeName, .generic text' typeName' => text' = text ∧ typeName' = typeName
  | .child _, .child _ => True
  | .probe, .probe => True
  | _, _ => False

variable {m : ObjectRef → ObjectRef → Prop} {d e : FieldData}

theorem Alike.sameValue_mergeData (h : Alike m d e) : SameValue d (Copying.mergeData e d) := by
  cases d <;> cases e <;> try exact h.elim
  case array.array kind _ _ _ kind' _ _ _ =>
    obtain rfl : kind' = kind := h
    cases kind' <;> exact ⟨rfl, rfl⟩
  case generic.generic => exact ⟨rfl, rfl⟩
  all_goals trivial

/-- What was copied onto is of the same kind as before. -/
theorem Alike.mergeData (h : Alike m d e) : Alike m d (Copying.mergeData e d) := by
  cases d <;> cases e <;> try exact h.elim
  case array.array kind _ _ _ kind' _ _ _ =>
    obtain rfl : kind' = kind := h
    cases kind' <;> rfl
  case child.child => exact h
  all_goals trivial

/-- A second copy changes nothing. -/
theorem Alike.mergeData_mergeData (h : Alike m d e) :
    Copying.mergeData (Copying.mergeData e d) d = Copying.mergeData e d := by
  cases d <;> cases e <;> try exact h.elim
  case array.array kind _ _ _ kind' _ _ _ =>
    obtain rfl : kind' = kind := h
    cases kind' <;> rfl
  all_goals rfl

/-- A copy makes no references, and takes none away. -/
theorem Alike.mergeData_eq_child_iff (h : Alike m d e) (c : Option ObjectRef) :
    Copying.mergeData e d = .child c ↔ e = .child c := by
  cases d <;> cases e <;> try exact h.elim
  case array.array kind _ _ _ kind' _ _ _ => cases kind <;> cases kind' <;> exact ⟨nofun, nofun⟩
  case child.child => exact Iff.rfl
  all_goals exact ⟨nofun, nofun⟩

/-- A reference that leads to an object is like one that leads to its source. -/
theorem Alike.exists_source {b : ObjectRef} (h : Alike m d e) (he : e = .child (some b)) :
    ∃ a, d = .child (some a) ∧ m a b := by
  subst he
  cases d <;> try exact h.elim
  case child target =>
    cases h with
    | some hab => exact ⟨_, rfl, hab⟩

end FieldData

namespace Copying

/-! ### Pairings -/

/-- An object refers to another one in one of its fields. -/
def Refers (g : ObjectGraph) (b c : ObjectRef) : Prop :=
  ∃ index k, g.field? b index = some k ∧ k.data = .child (some c)

/-- Two parts of a graph have the same shape: the objects of one are paired with those of the other
one to one, and have fields of the same kinds that refer to paired objects.  No object is in both
parts. -/
structure Pairing (g : ObjectGraph) (m : ObjectRef → ObjectRef → Prop) : Prop where
  objects : ∀ {x y}, m x y → ∃ o o', g.object? x = some o ∧ g.object? y = some o' ∧
    List.Forall₂ (fun f k => FieldData.Alike m f.data k.data) o.fields o'.fields
  functional : ∀ {x y y'}, m x y → m x y' → y' = y
  injective : ∀ {x x' y}, m x y → m x' y → x' = x
  disjoint : ∀ {x y x' y'}, m x y → m x' y' → x ≠ y'

variable {g h h₁ h₂ h₃ : ObjectGraph} {m : ObjectRef → ObjectRef → Prop} {x y : ObjectRef}
  {index : Nat} {f k : Field}

namespace Pairing

/-- The fields of paired objects are paired one by one. -/
theorem fields (hm : Pairing g m) (hxy : m x y) (index : Nat) :
    (g.field? x index = none ∧ g.field? y index = none) ∨
      ∃ f k, g.field? x index = some f ∧ g.field? y index = some k ∧
        FieldData.Alike m f.data k.data := by
  obtain ⟨o, o', ho, ho', hfields⟩ := hm.objects hxy
  rw [ObjectGraph.field?_of_object? ho, ObjectGraph.field?_of_object? ho']
  generalize o.fields = fs at hfields
  generalize o'.fields = ks at hfields
  induction hfields generalizing index with
  | nil => exact Or.inl ⟨rfl, rfl⟩
  | cons hfk _ ih =>
    cases index with
    | zero => exact Or.inr ⟨_, _, rfl, rfl, hfk⟩
    | succ index => exact ih index

theorem exists_target (hm : Pairing g m) (hxy : m x y) (hf : g.field? x index = some f) :
    ∃ k, g.field? y index = some k ∧ FieldData.Alike m f.data k.data := by
  rcases hm.fields hxy index with ⟨hn, -⟩ | ⟨f', k, hf', hk, hfk⟩
  · rw [hf] at hn
    cases hn
  · rw [hf] at hf'
    cases hf'
    exact ⟨k, hk, hfk⟩

theorem exists_source (hm : Pairing g m) (hxy : m x y) (hk : g.field? y index = some k) :
    ∃ f, g.field? x index = some f ∧ FieldData.Alike m f.data k.data := by
  rcases hm.fields hxy index with ⟨-, hn⟩ | ⟨f, k', hf, hk', hfk⟩
  · rw [hk] at hn
    cases hn
  · rw [hk] at hk'
    cases hk'
    exact ⟨f, hf, hfk⟩

/-- What a paired object refers to is paired. -/
theorem exists_of_refers {z : ObjectRef} (hm : Pairing g m) (hxy : m x y) (hz : Refers g y z) :
    ∃ w, m w z := by
  obtain ⟨index, k, hk, hkz⟩ := hz
  obtain ⟨f, -, hfk⟩ := hm.exists_source hxy hk
  obtain ⟨w, -, hw⟩ := hfk.exists_source hkz
  exact ⟨w, hw⟩

theorem exists_of_reflTransGen {z : ObjectRef} (hm : Pairing g m) (hxy : m x y)
    (hz : Relation.ReflTransGen (Refers g) y z) : ∃ w, m w z := by
  induction hz with
  | refl => exact ⟨x, hxy⟩
  | tail _ hstep ih =>
    obtain ⟨w, hw⟩ := ih
    exact hm.exists_of_refers hw hstep

end Pairing

/-! ### Progress -/

/-- The field `k` after `f` was copied onto it. -/
def merged (k f : Field) : Field := { k with data := mergeData k.data f.data }

theorem merged_merged (hfk : FieldData.Alike m f.data k.data) :
    merged (merged k f) f = merged k f := by
  rw [merged, merged, hfk.mergeData_mergeData]

/-- A reference stays what it is. -/
theorem merged_of_child {c : Option ObjectRef} (hk : k.data = .child c) (f : Field) :
    merged k f = k := by
  obtain ⟨name, data, visibility⟩ := k
  obtain rfl : data = .child c := hk
  rfl

section Progress

variable (g m)

/-- In `h` the field at `index` of `y` was copied onto. -/
def FieldCopied (h : ObjectGraph) (y : ObjectRef) (index : Nat) : Prop :=
  ∃ x f k, m x y ∧ g.field? x index = some f ∧ g.field? y index = some k ∧
    h.field? y index = some (merged k f)

/-- In `h` all fields of `y` were copied onto. -/
def ObjectCopied (h : ObjectGraph) (y : ObjectRef) : Prop :=
  ∀ index k, g.field? y index = some k → FieldCopied g m h y index

/-- From `h₁` to `h₂` fields of targets keep their values or are copied onto, and all else stays. -/
structure Progress (h₁ h₂ : ObjectGraph) : Prop where
  fields : ∀ y index, h₂.field? y index = h₁.field? y index ∨ FieldCopied g m h₂ y index
  others : ∀ z, (∀ x, ¬m x z) → h₂.object? z = h₁.object? z

end Progress

theorem FieldCopied.progress (hc : FieldCopied g m h₁ y index) (hp : Progress g m h₁ h₂) :
    FieldCopied g m h₂ y index := by
  rcases hp.fields y index with heq | hc'
  · obtain ⟨x, f, k, hxy, hf, hk, hfk⟩ := hc
    exact ⟨x, f, k, hxy, hf, hk, heq.trans hfk⟩
  · exact hc'

theorem ObjectCopied.progress (hc : ObjectCopied g m h₁ y) (hp : Progress g m h₁ h₂) :
    ObjectCopied g m h₂ y :=
  fun index k hk => (hc index k hk).progress hp

namespace Progress

theorem refl (h₁ : ObjectGraph) : Progress g m h₁ h₁ :=
  ⟨fun _ _ => Or.inl rfl, fun _ _ => rfl⟩

theorem trans (hp : Progress g m h₁ h₂) (hp' : Progress g m h₂ h₃) : Progress g m h₁ h₃ where
  fields := by
    intro y index
    rcases hp'.fields y index with heq | hc
    · rcases hp.fields y index with heq' | hc'
      · exact Or.inl (heq.trans heq')
      · exact Or.inr (hc'.progress hp')
    · exact Or.inr hc
  others := fun z hz => (hp'.others z hz).trans (hp.others z hz)

/-- Sources stay as they are. -/
theorem object?_source (hp : Progress g m h₁ h₂) (hm : Pairing g m) (hxy : m x y) :
    h₂.object? x = h₁.object? x :=
  hp.others x fun _ hx => hm.disjoint hxy hx rfl

/-- A field of a target holds its own data or those that were copied onto it.  Either way a copy
makes the same of it. -/
theorem exists_field (hp : Progress g m g h) (hm : Pairing g m) (hxy : m x y)
    (hf : g.field? x index = some f) (hk : g.field? y index = some k)
    (hfk : FieldData.Alike m f.data k.data) :
    ∃ k₁, h.field? y index = some k₁ ∧ FieldData.Alike m f.data k₁.data ∧
      merged k₁ f = merged k f ∧ ∀ c, k₁.data = .child c ↔ k.data = .child c := by
  rcases hp.fields y index with heq | ⟨x', f', k', hxy', hf', hk', hfk'⟩
  · exact ⟨k, heq.trans hk, hfk, rfl, fun _ => Iff.rfl⟩
  · obtain rfl := hm.injective hxy hxy'
    rw [hf] at hf'
    rw [hk] at hk'
    cases hf'
    cases hk'
    exact ⟨merged k f, hfk', hfk.mergeData, merged_merged hfk, hfk.mergeData_eq_child_iff⟩

end Progress

/-- Changing a field of a target is progress if it becomes what is copied onto it. -/
theorem progress_setData {k₁ : Field} (hxy : m x y) (hf : g.field? x index = some f)
    (hk : g.field? y index = some k) (hk₁ : h.field? y index = some k₁)
    (hmerged : merged k₁ f = merged k f) :
    let h' := h.setData y index (mergeData k₁.data f.data)
    Progress g m h h' ∧ FieldCopied g m h' y index := by
  intro h'
  have hc : FieldCopied g m h' y index := by
    refine ⟨x, f, k, hxy, hf, hk, ?_⟩
    rw [ObjectGraph.field?_setData, if_pos ⟨rfl, rfl⟩, hk₁, ← hmerged]
    rfl
  refine ⟨⟨fun y' index' => ?_, fun z hz => ?_⟩, hc⟩
  · by_cases hy : y' = y ∧ index' = index
    · obtain ⟨rfl, rfl⟩ := hy
      exact Or.inr hc
    · exact Or.inl (by rw [ObjectGraph.field?_setData, if_neg hy])
  · exact ObjectGraph.object?_setData_of_ne _ _ fun hzy => hz x (hzy ▸ hxy)

/-- Where no call is made, the field is set to what is copied onto it; a probe has nothing that
could be set. -/
theorem copyOwn_of_alike {s : Copying} {d : FieldData}
    (hd : s.graph.data? y index = some d) (hfd : FieldData.Alike m f.data d)
    (hcall : callFor? (some d) f.data = none) (sourceName : String) :
    (copyOwn y sourceName index f s).graph = s.graph.setData y index (mergeData d f.data) ∨
      (copyOwn y sourceName index f s).graph = s.graph ∧ mergeData d f.data = d := by
  unfold copyOwn copyField
  rw [hd]
  generalize f.data = e at hfd hcall
  cases e <;> cases d <;> try exact hfd.elim
  case array.array kind _ _ _ kind' _ _ _ =>
    obtain rfl : kind' = kind := hfd
    cases kind' <;> exact Or.inl rfl
  case child.child =>
    cases hfd with
    | none => exact Or.inl rfl
    | some _ => cases hcall
  case probe.probe => exact Or.inr ⟨rfl, rfl⟩
  all_goals exact Or.inl rfl

/-- A field that is copied without a call is copied onto. -/
theorem progress_copyOwn {s : Copying} (hm : Pairing g m) (hp : Progress g m g s.graph)
    (hxy : m x y) (hf : g.field? x index = some f)
    (hcall : callFor? (s.graph.data? y index) f.data = none) (sourceName : String) :
    Progress g m s.graph (copyOwn y sourceName index f s).graph ∧
      FieldCopied g m (copyOwn y sourceName index f s).graph y index := by
  obtain ⟨k, hk, hfk⟩ := hm.exists_target hxy hf
  obtain ⟨k₁, hk₁, hfk₁, hmerged, -⟩ := hp.exists_field hm hxy hf hk hfk
  have hd : s.graph.data? y index = some k₁.data := congrArg (Option.map Field.data) hk₁
  rw [hd] at hcall
  rcases copyOwn_of_alike hd hfk₁ hcall sourceName with heq | ⟨heq, hsame⟩
  · rw [heq]
    exact progress_setData hxy hf hk hk₁ hmerged
  · rw [heq]
    have hk₁' : merged k₁ f = k₁ := congrArg (fun d => { k₁ with data := d }) hsame
    exact ⟨.refl _, x, f, k, hxy, hf, hk, by rw [hk₁, ← hmerged, hk₁']⟩

end Copying

end FieldAutomation
