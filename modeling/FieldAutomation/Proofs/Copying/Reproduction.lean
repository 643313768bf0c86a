import FieldAutomation.Proofs.Copying.Pairing

/-!
# Copies reproduce whole graphs

A source that is being copied already is skipped, and with it all that it refers to.  Nothing is
left out for that: whatever can be reached from an object can be reached from it without coming
back to it, and so can be copied below it although it is skipped there itself.

* `Copying.Free`: targets whose sources are not being copied;
* `Copying.Covered`: what was copied onto once a call has returned;
* `Copying.FieldCovered`: the same of one field.

Main statements: `Copying.covered_copyWithin` (one call) and `Copying.copy_reproduces` (a copy from
the outside).
-/

namespace FieldAutomation

open ObjectGraph (instanceId)

namespace Copying

section Covering

variable (g : ObjectGraph) (m : ObjectRef → ObjectRef → Prop)

/-- The source of a target is not being copied. -/
def Free (visits : VisitSet) (y : ObjectRef) : Prop :=
  ∀ x, m x y → visits.contains (instanceId x) = false

/-- In `h`, all targets were copied onto that are reached from `y` around those whose sources were
being copied when `y` was to be copied onto. -/
def Covered (visits : VisitSet) (y : ObjectRef) (h : ObjectGraph) : Prop :=
  Free m visits y → ∀ z, Relation.ReflTransGen (fun b c => Refers g b c ∧ Free m visits c) y z →
    ObjectCopied g m h z

/-- In `h` the field at `index` of `y` was copied onto, and so was what it refers to. -/
structure FieldCovered (visits : VisitSet) (y : ObjectRef) (index : Nat) (h : ObjectGraph) :
    Prop where
  copied : FieldCopied g m h y index
  covered : ∀ k c, g.field? y index = some k → k.data = .child (some c) → Covered g m visits c h

/-- `t` is `s` after something was copied onto `y`. -/
structure Returned (s t : Copying) (y : ObjectRef) : Prop where
  progress : Progress g m s.graph t.graph
  visits : t.visits = s.visits
  covered : Covered g m s.visits y t.graph

end Covering

variable {g h₁ h₂ : ObjectGraph} {m : ObjectRef → ObjectRef → Prop} {visits visits' : VisitSet}
  {x y : ObjectRef} {s t : Copying}

theorem Covered.progress (hc : Covered g m visits y h₁) (hp : Progress g m h₁ h₂) :
    Covered g m visits y h₂ :=
  fun hy z hz => (hc hy z hz).progress hp

theorem FieldCovered.progress {index : Nat} (hc : FieldCovered g m visits y index h₁)
    (hp : Progress g m h₁ h₂) : FieldCovered g m visits y index h₂ :=
  ⟨hc.copied.progress hp, fun k c hk hkc => (hc.covered k c hk hkc).progress hp⟩

/-- Once a source is being copied, all targets but its own are as free as before. -/
theorem Free.enter? (hm : Pairing g m) (hxy : m x y)
    (he : visits.enter? (instanceId x) = some visits') {c : ObjectRef} (hc : Free m visits c)
    (hcy : c ≠ y) : Free m visits' c := by
  intro w hw
  have hv := VisitSet.enter?_eq_some he
  subst hv
  have hne : instanceId w ≠ instanceId x := by
    intro heq
    obtain rfl := ObjectGraph.instanceId_injective heq
    exact hcy (hm.functional hxy hw)
  have hrest : visits.active.contains (instanceId w) = false := hc w hw
  rw [VisitSet.contains, List.contains_cons, hrest, Bool.or_false]
  simpa using hne

/-- What was copied onto the fields of an object covers all that is reached from it. -/
theorem covered_of_fields (hm : Pairing g m) (hxy : m x y)
    (he : visits.enter? (instanceId x) = some visits')
    (hfields : ∀ index k, g.field? y index = some k → FieldCovered g m visits' y index h₁) :
    Covered g m visits y h₁ := by
  intro _ z hz
  rcases exists_child_of_reflTransGen hz with rfl | ⟨c, ⟨index, k, hk, hkc⟩, ⟨hfree, hcy⟩, hz⟩
  · exact fun index k hk => (hfields index k hk).copied
  · refine (hfields index k hk).covered k c hk hkc (hfree.enter? hm hxy he hcy) z
      (Relation.ReflTransGen.mono ?_ _ _ hz)
    rintro a b ⟨hab, hb, hby⟩
    exact ⟨hab, hb.enter? hm hxy he hby⟩

/-! ### Fields -/

section Fields

variable {sub : ObjectRef → Option ObjectRef → Copying → Option Copying} {index : Nat} {f : Field}
  {sourceName : String}

/-- Copying a field is progress, and covers the object that it refers to. -/
theorem progress_copyField (hm : Pairing g m) (hxy : m x y)
    (hsub : ∀ {a b s t}, m a b → Progress g m g s.graph → s.visits = visits →
      sub b (some a) s = some t → Returned g m s t b)
    (hf : g.field? x index = some f) (hp : Progress g m g s.graph) (hv : s.visits = visits)
    (ht : copyField sub y sourceName index f s = some t) :
    Progress g m s.graph t.graph ∧ t.visits = visits ∧ FieldCovered g m visits y index t.graph := by
  obtain ⟨k, hk, hfk⟩ := hm.exists_target hxy hf
  obtain ⟨k₁, hk₁, hfk₁, hmerged, hchild⟩ := hp.exists_field hm hxy hf hk hfk
  have hd : s.graph.data? y index = some k₁.data := congrArg (Option.map Field.data) hk₁
  by_cases hc : ∃ b, k.data = .child (some b)
  · -- A reference is not changed itself; its object is covered by the call.
    obtain ⟨b, hkb⟩ := hc
    obtain ⟨a, hfa, hab⟩ := hfk.exists_source hkb
    have hcall : callFor? (s.graph.data? y index) f.data = some (b, some a) := by
      rw [hd, (hchild _).2 hkb, hfa]
      rfl
    rw [copyField_of_callFor?_eq_some hcall] at ht
    have hreturned := hsub hab hp hv ht
    have hcopied : FieldCopied g m s.graph y index :=
      ⟨x, f, k, hxy, hf, hk, by rw [hk₁, ← hmerged, merged_of_child ((hchild _).2 hkb)]⟩
    refine ⟨hreturned.progress, hreturned.visits.trans hv,
      hcopied.progress hreturned.progress, fun k' c hk' hkc => ?_⟩
    rw [hk] at hk'
    cases hk'
    rw [hkb] at hkc
    cases hkc
    exact hv ▸ hreturned.covered
  · have hcall : callFor? (s.graph.data? y index) f.data = none := by
      rw [hd]
      exact callFor?_eq_none (fun b hb => hc ⟨b, (hchild _).1 hb⟩) _
    rw [copyField_of_callFor?_eq_none hcall] at ht
    obtain rfl := Option.some.inj ht
    obtain ⟨hprogress, hcopied⟩ := progress_copyOwn hm hp hxy hf hcall sourceName
    obtain ⟨graph, notes, heq, -⟩ := copyOwn_eq y sourceName index f s
    refine ⟨hprogress, by rw [heq]; exact hv, hcopied, fun k' c hk' hkc => ?_⟩
    rw [hk] at hk'
    cases hk'
    exact absurd ⟨c, hkc⟩ hc

/-- So is copying the fields of an object. -/
theorem progress_copyFields (hm : Pairing g m) (hxy : m x y)
    (hsub : ∀ {a b s t}, m a b → Progress g m g s.graph → s.visits = visits →
      sub b (some a) s = some t → Returned g m s t b)
    {fs : List Field} (hfs : ∀ j, fs[j]? = g.field? x (index + j)) (hp : Progress g m g s.graph)
    (hv : s.visits = visits) (ht : copyFields sub y sourceName index fs s = some t) :
    Progress g m s.graph t.graph ∧ t.visits = visits ∧
      ∀ j f, fs[j]? = some f → FieldCovered g m visits y (index + j) t.graph := by
  induction fs generalizing index s with
  | nil =>
    obtain rfl := Option.some.inj ht
    refine ⟨.refl _, hv, fun j f hf => ?_⟩
    rw [List.getElem?_nil] at hf
    cases hf
  | cons f rest ih =>
    rw [copyFields_cons] at ht
    obtain ⟨u, hu, ht⟩ := Option.bind_eq_some_iff.1 ht
    obtain ⟨hsu, huv, hcovered⟩ := progress_copyField hm hxy hsub (hfs 0).symm hp hv hu
    obtain ⟨hut, htv, hrest⟩ := ih
      (fun j => by rw [Nat.add_right_comm, Nat.add_assoc, ← hfs (j + 1), List.getElem?_cons_succ])
      (hp.trans hsu) huv ht
    refine ⟨hsu.trans hut, htv, fun j f' hf' => ?_⟩
    cases j with
    | zero => exact hcovered.progress hut
    | succ j =>
      rw [List.getElem?_cons_succ] at hf'
      rw [← Nat.add_assoc, Nat.add_right_comm]
      exact hrest j f' hf'

end Fields

/-! ### Objects -/

/-- **A call covers what it reaches.**  Whatever it skips is being copied further up. -/
theorem covered_copyWithin (hm : Pairing g m) (fuel : Nat) {x y : ObjectRef} {s t : Copying}
    (hxy : m x y) (hp : Progress g m g s.graph) (ht : copyWithin fuel y (some x) s = some t) :
    Returned g m s t y := by
  induction fuel generalizing x y s t with
  | zero => cases ht
  | succ fuel ih =>
    obtain ⟨o, -, ho, -, -⟩ := hm.objects hxy
    have hres : s.graph.resolve (some x) = some (x, o) :=
      ObjectGraph.resolve_eq_some.2 ⟨rfl, (hp.object?_source hm hxy).trans ho⟩
    have hne : y ≠ x := fun heq => hm.disjoint hxy hxy heq.symm
    simp only [copyWithin, hres, if_neg hne] at ht
    cases he : s.visits.enter? (instanceId x) with
    | none =>
      rw [he] at ht
      obtain rfl := Option.some.inj ht
      have hvisited := VisitSet.enter?_eq_none_iff.1 he
      refine ⟨.refl _, rfl, fun hfree => ?_⟩
      rw [hfree x hxy] at hvisited
      cases hvisited
    | some visits =>
      rw [he] at ht
      obtain ⟨u, hu, ht⟩ := Option.bind_eq_some_iff.1 ht
      obtain rfl := Option.some.inj ht
      obtain ⟨hprogress, hvisits, hfields⟩ := progress_copyFields hm hxy
        (fun hab hp _ hs => ih hab hp hs)
        (fun j => by rw [Nat.zero_add, ObjectGraph.field?_of_object? ho]) (s := { s with visits })
        hp rfl hu
      refine ⟨hprogress, ?_, covered_of_fields hm hxy he fun index k hk => ?_⟩
      · exact (congrArg (VisitSet.leave · (instanceId x)) hvisits).trans
          (VisitSet.leave_of_enter? he)
      · obtain ⟨f, hf, -⟩ := hm.exists_source hxy hk
        rw [ObjectGraph.field?_of_object? ho] at hf
        have hfield := hfields index f hf
        rwa [Nat.zero_add] at hfield

/-! ### Whole graphs -/

/-- The field `k'` is `k` with the value of `f`. -/
structure Reproduces (f k k' : Field) : Prop where
  name : k'.name = k.name
  visibility : k'.visibility = k.visibility
  value : f.data.SameValue k'.data
  reference : ∀ c, k.data = .child c → k' = k

theorem reproduces_merged {f k : Field} (hfk : FieldData.Alike m f.data k.data) :
    Reproduces f k (merged k f) :=
  ⟨rfl, rfl, hfk.sameValue_mergeData, fun _ hk => merged_of_child hk f⟩

/-- **A copy reproduces a whole graph**, however its objects are shared and whatever cycles they
form.  All objects that can be reached from the target have the values of their sources.  Neither
the sources nor any objects outside the pairing change, and afterwards there are as many copies in
progress as before. -/
theorem copy_reproduces {s : Copying} (hm : Pairing s.graph m) {src dst : ObjectRef}
    (hroot : m src dst) (hidle : ∀ {x y}, m x y → s.visits.contains (instanceId x) = false) :
    let t := copy dst (some src) s
    (∀ z, Relation.ReflTransGen (Refers s.graph) dst z → ∃ x, m x z ∧
      ∀ index k, s.graph.field? z index = some k → ∃ f k', s.graph.field? x index = some f ∧
        t.graph.field? z index = some k' ∧ Reproduces f k k') ∧
    (∀ x y, m x y → t.graph.object? x = s.graph.object? x) ∧
    (∀ z, (∀ x, ¬m x z) → t.graph.object? z = s.graph.object? z) ∧
    t.visits = s.visits ∧ t.depth = s.depth := by
  intro t
  have ht := covered_copyWithin hm _ hroot (.refl _) (copyWithin_eq_copy dst (some src) s)
  have hfree : ∀ y, Free m s.visits y := fun y x hx => hidle hx
  refine ⟨fun z hz => ?_, fun x y hxy => ht.progress.object?_source hm hxy, ht.progress.others,
    ht.visits, congrArg VisitSet.size ht.visits⟩
  obtain ⟨x, hxz⟩ := hm.exists_of_reflTransGen hroot hz
  refine ⟨x, hxz, fun index k hk => ?_⟩
  have hz' : Relation.ReflTransGen (fun b c => Refers s.graph b c ∧ Free m s.visits c) dst z :=
    Relation.ReflTransGen.mono (fun _ c hbc => ⟨hbc, hfree c⟩) _ _ hz
  obtain ⟨x', f, k', hxz', hf, hk', hcopied⟩ := ht.covered (hfree dst) z hz' index k hk
  obtain rfl := hm.injective hxz hxz'
  rw [hk] at hk'
  cases hk'
  obtain ⟨k', hk', hfk⟩ := hm.exists_target hxz hf
  rw [hk] at hk'
  cases hk'
  exact ⟨f, merged k f, hf, hcopied, reproduces_merged hfk⟩

/-- Two rings of two objects, one of which also refers to itself. -/
def rings : ObjectGraph where
  objects := #[
    ⟨"a", .fielded 0 "A" none [⟨"v", .int 1 8 .hex, .always⟩, ⟨"next", .child (some 1), .always⟩]⟩,
    ⟨"b", .fielded 1 "B" none [⟨"self", .child (some 1), .always⟩,
      ⟨"next", .child (some 0), .always⟩, ⟨"text", .str "new" none, .always⟩]⟩,
    ⟨"c", .fielded 0 "A" none [⟨"v", .int 5 8 .hex, .always⟩, ⟨"next", .child (some 3), .always⟩]⟩,
    ⟨"d", .fielded 1 "B" none [⟨"self", .child (some 3), .always⟩,
      ⟨"next", .child (some 2), .always⟩, ⟨"text", .str "old" none, .always⟩]⟩]

/-- The objects of the first ring with those of the second. -/
def ringPairs (x y : ObjectRef) : Prop := (x, y) ∈ [(0, 2), (1, 3)]

instance (x y : ObjectRef) : Decidable (ringPairs x y) :=
  inferInstanceAs (Decidable ((x, y) ∈ [(0, 2), (1, 3)]))

theorem ringPairs_iff {x y : ObjectRef} : ringPairs x y ↔ x = 0 ∧ y = 2 ∨ x = 1 ∧ y = 3 := by
  simp [ringPairs]

theorem pairing_rings : Pairing rings ringPairs where
  objects hxy := by
    obtain ⟨rfl, rfl⟩ | ⟨rfl, rfl⟩ := ringPairs_iff.1 hxy
    · exact ⟨_, _, rfl, rfl, .cons trivial (.cons (.some (by decide)) .nil)⟩
    · exact ⟨_, _, rfl, rfl,
        .cons (.some (by decide)) (.cons (.some (by decide)) (.cons trivial .nil))⟩
  functional h h' := by grind [ringPairs_iff]
  injective h h' := by grind [ringPairs_iff]
  disjoint h h' := by grind [ringPairs_iff]

/-- The copy skips the sources where the rings close, and still leaves no stale value. -/
theorem copy_reproduces_rings :
    let s : Copying := { graph := rings }
    let t := copy 2 (some 0) s
    Pairing s.graph ringPairs ∧ ringPairs 0 2 ∧
      (∀ x y, ringPairs x y → s.visits.contains (instanceId x) = false) ∧
      t.graph.field? 3 2 = some ⟨"text", .str "new" none, .always⟩ ∧
      ∃ x, ringPairs x 3 ∧ ∀ index k, s.graph.field? 3 index = some k →
        ∃ f k', s.graph.field? x index = some f ∧ t.graph.field? 3 index = some k' ∧
          Reproduces f k k' := by
  intro s t
  have hidle : ∀ x y, ringPairs x y → s.visits.contains (instanceId x) = false := fun _ _ _ => rfl
  have h := copy_reproduces (s := s) pairing_rings (show ringPairs 0 2 by decide) (hidle _ _)
  exact ⟨pairing_rings, by decide, hidle, by decide, h.1 3 (.single ⟨1, _, rfl, rfl⟩)⟩

end Copying

end FieldAutomation
