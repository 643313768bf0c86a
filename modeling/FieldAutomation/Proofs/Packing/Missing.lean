import FieldAutomation.Proofs.Packing.Comparison
import FieldAutomation.Proofs.Packing.Containment
import FieldAutomation.Proofs.Packing.Nulls

/-!
# Unpacking null references without metadata

Packing passes over a null reference without a word when there is no metadata.  Unpacking takes it
that an object follows at each reference, so it is not the mirror image of packing there: a missing
object is noted, although the stream holds none.  All else goes on as if a number of no bits were
unpacked in its place: the stream is read to its end, and what was packed is restored.

* `Packer.excused`: a packer without what it noted of missing objects;
* `Stands`: unpacking into a graph, and into one with numbers in place of its null references;
* `KeepsStanding`: unpacking of references keeps both together;
* `ObjectGraph.ReachesNull`: whether a null reference is reached.

Main statements: `keepsStanding_unpackObject` (what holds of one unpacking holds of the other) and
`ObjectGraph.unpack_pack_without_metadata`.
-/

namespace FieldAutomation

open ObjectGraph (instanceId)

open Packer

/-! ### What is missed -/

namespace Packer

/-- A packer without what it noted and reported of missing objects. -/
def excused (p : Packer) : Packer :=
  { p with
    errors := p.errors.filter (· ≠ .nullObject)
    reporter := { p.reporter with reports := p.reporter.reports.filter (·.id ≠ "UNPOBJ") } }

theorem unseen_excused : Unseen excused where
  settings _ := rfl
  cursor _ := rfl
  size _ := rfl
  scope _ := rfl
  visits _ := rfl
  read _ _ _ := rfl
  advance _ _ := rfl
  fail p e he := by
    have hid : e.reportId ≠ "UNPOBJ" := by
      cases e <;> simp [PackError.reportId] at he ⊢
    simp [excused, fail_eq_noted, noted, he, hid, PackError.report]
  note _ _ := rfl

theorem excused_fail_nullObject (p : Packer) : (p.fail .nullObject).excused = p.excused := by
  simp [excused, fail_eq_noted, noted, PackError.report, PackError.reportId]

theorem excused_cycle (p : Packer) (message : String) :
    ({ p with reporter := p.reporter.warning "CYCFND" message }).excused =
      { p.excused with reporter := p.excused.reporter.warning "CYCFND" message } := by
  simp [excused, Reporter.warning, Reporter.report, Reporter.accepts]

theorem unpackInt_zero (p : Packer) : p.unpackInt 0 = (0, p) := by
  simp [unpackInt, shortage?, readField, ordered]

theorem unpackMarker_of_not_metadata {p : Packer} (hm : p.settings.useMetadata = false) :
    p.unpackMarker = (true, p) := by
  rw [unpackMarker, if_neg (by simp [hm])]

theorem unseen_errors (es : List PackError) :
    Unseen fun p => { p with errors := es ++ p.errors } where
  settings _ := rfl
  cursor _ := rfl
  size _ := rfl
  scope _ := rfl
  visits _ := rfl
  read _ _ _ := rfl
  advance _ _ := rfl
  fail _ _ _ := by simp [fail]
  note _ _ := rfl

/-- What was noted stays noted. -/
theorem errors_prefix_unpackData (data : FieldData) (p : Packer) :
    p.errors <+: (unpackData data p).2.errors := by
  have h := (unseen_errors p.errors).unpackData { p with errors := [] } data
  rw [List.append_nil] at h
  rw [h]
  exact List.prefix_append ..

end Packer

/-! ### Side by side -/

theorem SameFrames.filled (g : ObjectGraph) (mark : Nat) : SameFrames g (g.filled mark) := by
  intro r
  rw [ObjectGraph.object?_filled, Option.map_map]
  congr 1
  funext o
  exact DataObject.frame_mapFields ..

/-- Unpacking without metadata has come to `u`, and to `v` where numbers of no bits are in place of
the null references of `h`.  Such a number is marked 0 once it was unpacked. -/
structure Stands (h : ObjectGraph) (u v : Unpacking) : Prop where
  metadata : u.packer.settings.useMetadata = false
  policy : u.packer.settings.policy ≠ .reference
  packer : v.packer = u.packer.excused
  frames : SameFrames h u.graph
  frames' : SameFrames h v.graph
  /-- Null references stay where they are, and there are no others. -/
  nulls : ∀ r index f, h.isNull f → (u.graph.field? r index = some f ↔ h.field? r index = some f)
  fields : ∀ r index, ∃ mark,
    v.graph.field? r index = (u.graph.field? r index).map (h.standIn mark) ∧
      (mark = 0 → .nullObject ∈ u.packer.errors)

namespace Stands

variable {h : ObjectGraph} {u v : Unpacking} {r : ObjectRef} {index : Nat}

theorem start {p : Packer} (hm : p.settings.useMetadata = false)
    (hpol : p.settings.policy ≠ .reference) : Stands h ⟨h, p⟩ ⟨h.filled 1, p.excused⟩ where
  metadata := hm
  policy := hpol
  packer := rfl
  frames := .refl h
  frames' := SameFrames.filled h 1
  nulls _ _ _ _ := Iff.rfl
  fields r index := ⟨1, ObjectGraph.field?_filled r index, nofun⟩

/-- Elsewhere in the graph, both are at the same place. -/
theorem elsewhere (hs : Stands h u v) (visits : VisitSet) (scope : Scope) :
    Stands h { u with packer := { u.packer with visits, scope } }
      { v with packer := { v.packer with visits, scope } } where
  metadata := hs.metadata
  policy := hs.policy
  packer := by rw [hs.packer]; rfl
  frames := hs.frames
  frames' := hs.frames'
  nulls := hs.nulls
  fields := hs.fields

/-- A cycle is reported by both. -/
theorem cycle (hs : Stands h u v) (message : String) :
    Stands h
      { u with packer := { u.packer with reporter := u.packer.reporter.warning "CYCFND" message } }
      { v with
        packer := { v.packer with reporter := v.packer.reporter.warning "CYCFND" message } } where
  metadata := hs.metadata
  policy := hs.policy
  packer := by rw [excused_cycle, hs.packer]
  frames := hs.frames
  frames' := hs.frames'
  nulls := hs.nulls
  fields := hs.fields

/-- A missing object is noted by the one, and a number of no bits is read by the other. -/
theorem missed {f : Field} (hs : Stands h u v) (hf : h.field? r index = some f)
    (hnull : h.isNull f) :
    Stands h { u with packer := u.packer.fail .nullObject }
      { v with graph := v.graph.setData r index (.int 0 0 .dec) } where
  metadata := hs.metadata
  policy := hs.policy
  packer := by rw [excused_fail_nullObject, hs.packer]
  frames := hs.frames
  frames' := hs.frames'.trans (.setData v.graph r index _)
  nulls := hs.nulls
  fields r' index' := by
    have hnoted : .nullObject ∈ (u.packer.fail .nullObject).errors :=
      List.mem_append_right _ (List.mem_singleton.2 rfl)
    obtain ⟨mark, hfield, -⟩ := hs.fields r' index'
    rw [ObjectGraph.field?_setData]
    split
    next hat =>
      obtain ⟨rfl, rfl⟩ := hat
      refine ⟨0, ?_, fun _ => hnoted⟩
      rw [hfield, (hs.nulls _ _ f hnull).2 hf, Option.map_some, Option.map_some, Option.map_some,
        ObjectGraph.standIn_of_null hnull, ObjectGraph.standIn_of_null hnull]
    next => exact ⟨mark, hfield, fun _ => hnoted⟩

/-- A field that is no null reference is read by both. -/
theorem read (hs : Stands h u v) {data : FieldData} (hd : ∀ target, data ≠ .child target)
    (hf : ∀ f, h.isNull f → h.field? r index ≠ some f) :
    Stands h
      { graph := u.graph.setData r index (unpackData data u.packer).1
        packer := (unpackData data u.packer).2 }
      { graph := v.graph.setData r index (unpackData data v.packer).1
        packer := (unpackData data v.packer).2 } := by
  have hread : unpackData data v.packer = (unpackData data u.packer).map id excused := by
    rw [hs.packer, unseen_excused.unpackData]
  have hd' : ∀ target, (unpackData data u.packer).1 ≠ .child target := by
    intro target
    cases data with
    | child t => exact absurd rfl (hd t)
    | _ => exact FieldData.noConfusion
  have hscan := scanned_unpackData data u.packer
  have hprefix := errors_prefix_unpackData data u.packer
  rw [hread]
  generalize unpackData data u.packer = x at hd' hscan hprefix
  have hnot : ∀ f : Field, h.isNull { f with data := x.1 } = false := fun f =>
    ObjectGraph.isNull_eq_false_of_ne_child hd'
  refine ⟨by rw [hscan.settings, hs.metadata], by rw [hscan.settings]; exact hs.policy, rfl,
    hs.frames.trans (.setData u.graph r index _), hs.frames'.trans (.setData v.graph r index _),
    ?_, ?_⟩
  · intro r' index' f hnull
    rw [ObjectGraph.field?_setData]
    split
    next hat =>
      obtain ⟨rfl, rfl⟩ := hat
      refine iff_of_false (fun hf' => ?_) (hf f hnull)
      obtain ⟨f', -, rfl⟩ := Option.map_eq_some_iff.1 hf'
      rw [hnot] at hnull
      cases hnull
    next => exact hs.nulls r' index' f hnull
  · intro r' index'
    obtain ⟨mark, hfield, hmark⟩ := hs.fields r' index'
    rw [ObjectGraph.field?_setData, ObjectGraph.field?_setData]
    split
    next hat =>
      obtain ⟨rfl, rfl⟩ := hat
      refine ⟨1, ?_, nofun⟩
      rw [hfield, Option.map_map, Option.map_map]
      congr 1
      funext f
      simp only [Function.comp_apply, id, Prod.map, ObjectGraph.standIn_of_not_null (hnot f)]
      unfold ObjectGraph.standIn
      split <;> rfl
    next => exact ⟨mark, hfield, fun h0 => hprefix.subset (hmark h0)⟩

end Stands

/-! ### Fields and objects -/

section Simulation

variable {h : ObjectGraph} {u v u' : Unpacking} {r : ObjectRef} {index : Nat}
  {sub : Option ObjectRef → Unpacking → Option Unpacking}

/-- Unpacking references keeps both together, and misses objects where there are none. -/
def KeepsStanding (h : ObjectGraph)
    (sub : Option ObjectRef → Unpacking → Option Unpacking) : Prop :=
  ∀ ⦃target u v u'⦄, Stands h u v → sub target u = some u' →
    match h.resolve target with
    | none => u' = { u with packer := u.packer.fail .nullObject }
    | some _ => ∃ v', sub target v = some v' ∧ Stands h u' v'

/-- A field keeps both together. -/
theorem Stands.unpackField {f : Field} {mark : Nat} (hs : Stands h u v)
    (hsub : KeepsStanding h sub)
    (hf : ∀ f', h.isNull f' → (f = f' ↔ h.field? r index = some f'))
    (hu : unpackField sub r index f u = some u') :
    ∃ v', unpackField sub r index (h.standIn mark f) v = some v' ∧ Stands h u' v' := by
  have hincludes : v.packer.includes (h.standIn mark f) = u.packer.includes f := by
    rw [includes_eq, includes_eq, ObjectGraph.isPacked_standIn, hs.packer]
    rfl
  cases hp : u.packer.includes f with
  | false =>
    rw [unpackField_of_not_includes hp] at hu
    cases hu
    exact ⟨v, unpackField_of_not_includes (hincludes.trans hp), hs⟩
  | true =>
    rw [hp] at hincludes
    by_cases hc : ∃ target, f.data = .child target
    · obtain ⟨target, hd⟩ := hc
      rw [unpackField_of_child hp hd] at hu
      have hkeeps := hsub hs hu
      cases hr : h.resolve target with
      | none =>
        have hnull : h.isNull f := ObjectGraph.isNull_iff.2 ⟨target, hd, hr⟩
        rw [hr] at hkeeps
        subst hkeeps
        refine ⟨_, ?_, hs.missed ((hf f hnull).1 rfl) hnull⟩
        rw [ObjectGraph.standIn_of_null hnull] at hincludes ⊢
        rw [unpackField_of_ne_child hincludes (fun _ => FieldData.noConfusion)]
        simp only [unpackData, unpackInt_zero]
      | some found =>
        rw [hr] at hkeeps
        rw [ObjectGraph.standIn_of_not_null (ObjectGraph.isNull_eq_false hd hr)] at hincludes ⊢
        rw [unpackField_of_child hincludes hd]
        exact hkeeps
    · have hne : ∀ target, f.data ≠ .child target := fun target hd => hc ⟨target, hd⟩
      have hnot : h.isNull f = false := ObjectGraph.isNull_eq_false_of_ne_child hne
      rw [unpackField_of_ne_child hp hne] at hu
      cases hu
      rw [ObjectGraph.standIn_of_not_null hnot] at hincludes ⊢
      refine ⟨_, unpackField_of_ne_child hincludes hne, hs.read hne fun f' hnull hf' => ?_⟩
      rw [← (hf f' hnull).2 hf', hnot] at hnull
      cases hnull

/-- The fields of an object keep both together. -/
theorem Stands.unpackFields {fs ks : List Field} (hs : Stands h u v) (hsub : KeepsStanding h sub)
    (hfs : ∀ (j : Nat) f', h.isNull f' → (fs[j]? = some f' ↔ h.field? r (index + j) = some f'))
    (hks : ∀ j : Nat, ∃ mark, ks[j]? = (fs[j]?).map (h.standIn mark))
    (hu : unpackFields sub r index fs u = some u') :
    ∃ v', unpackFields sub r index ks v = some v' ∧ Stands h u' v' := by
  -- the fields are those that the object held when it was entered, not those that it holds now
  induction fs generalizing index ks u v with
  | nil =>
    obtain ⟨mark, hk⟩ := hks 0
    obtain rfl : ks = [] := List.eq_nil_of_length_eq_zero (by simpa using hk)
    cases hu
    exact ⟨v, rfl, hs⟩
  | cons f fs ih =>
    obtain ⟨mark, hk⟩ := hks 0
    obtain ⟨ks, rfl⟩ : ∃ ks', ks = h.standIn mark f :: ks' :=
      List.head?_eq_some_iff.1 (by rw [List.head?_eq_getElem?, hk]; rfl)
    rw [unpackFields_cons, Option.bind_eq_some_iff] at hu
    obtain ⟨u₁, hu₁, hu⟩ := hu
    obtain ⟨v₁, hv₁, hs₁⟩ := hs.unpackField hsub
      (fun f' hnull => by simpa using hfs 0 f' hnull) hu₁
    obtain ⟨v', hv, hs'⟩ := ih hs₁
      (fun j f' hnull => by
        have := hfs (j + 1) f' hnull
        rwa [List.getElem?_cons_succ, show index + (j + 1) = index + 1 + j by omega] at this)
      (fun j => hks (j + 1)) hu
    refine ⟨v', ?_, hs'⟩
    rw [unpackFields_cons, hv₁, Option.bind_some, hv]

/-- The fields that an object has on its way through both. -/
theorem Stands.getElem?_fields {o o' : DataObject} (hs : Stands h u v)
    (ho : u.graph.object? r = some o) (ho' : v.graph.object? r = some o') :
    (∀ (j : Nat) f', h.isNull f' → (o.fields[j]? = some f' ↔ h.field? r (0 + j) = some f')) ∧
      ∀ j : Nat, ∃ mark, o'.fields[j]? = (o.fields[j]?).map (h.standIn mark) := by
  constructor
  · intro j f' hnull
    rw [← ObjectGraph.field?_of_object? ho, Nat.zero_add]
    exact hs.nulls r j f' hnull
  · intro j
    obtain ⟨mark, hfield, -⟩ := hs.fields r j
    rw [ObjectGraph.field?_of_object? ho, ObjectGraph.field?_of_object? ho'] at hfield
    exact ⟨mark, hfield⟩

/-- **Unpacking with numbers of no bits in place of null references does the same**, but that no
object is missed. -/
theorem keepsStanding_unpackObject (h : ObjectGraph) (fuel : Nat) :
    KeepsStanding h (unpackObject fuel) := by
  -- both find the same objects, and are in the middle of the same ones, level by level
  induction fuel with
  | zero =>
    intro target u v u' _ hu
    cases hu
  | succ fuel ih =>
    intro target u v u' hs hu
    have hmark := unpackMarker_of_not_metadata hs.metadata
    have hmark' : v.packer.unpackMarker = (true, v.packer) :=
      unpackMarker_of_not_metadata (by rw [hs.packer]; exact hs.metadata)
    have hpol' : v.packer.settings.policy ≠ .reference := by rw [hs.packer]; exact hs.policy
    split
    next hr =>
      rw [unpackObject_of_null fuel hmark hs.policy (hs.frames.resolve_eq_none hr)] at hu
      exact (Option.some.inj hu).symm
    next found hr =>
      obtain ⟨r, o⟩ := found
      obtain ⟨o₁, hr₁, hname₁⟩ := hs.frames.exists_resolve hr
      obtain ⟨o₂, hr₂, hname₂⟩ := hs.frames'.exists_resolve hr
      have hvisits : v.packer.visits = u.packer.visits := by rw [hs.packer]; rfl
      have hscope : v.packer.scope = u.packer.scope := by rw [hs.packer]; rfl
      cases hv : u.packer.visits.contains (instanceId r) with
      | true =>
        rw [unpackObject_of_visited hmark hs.policy hr₁ hv] at hu
        cases hu
        exact ⟨_, unpackObject_of_visited hmark' hpol' hr₂ (hvisits ▸ hv), hs.cycle _⟩
      | false =>
        have hV := VisitSet.enter?_of_not_contains hv
        generalize (⟨instanceId r :: u.packer.visits.active⟩ : VisitSet) = visits at hV
        rw [unpackObject_of_not_visited hmark hs.policy hr₁ hV, Option.bind_eq_some_iff] at hu
        obtain ⟨u₁, hu₁, hu⟩ := hu
        cases hu
        obtain ⟨hfs, hks⟩ := hs.getElem?_fields (ObjectGraph.resolve_eq_some.1 hr₁).2
          (ObjectGraph.resolve_eq_some.1 hr₂).2
        obtain ⟨v₁, hv₁, hs₁⟩ :=
          (hs.elsewhere visits (u.packer.scope.down o₁.name)).unpackFields ih hfs hks hu₁
        refine ⟨_, ?_, hs₁.elsewhere (u₁.packer.visits.leave (instanceId r)) u₁.packer.scope.up⟩
        rw [unpackObject_of_not_visited hmark' hpol' hr₂ (hvisits ▸ hV), hname₂, ← hname₁, hscope,
          hv₁, Option.bind_some, hs₁.packer]
        rfl

end Simulation

/-! ### There and back -/

section ThereAndBack

variable {g h : ObjectGraph} {m : ObjectRef → ObjectRef → Prop} {s : PackerSettings}
  {p q : Packer} {src dst : ObjectRef}

/-- A packed field that refers to no object is reached from `r`. -/
def ObjectGraph.ReachesNull (s : PackerSettings) (h : ObjectGraph) (r : ObjectRef) : Prop :=
  ∃ y index f, Relation.ReflTransGen (PackedChild s h) r y ∧ h.field? y index = some f ∧
    f.isPacked s ∧ h.isNull f

/-- Where no null reference is reached, graphs that match as with metadata match without it. -/
theorem Matching.within (hm : Matching { s with useMetadata := true } g h m)
    (htext : Delimited s h m) (hnull : ¬h.ReachesNull s dst) :
    Matching s g h fun x y =>
      m x y ∧ Relation.ReflTransGen (ObjectGraph.PackedChild s h) dst y where
  objects {x y} := by
    rintro ⟨hxy, hy⟩
    obtain ⟨o, o', ho, ho', hfields⟩ := hm.objects hxy
    refine ⟨o, o', ho, ho', ?_⟩
    obtain ⟨hlen, hzip⟩ := List.forall₂_iff_zip.1 hfields
    refine List.forall₂_iff_zip.2 ⟨hlen, fun {f k} hmem => ?_⟩
    obtain ⟨index, hk⟩ := List.mem_iff_getElem?.1 (List.of_mem_zip hmem).2
    rw [← ObjectGraph.field?_of_object? ho'] at hk
    have hfk := hzip hmem
    refine ⟨hfk.visibility, fun hp => ?_⟩
    have hpk : k.isPacked s := by
      rw [Field.isPacked, hfk.visibility]
      exact hp
    rcases hfk.data_cases hp with ⟨-, hkn⟩ | ⟨a, b, z, oz, w, ow, ha, hb, hga, hhb, hzw⟩ |
      ⟨hf, -, hl, hfits⟩
    · exact absurd ⟨y, index, k, hy, hk, hpk, hkn⟩ hnull
    · rw [ha, hb]
      simp only [DataMatch, TargetsMatch, hga, hhb]
      exact ⟨hzw, hy.tail ⟨index, k, b, ow, hk, hpk, hb, hhb⟩⟩
    · exact .of_not_readsToEnd hf hl hfits (htext hxy hk hpk)
  functional h h' := hm.functional h.1 h'.1
  injective h h' := hm.injective h.1 h'.1

/-- A field holds what was packed if the one in its place does, and it was missed if it is null. -/
theorem Stands.restored {u v : Unpacking} {y : ObjectRef} {index : Nat} {f k : Field}
    {bigEndian : Bool} (hs : Stands h u v)
    (hfk : FieldsMatch { s with useMetadata := true } g h m f k) (hp : f.isPacked s)
    (hk : h.field? y index = some k)
    (hheld : v.graph.field? y index =
      some ((g.standIn 0 f).carried bigEndian (h.standIn 1 k))) :
    u.graph.field? y index = some (f.carried bigEndian k) ∧
      (h.isNull k → .nullObject ∈ u.packer.errors) := by
  obtain ⟨mark, hfield, hmark⟩ := hs.fields y index
  rw [hheld, eq_comm, Option.map_eq_some_iff] at hfield
  obtain ⟨k', hk', heq⟩ := hfield
  have hnull := hfk.isNull_eq hp
  cases hnk : h.isNull k with
  | true =>
    rw [hnk] at hnull
    rw [(hs.nulls y index k hnk).2 hk, Option.some_inj] at hk'
    subst hk'
    obtain ⟨a, ha, -⟩ := ObjectGraph.isNull_iff.1 hnull.symm
    rw [ObjectGraph.standIn_of_null hnk, ObjectGraph.standIn_of_null hnk,
      ObjectGraph.standIn_of_null hnull.symm] at heq
    have hcarried : f.carried bigEndian k = k := by
      rw [Field.carried, ha]
      rfl
    refine ⟨by rw [hcarried]; exact (hs.nulls y index k hnk).2 hk, fun _ => hmark ?_⟩
    -- the number that was packed has no bits
    have hdata := congrArg Field.data heq
    simpa [Field.carried, FieldData.carried] using hdata
  | false =>
    rw [hnk] at hnull
    have hnk' : h.isNull k' = false := by
      rw [← Bool.not_eq_true]
      intro hn
      rw [(hs.nulls y index k' hn).1 hk', Option.some_inj] at hk
      rw [← hk, hn] at hnk
      cases hnk
    rw [ObjectGraph.standIn_of_not_null hnk', ObjectGraph.standIn_of_not_null hnk,
      ObjectGraph.standIn_of_not_null hnull.symm] at heq
    exact ⟨heq ▸ hk', fun h => absurd h Bool.false_ne_true⟩

theorem Transport.carry_excused (t : Transport) (packed q : Packer) :
    t.carry packed q.excused.reset = (t.carry packed q.reset).excused := by
  cases t <;> rfl

section Unpacked

variable (t : Transport) (hm : Matching { p.settings with useMetadata := true } g h m)
  (htext : Delimited p.settings h m) (hroot : m src dst) (hmeta : p.settings.useMetadata = false)
  (hpol : p.settings.policy ≠ .reference) (hq : q.settings = p.settings)
  (hidle : ∀ x y, m x y → p.visits.contains (instanceId x) = false ∧
    q.visits.contains (instanceId y) = false)
  {o : DataObject} {u : Unpacking} (ho : h.object? dst = some o)
  (hu : unpackFields (unpackObject h.depthBound) dst 0 o.fields
    ⟨h, ObjectGraph.packRoot dst o (t.carry (g.pack src p) q.reset)⟩ = some u)

include hm htext hroot hmeta hpol hq hidle ho hu

/-- **What packing wrote is read to its end and restored**, null references or not: each of them is
noted as a missing object, and nothing else is. -/
theorem Matching.unpacked_without_metadata :
    (g.pack src p).errors = [] ∧ u.packer.cursor = (g.pack src p).size ∧
      (∀ e ∈ u.packer.errors, e = .nullObject) ∧
      ∀ y, Relation.ReflTransGen (ObjectGraph.PackedChild p.settings h) dst y →
        ∃ x, m x y ∧ ∀ index f k, g.field? x index = some f → f.isPacked p.settings →
          h.field? y index = some k →
            u.graph.field? y index = some (f.carried p.settings.bigEndian k) ∧
              (h.isNull k → .nullObject ∈ u.packer.errors) := by
  -- the same with numbers of no bits, where nothing is missed
  have hfilled := hm.filled htext 0 1
  obtain ⟨o', v, ho', hv, hpacked, herrors, hcursor, -, hres⟩ :=
    hfilled.exists_unpacked (q := q.excused) t hroot hpol hq hidle
  rw [ObjectGraph.pack_filled g 0 src hmeta] at hv hpacked hcursor
  obtain rfl : h.fillObject 1 o = o' := by
    rw [ObjectGraph.object?_filled, ho] at ho'
    exact Option.some.inj ho'
  let loaded := ObjectGraph.packRoot dst o (t.carry (g.pack src p) q.reset)
  have hload : loaded.settings = p.settings := by
    change (t.carry (g.pack src p) q.reset).settings = p.settings
    rw [t.carry_unchanged]
    exact hq
  have hstart : Stands h ⟨h, loaded⟩ ⟨h.filled 1, loaded.excused⟩ :=
    .start (by rw [hload, hmeta]) (by rw [hload]; exact hpol)
  obtain ⟨hfs, hks⟩ := hstart.getElem?_fields ho ho'
  obtain ⟨v', hv', hs⟩ := hstart.unpackFields (keepsStanding_unpackObject h h.depthBound) hfs hks hu
  rw [ObjectGraph.depthBound_filled, t.carry_excused, show ObjectGraph.packRoot dst
    (h.fillObject 1 o) (t.carry (g.pack src p) q.reset).excused = loaded.excused by
      simp only [ObjectGraph.packRoot, ObjectGraph.name_fillObject]; rfl] at hv
  obtain rfl := Option.some.inj (hv.symm.trans hv')
  rw [hs.packer] at herrors hcursor
  refine ⟨hpacked, hcursor, fun e he => ?_, fun y hy => ?_⟩
  · simpa using List.filter_eq_nil_iff.1 herrors e he
  · have hy' : Relation.ReflTransGen (ObjectGraph.PackedChild p.settings (h.filled 1)) dst y :=
      Relation.ReflTransGen.mono (fun _ _ => ObjectGraph.PackedChild.filled) _ _ hy
    obtain ⟨x, hxy⟩ := hfilled.exists_of_reflTransGen hroot hy'
    refine ⟨x, hxy, fun index f k hf hp hk => ?_⟩
    obtain ⟨k', hk', hfk⟩ := hm.exists_right hxy hf
    obtain rfl := Option.some.inj (hk.symm.trans hk')
    obtain ⟨x', f', k', hxy', hf', -, hk', hheld⟩ := hres y hy' hxy
      (by rw [ObjectGraph.field?_filled, hf]; rfl) (by rw [ObjectGraph.isPacked_standIn]; exact hp)
    obtain rfl := hm.injective hxy hxy'
    rw [ObjectGraph.field?_filled, hf, Option.map_some, Option.some_inj] at hf'
    rw [ObjectGraph.field?_filled, hk, Option.map_some, Option.some_inj] at hk'
    subst hf' hk'
    exact hs.restored hfk hp hk hheld

/-- Nothing is noted exactly if no null reference is reached. -/
theorem Matching.errors_eq_nil_iff : u.packer.errors = [] ↔ ¬h.ReachesNull p.settings dst := by
  obtain ⟨-, -, -, hfields⟩ :=
    hm.unpacked_without_metadata t htext hroot hmeta hpol hq hidle ho hu
  constructor
  · rintro hnil ⟨y, index, k, hy, hk, hp, hkn⟩
    obtain ⟨x, hxy, hrestored⟩ := hfields y hy
    obtain ⟨f, hf, hfk⟩ := hm.exists_left hxy hk
    have hmissed := (hrestored index f k hf (hfk.isPacked_eq ▸ hp) hk).2 hkn
    rw [hnil] at hmissed
    exact List.not_mem_nil hmissed
  · intro hnot
    -- the objects that are reached match without metadata as well
    obtain ⟨o', v, ho', hv, -, hnil, -⟩ := (hm.within htext hnot).exists_unpacked t
      ⟨hroot, .refl⟩ hpol hq fun x y hxy => hidle x y hxy.1
    obtain rfl := Option.some.inj (ho.symm.trans ho')
    obtain rfl := Option.some.inj (hu.symm.trans hv)
    exact hnil

end Unpacked

namespace ObjectGraph

/-- **Without metadata, what is packed is restored, but objects are missed at null references.**  A
graph is packed, and its stream is unpacked into a graph of the same shape, with null references in
the same places.  Packing notes nothing.  The stream is read to its end, and each packed field of an
object that is reached holds what was packed.  An object is missed exactly if a null reference is
reached; no other misuse is noted.  Otherwise unpacking gives the size of the stream. -/
theorem unpack_pack_without_metadata (t : Transport)
    (hm : Matching { p.settings with useMetadata := true } g h m) (htext : Delimited p.settings h m)
    (hroot : m src dst) (hmeta : p.settings.useMetadata = false)
    (hpol : p.settings.policy ≠ .reference) (hq : q.settings = p.settings)
    (hidle : ∀ x y, m x y → p.visits.contains (instanceId x) = false ∧
      q.visits.contains (instanceId y) = false) :
    let packed := g.pack src p
    let result := h.unpack dst (t.carry packed) q
    packed.errors = [] ∧ result.2.2.cursor = packed.size ∧
      (∀ y, Relation.ReflTransGen (PackedChild p.settings h) dst y →
        ∃ x, m x y ∧ ∀ index f k, g.field? x index = some f → f.isPacked p.settings →
          h.field? y index = some k →
            result.2.1.field? y index = some (f.carried p.settings.bigEndian k)) ∧
      (∀ e ∈ result.2.2.errors, e = .nullObject) ∧
      (result.1 = .error .nullObject ↔ h.ReachesNull p.settings dst) ∧
      (result.1 = .ok packed.size ∧ result.2.2.errors = [] ↔ ¬h.ReachesNull p.settings dst) := by
  intro packed result
  obtain ⟨-, o, -, ho, -⟩ := hm.objects hroot
  obtain ⟨u, hu, hw⟩ := exists_unpackLoaded dst ⟨h, t.carry packed q.reset⟩ ho
  obtain ⟨hpacked, hcursor, hnoted, hfields⟩ :=
    hm.unpacked_without_metadata t htext hroot hmeta hpol hq hidle ho hu
  have hnull := hm.errors_eq_nil_iff t htext hroot hmeta hpol hq hidle ho hu
  have hresult : result = _ := unpack_of_unpackLoaded? hw
  have hsnd := unpackOutcome_snd (t.carry packed q.reset).size { u.packer with
    scope := u.packer.scope.up
    visits := if (t.carry packed q.reset).visits.contains (instanceId dst) then u.packer.visits
      else u.packer.visits.leave (instanceId dst) }
  have herrors : result.2.2.errors = u.packer.errors := by
    rw [hresult, hsnd]
  refine ⟨hpacked, by rw [hresult, hsnd]; exact hcursor, fun y hy => ?_, ?_, ?_, ?_⟩
  · obtain ⟨x, hxy, hrestored⟩ := hfields y hy
    rw [hresult]
    exact ⟨x, hxy, fun index f k hf hp hk => (hrestored index f k hf hp hk).1⟩
  · rw [herrors]
    exact hnoted
  · have hhead : u.packer.errors.head? = some .nullObject ↔ ¬u.packer.errors = [] := by
      cases hes : u.packer.errors with
      | nil => simp
      | cons e es => simpa using hnoted e (by simp [hes])
    rw [hresult, unpackOutcome_eq_error_iff]
    exact hhead.trans ((not_congr hnull).trans not_not)
  · rw [herrors, ← hnull, and_iff_right_iff_imp]
    intro hnil
    rw [hresult, unpackOutcome_eq_ok_iff]
    exact ⟨hnil, hcursor.symm⟩

/-- Two chains of two objects each. -/
def twoChains : ObjectGraph where
  objects := #[
    ⟨"a", .fielded 0 "A" none [⟨"number", .int 0x105 8 .hex, .always⟩,
      ⟨"next", .child (some 1), .always⟩]⟩,
    ⟨"b", .fielded 0 "A" none [⟨"next", .child none, .always⟩,
      ⟨"number", .int 6 8 .hex, .always⟩]⟩,
    ⟨"c", .fielded 0 "A" none [⟨"number", .int 0 8 .dec, .always⟩,
      ⟨"next", .child (some 3), .always⟩]⟩,
    ⟨"d", .fielded 0 "A" none [⟨"next", .child none, .always⟩,
      ⟨"number", .int 0 8 .dec, .always⟩]⟩]

theorem matching_twoChains :
    Matching { useMetadata := true } twoChains twoChains
      fun (x y : Nat) => y = x + 2 ∧ x < 2 where
  objects := by
    rintro x y ⟨rfl, hx⟩
    obtain rfl | rfl := Nat.le_one_iff_eq_zero_or_eq_one.1 (Nat.le_of_lt_succ hx)
    · refine ⟨_, _, rfl, rfl, .cons ⟨rfl, fun _ => ?_⟩ (.cons ⟨rfl, fun _ => ?_⟩ .nil)⟩
      · exact ⟨Nat.le_of_ble_eq_true rfl, rfl, fun h => h.elim⟩
      · exact ⟨rfl, by decide⟩
    · refine ⟨_, _, rfl, rfl, .cons ⟨rfl, fun _ => ?_⟩ (.cons ⟨rfl, fun _ => ?_⟩ .nil)⟩
      · rfl
      · exact ⟨Nat.le_of_ble_eq_true rfl, rfl, fun h => h.elim⟩
  functional := by
    rintro x y y' ⟨rfl, -⟩ ⟨rfl, -⟩
    rfl
  injective := by
    rintro x x' y ⟨rfl, -⟩ ⟨h, -⟩
    exact (Nat.add_right_cancel h).symm

/-- No field of the chains is a text. -/
theorem delimited_twoChains :
    Delimited {} twoChains fun (x y : Nat) => y = x + 2 ∧ x < 2 := by
  intro x y _ index k hk _
  refine forall_field? (P := fun k => ¬k.data.ReadsToEnd) ?_ hk
  simp [twoChains, DataObject.fields, FieldData.ReadsToEnd]

/-- The second chain takes the numbers of the first, and an object is missed at its end. -/
theorem unpack_pack_twoChains :
    let result := twoChains.unpack 2 (Transport.bits.carry (twoChains.pack 0 {})) {}
    result.1 = .error .nullObject ∧
      result.2.1.field? 2 0 = some ⟨"number", .int 5 8 .dec, .always⟩ := by
  intro result
  have hroot : (fun (x y : Nat) => y = x + 2 ∧ x < 2) 0 2 := ⟨rfl, by decide⟩
  obtain ⟨-, -, hfields, -, herror, -⟩ := unpack_pack_without_metadata (p := {}) (q := {}) .bits
    matching_twoChains delimited_twoChains hroot rfl (by decide) rfl (fun x y _ => ⟨rfl, rfl⟩)
  constructor
  · exact herror.2 ⟨3, 0, ⟨"next", .child none, .always⟩,
      .single ⟨1, ⟨"next", .child (some 3), .always⟩, some 3, _, rfl, rfl, rfl, rfl⟩, rfl, rfl, rfl⟩
  · obtain ⟨x, ⟨hx, -⟩, hfield⟩ := hfields 2 .refl
    obtain rfl : x = 0 := (Nat.add_right_cancel (n := 0) (m := 2) hx).symm
    exact hfield 0 _ _ rfl rfl rfl

/-- Unpacking does not come to the size of the stream for all graphs of one shape: the chains have
null references at their ends. -/
theorem not_forall_unpack_pack_ok :
    ¬∀ (t : Transport) (g h : ObjectGraph) (m : ObjectRef → ObjectRef → Prop) (p q : Packer)
      (src dst : ObjectRef), Matching { p.settings with useMetadata := true } g h m →
      Delimited p.settings h m → m src dst → p.settings.useMetadata = false →
      p.settings.policy ≠ .reference → q.settings = p.settings →
      (∀ x y, m x y → p.visits.contains (instanceId x) = false ∧
        q.visits.contains (instanceId y) = false) →
      (h.unpack dst (t.carry (g.pack src p)) q).1 = .ok (g.pack src p).size := by
  intro hall
  have hok := hall .bits twoChains twoChains (fun (x y : Nat) => y = x + 2 ∧ x < 2) {} {} 0 2
    matching_twoChains delimited_twoChains ⟨rfl, by decide⟩ rfl (by decide) rfl
    (fun x y _ => ⟨rfl, rfl⟩)
  have herror : (twoChains.unpack 2 (Transport.bits.carry (twoChains.pack 0 {})) {}).1 =
      .error .nullObject := by decide
  rw [herror] at hok
  cases hok

end ObjectGraph

end ThereAndBack

end FieldAutomation
