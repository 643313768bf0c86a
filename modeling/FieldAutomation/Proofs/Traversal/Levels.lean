import FieldAutomation.Proofs.Comparing.Levels
import FieldAutomation.Proofs.Comparing.Termination
import FieldAutomation.Proofs.Traversal.Packing
import FieldAutomation.Proofs.Traversal.Recording

/-!
# Which names restore the levels of a path

An object that is visited has a level of its own.  Comparing and recording name it after the field
that refers to the object, packing and unpacking after the object.  Under a plain name the level
that was left is the one that was entered, and the fields that follow are reported under the right
path.  Under a name that opens with a bracket the level above it is left too.

* `RestoresAt`: a step comes back to the levels that it began at;
* `Comparer.RestoresUnder`, `Recording.RestoresUnder`, `Packer.PackingRestores`,
  `Packer.UnpackingRestores`: visits under a name come back if their hooks do;
* `Traversal.Levelled`: a traversal that has a level for each object.

Main statements: `Traversal.Levelled.visit` (one visit), `Traversal.PlainRun.visit` (all visits
under plain names, by induction), and `visits_restore_iff`.
-/

namespace FieldAutomation

open ObjectGraph (instanceId)

/-- A step that begins with the given segments ends with them, if it ends. -/
def RestoresAt {α β : Type} (before : α → Scope) (after : β → Scope) (segments : List String)
    (step : α → Option β) : Prop :=
  ∀ a b, (before a).segments = segments → step a = some b → (after b).segments = segments

/-- Leaving a level under a name that opens with a bracket leaves the one above it too. -/
theorem Scope.segments_up_ne_of_indexed {name : String} (hname : isIndexed name = true) :
    (up { segments := [name, "top"] }).segments ≠ ["top"] := by
  rw [segments_up_of_indexed rfl hname]
  nofun

/-! ### Traversals with levels -/

namespace Traversal

variable {σ κ ι : Type} {T : Traversal σ κ ι} {scope : σ → Scope} {name : κ → DataObject → String}
  {items : ObjectRef → DataObject → List ι} {fuel : Nat} {c : κ} {s t : σ} {l : List ι}

/-- The path changes where an object is entered, under its name, and where it is left.  An object
of which nothing is done has no level. -/
structure Levelled (T : Traversal σ κ ι) (scope : σ → Scope) (name : κ → DataObject → String)
    (items : ObjectRef → DataObject → List ι) : Prop where
  ended : ∀ {c s t}, T.opening c s = .ended t → (scope t).segments = (scope s).segments
  found : ∀ {c s r o t}, T.opening c s = .found r o t → (scope t).segments = (scope s).segments
  refuse : ∀ r s, (scope (T.refuse r s)).segments = (scope s).segments
  descent : ∀ c r o visits s,
    ((T.descent c r o visits s).items = items r o ∧
      (scope (T.descent c r o visits s).start).segments = name c o :: (scope s).segments ∧
      ∀ t, (scope ((T.descent c r o visits s).leave t)).segments = (scope t).up.segments) ∨
    ((T.descent c r o visits s).items = [] ∧
      (scope (T.descent c r o visits s).start).segments = (scope s).segments ∧
      ∀ t, (scope ((T.descent c r o visits s).leave t)).segments = (scope t).segments)

/-- What a visit can come to: there is nothing to visit, the object is refused, or its hook is
gone through. -/
theorem visit_cases (ht : (T.visit (fuel + 1) c s).map Prod.fst = some t) :
    T.opening c s = .ended t ∨ ∃ r o u, T.opening c s = .found r o u ∧
      (t = T.refuse r u ∨ ∃ visits v,
        (T.hook fuel (T.descent c r o visits u).items (T.descent c r o visits u).start).map
          Prod.fst = some v ∧ t = (T.descent c r o visits u).leave v) := by
  cases ho : T.opening c s with
  | ended u =>
    rw [visit_ended ho] at ht
    cases ht
    exact .inl rfl
  | found r o u =>
    refine .inr ⟨r, o, u, rfl, ?_⟩
    cases he : (T.visits u).enter? (instanceId r) with
    | none =>
      rw [visit_refused ho he] at ht
      cases ht
      exact .inl rfl
    | some visits =>
      rw [visit_entered ho he rfl, Option.map_map, Option.map_eq_some_iff] at ht
      obtain ⟨⟨v, h⟩, hv, rfl⟩ := ht
      exact .inr ⟨visits, v, by rw [hv]; rfl, rfl⟩

/-- **One visit** comes back to the levels that it began at if its hook does, under a plain name. -/
theorem Levelled.visit (hT : T.Levelled scope name items)
    (hhook : ∀ {r o u visits v}, T.opening c s = .found r o u →
      Scope.isIndexed (name c o) = false ∧
      ((T.hook fuel (items r o) (T.descent c r o visits u).start).map Prod.fst = some v →
        (scope (T.descent c r o visits u).start).segments = name c o :: (scope s).segments →
        (scope v).segments = name c o :: (scope s).segments))
    (ht : (T.visit (fuel + 1) c s).map Prod.fst = some t) :
    (scope t).segments = (scope s).segments := by
  obtain ho | ⟨r, o, u, ho, rfl | ⟨visits, v, hv, rfl⟩⟩ := visit_cases ht
  · exact hT.ended ho
  · rw [hT.refuse, hT.found ho]
  · obtain ⟨hitems, hstart, hleave⟩ | ⟨hitems, hstart, hleave⟩ := hT.descent c r o visits u
    · obtain ⟨hplain, hback⟩ := @hhook r o u visits v ho
      rw [hT.found ho] at hstart
      exact (hleave v).trans (Scope.segments_up_of_plain (hback (hitems ▸ hv) hstart) hplain)
    · rw [hitems] at hv
      cases hv
      exact (hleave _).trans (hstart.trans (hT.found ho))

/-- A run of a traversal that stays within states `I`, items `J` and calls `K`, where all names are
plain. -/
structure PlainRun (T : Traversal σ κ ι) (scope : σ → Scope) (name : κ → DataObject → String)
    (items : ObjectRef → DataObject → List ι) (I : σ → Prop) (J : ι → Prop) (K : κ → Prop) :
    Prop where
  levelled : T.Levelled scope name items
  own : ∀ {i s t}, J i → I s → T.step i s = .own t →
    I t ∧ (scope t).segments = (scope s).segments
  call : ∀ {i s c}, J i → I s → T.step i s = .call c → K c
  ended : ∀ {c s t}, I s → T.opening c s = .ended t → I t
  found : ∀ {c s r o t}, K c → I s → T.opening c s = .found r o t →
    I t ∧ Scope.isIndexed (name c o) = false ∧ ∀ i ∈ items r o, J i
  refuse : ∀ {r s}, I s → I (T.refuse r s)
  enter : ∀ {c r o visits s}, I s → I (T.descent c r o visits s).start
  leave : ∀ {c r o visits s t}, I t → I ((T.descent c r o visits s).leave t)

namespace PlainRun

variable {I : σ → Prop} {J : ι → Prop} {K : κ → Prop}

/-- A hook comes back if the calls that it makes do. -/
theorem hook_of_visits (hR : T.PlainRun scope name items I J K)
    (hvisit : ∀ c s t, K c → I s → (T.visit fuel c s).map Prod.fst = some t →
      I t ∧ (scope t).segments = (scope s).segments)
    (hl : ∀ i ∈ l, J i) (hs : I s) (ht : (T.hook fuel l s).map Prod.fst = some t) :
    I t ∧ (scope t).segments = (scope s).segments := by
  rw [map_fst_hook fun _ _ => rfl] at ht
  induction l generalizing s with
  | nil =>
    cases ht
    exact ⟨hs, rfl⟩
  | cons i rest ih =>
    obtain ⟨hi, hrest⟩ := List.forall_mem_cons.1 hl
    rw [List.foldlM_cons, Option.bind_eq_bind, Option.bind_eq_some_iff] at ht
    obtain ⟨u, hu, ht⟩ := ht
    have hstep : I u ∧ (scope u).segments = (scope s).segments := by
      rw [stepBy] at hu
      cases hc : T.step i s with
      | own v =>
        rw [hc] at hu
        cases hu
        exact hR.own hi hs hc
      | call c =>
        rw [hc] at hu
        exact hvisit c s u (hR.call hi hs hc) hs hu
    obtain ⟨hIt, hst⟩ := ih hrest hstep.1 ht
    exact ⟨hIt, hst.trans hstep.2⟩

/-- **All visits** of a run under plain names come back to the levels that they began at. -/
theorem visit (hR : T.PlainRun scope name items I J K) (fuel : Nat) (c : κ) (s t : σ) (hc : K c)
    (hs : I s) (ht : (T.visit fuel c s).map Prod.fst = some t) :
    I t ∧ (scope t).segments = (scope s).segments := by
  induction fuel generalizing c s t with
  | zero => cases ht
  | succ fuel ih =>
    constructor
    · obtain ho | ⟨r, o, u, ho, rfl | ⟨visits, v, hv, rfl⟩⟩ := visit_cases ht
      · exact hR.ended hs ho
      · exact hR.refuse (hR.found hc hs ho).1
      · obtain ⟨hu, -, hitems⟩ := hR.found hc hs ho
        refine hR.leave (hR.hook_of_visits ih (fun i hi => ?_) (hR.enter hu) hv).1
        obtain ⟨hl, -⟩ | ⟨hl, -⟩ := hR.levelled.descent c r o visits u
        · exact hitems i (hl ▸ hi)
        · rw [hl] at hi
          cases hi
    · refine hR.levelled.visit (fun ho => ?_) ht
      obtain ⟨hu, hplain, hitems⟩ := hR.found hc hs ho
      refine ⟨hplain, fun hv hstart => ?_⟩
      rw [(hR.hook_of_visits ih hitems (hR.enter hu) hv).2, hstart]

end PlainRun

end Traversal

/-- No object has a name that opens with a bracket. -/
def ObjectGraph.PlainObjects (g : ObjectGraph) : Prop :=
  ∀ r o, g.object? r = some o → Scope.isIndexed o.name = false

/-- The names of objects are not data. -/
theorem ObjectGraph.PlainObjects.setData {g : ObjectGraph} (hg : g.PlainObjects) (r : ObjectRef)
    (index : Nat) (data : FieldData) : (g.setData r index data).PlainObjects := by
  intro s o ho
  simp only [ObjectGraph.setData, object?, Array.getElem?_modify] at ho
  split at ho
  · obtain ⟨o', ho', rfl⟩ := Option.map_eq_some_iff.1 ho
    rw [DataObject.name_mapFields]
    exact hg s o' ho'
  · exact hg s o ho

/-! ### Packing -/

namespace Packer

variable {g : ObjectGraph} {fuel : Nat} {name : String}

theorem scope_packMarker (p : Packer) (follows : Bool) :
    (p.packMarker follows).scope = p.scope := by
  rw [(wrote_packMarker p follows).unchanged]

theorem opening_packing_found {target : Option ObjectRef} {p q : Packer} {r : ObjectRef}
    {o : DataObject} (h : (packing g).opening target p = .found r o q) :
    q = p ∧ g.resolve target = some (r, o) := by
  simp only [packing] at h
  split at h
  · cases h
  next hres =>
    cases h
    exact ⟨rfl, hres⟩

theorem levelled_packing (g : ObjectGraph) :
    (packing g).Levelled scope (fun _ o => o.name) (fun _ o => o.fields) where
  ended {target p q} h := by
    simp only [packing] at h
    split at h
    · cases h
      rw [scope_packMarker]
    · cases h
  found h := by rw [(opening_packing_found h).1]
  refuse r p := by
    simp only [packing, scope_packMarker]
  descent target r o visits p := by
    simp only [packing, packDescent]
    split
    · exact .inr ⟨rfl, by rw [scope_packMarker], fun _ => rfl⟩
    · refine .inl ⟨rfl, ?_, fun _ => rfl⟩
      simp only [Scope.segments_down, scope_packMarker]

theorem map_fst_hook_packing (g : ObjectGraph) (fuel : Nat) (fields : List Field) (p : Packer) :
    ((packing g).hook fuel fields p).map Prod.fst = packFields (packObject g fuel) fields p := by
  rw [Traversal.map_fst_hook (map_fst_packing g fuel)]
  simp only [stepBy_packing]
  rfl

/-- Whatever is packed of an object with a name, by a hook that restores the levels, restores
them. -/
def PackingRestores (name : String) : Prop :=
  ∀ (g : ObjectGraph) (fuel : Nat) (target : Option ObjectRef) (segments : List String),
    (∀ r o, g.resolve target = some (r, o) → o.name = name ∧
      RestoresAt scope scope (name :: segments) (packFields (packObject g fuel) o.fields)) →
    RestoresAt scope scope segments (packObject g (fuel + 1) target)

theorem packingRestores (hname : Scope.isIndexed name = false) : PackingRestores name := by
  rintro g fuel target _ hhook p q rfl hq
  rw [← map_fst_packing] at hq
  refine (levelled_packing g).visit (fun {r o u visits v} ho => ?_) hq
  obtain ⟨rfl, hback⟩ := hhook r o (opening_packing_found ho).2
  refine ⟨hname, fun hv hstart => ?_⟩
  rw [map_fst_hook_packing] at hv
  exact hback _ v hstart hv

/-- A bare object under its name, and a packer that is at a level above it. -/
theorem not_packingRestores (hname : Scope.isIndexed name = true) : ¬PackingRestores name := by
  intro h
  refine Scope.segments_up_ne_of_indexed hname (h ⟨#[⟨name, .bare⟩]⟩ 0 (some 0) ["top"] ?_
    { scope := { segments := ["top"] } } _ rfl rfl)
  rintro r o ⟨⟩
  refine ⟨rfl, fun p q hp hq => ?_⟩
  cases hq
  exact hp

/-! ### Unpacking -/

theorem scope_unpackMarker (p : Packer) : p.unpackMarker.2.scope = p.scope := by
  obtain ⟨es, h⟩ := exists_misused_unpackMarker p
  exact h.scope

/-- There is nothing to unpack into. -/
theorem opening_unpacking_ended {target : Option ObjectRef} {u v : Unpacking}
    (h : unpacking.opening target u = .ended v) :
    v.graph = u.graph ∧ v.packer.scope = u.packer.scope := by
  simp only [unpacking] at h
  split at h
  · split at h
    · cases h
      exact ⟨rfl, scope_unpackMarker u.packer⟩
    · cases h
  · cases h
    exact ⟨rfl, scope_unpackMarker u.packer⟩

/-- What is found is an object of the graph, and the graph is as it was. -/
theorem opening_unpacking_found {target : Option ObjectRef} {u v : Unpacking} {r : ObjectRef}
    {o : DataObject} (h : unpacking.opening target u = .found r o v) :
    v.graph = u.graph ∧ v.packer.scope = u.packer.scope ∧ u.graph.resolve target = some (r, o) := by
  simp only [unpacking] at h
  split at h
  · split at h
    · cases h
    next hres =>
      cases h
      exact ⟨rfl, scope_unpackMarker u.packer, hres⟩
  · cases h

theorem levelled_unpacking :
    unpacking.Levelled (·.packer.scope) (fun _ o => o.name)
      (fun r o => o.fields.zipIdx.map (Prod.mk r)) where
  ended h := congrArg Scope.segments (opening_unpacking_ended h).2
  found h := congrArg Scope.segments (opening_unpacking_found h).2.1
  refuse _ _ := rfl
  descent _ _ _ _ _ := .inl ⟨rfl, rfl, fun _ => rfl⟩

theorem map_fst_hook_unpacking (fuel : Nat) (r : ObjectRef) (fields : List Field) (u : Unpacking) :
    (unpacking.hook fuel (fields.zipIdx.map (Prod.mk r)) u).map Prod.fst =
      unpackFields (unpackObject fuel) r 0 fields u := by
  rw [Traversal.map_fst_hook (map_fst_unpacking fuel), foldlM_unpacking]

/-- Whatever is unpacked into an object with a name, by a hook that restores the levels, restores
them. -/
def UnpackingRestores (name : String) : Prop :=
  ∀ (g : ObjectGraph) (fuel : Nat) (target : Option ObjectRef) (segments : List String),
    (∀ r o, g.resolve target = some (r, o) → o.name = name ∧
      RestoresAt scope (·.packer.scope) (name :: segments) fun p =>
        unpackFields (unpackObject fuel) r 0 o.fields ⟨g, p⟩) →
    RestoresAt scope (·.packer.scope) segments fun p => unpackObject (fuel + 1) target ⟨g, p⟩

theorem unpackingRestores (hname : Scope.isIndexed name = false) : UnpackingRestores name := by
  rintro g fuel target _ hhook p v rfl hv
  refine levelled_unpacking.visit (fun {r o u visits w} ho => ?_)
    ((map_fst_unpacking (fuel + 1) target ⟨g, p⟩).trans hv)
  obtain ⟨hgraph, -, hres⟩ := opening_unpacking_found ho
  obtain ⟨rfl, hback⟩ := hhook r o hres
  refine ⟨hname, fun hw hstart => ?_⟩
  rw [map_fst_hook_unpacking] at hw
  -- the hook starts in the same graph
  refine hback (unpacking.descent target r o visits u).start.packer w hstart ?_
  rw [← hw]
  exact congrArg (fun h => unpackFields (unpackObject fuel) r 0 o.fields ⟨h, _⟩) hgraph.symm

/-- A bare object under its name, and a packer that is at a level above it. -/
theorem not_unpackingRestores (hname : Scope.isIndexed name = true) : ¬UnpackingRestores name := by
  intro h
  refine Scope.segments_up_ne_of_indexed hname (h ⟨#[⟨name, .bare⟩]⟩ 0 (some 0) ["top"] ?_
    { scope := { segments := ["top"] } } _ rfl rfl)
  rintro r o ⟨⟩
  refine ⟨rfl, fun p v hp hv => ?_⟩
  cases hv
  exact hp

/-! ### Objects with plain names -/

theorem plainRun_packing (hg : g.PlainObjects) :
    (packing g).PlainRun scope (fun _ o => o.name) (fun _ o => o.fields) (fun _ => True)
      (fun _ => True) (fun _ => True) where
  levelled := levelled_packing g
  own {f p q} _ _ h := by
    refine ⟨trivial, ?_⟩
    simp only [packing] at h
    split at h
    · split at h
      · cases h
      · cases h
        obtain ⟨es, h⟩ := exists_misused_packData f.data p
        rw [h.scope]
    · cases h
      rfl
  call _ _ _ := trivial
  ended _ _ := trivial
  found _ _ ho := ⟨trivial, hg _ _ (ObjectGraph.resolve_eq_some.1 (opening_packing_found ho).2).2,
    fun _ _ => trivial⟩
  refuse _ := trivial
  enter _ := trivial
  leave _ := trivial

theorem plainRun_unpacking :
    unpacking.PlainRun (·.packer.scope) (fun _ o => o.name)
      (fun r o => o.fields.zipIdx.map (Prod.mk r)) (·.graph.PlainObjects) (fun _ => True)
      (fun _ => True) where
  levelled := levelled_unpacking
  own {i u v} _ hu h := by
    obtain ⟨r, f, index⟩ := i
    simp only [unpacking] at h
    split at h
    · split at h
      · cases h
      · cases h
        obtain ⟨es, h⟩ := exists_misused_unpackData f.data u.packer
        exact ⟨hu.setData r index _, congrArg Scope.segments h.scope⟩
    · cases h
      exact ⟨hu, rfl⟩
  call _ _ _ := trivial
  ended hu ho := (opening_unpacking_ended ho).1 ▸ hu
  found _ hu ho := by
    obtain ⟨hgraph, -, hres⟩ := opening_unpacking_found ho
    exact ⟨hgraph ▸ hu, hu _ _ (ObjectGraph.resolve_eq_some.1 hres).2, fun _ _ => trivial⟩
  refuse := id
  enter := id
  leave := id

end Packer

/-! ### Recording -/

namespace Recording

variable {g : ObjectGraph} {fuel : Nat} {name : String}

theorem segments_emit (s : Recording) (name value : String) (radix : Radix) (bits : Nat)
    (typeName : Option String) :
    (s.emit name value radix bits typeName).recorder.scope.segments =
      s.recorder.scope.segments := by
  unfold emit
  split
  · rfl
  · dsimp only
    rw [recorder_deliver]
    exact (Scope.segments_unsetPending ..).trans (Scope.segments_setPending ..)

theorem segments_recordId (g : ObjectGraph) (name : String) (target : Option ObjectRef)
    (s : Recording) :
    (recordId g name target s).recorder.scope.segments = s.recorder.scope.segments := by
  unfold recordId
  split
  · exact segments_emit ..
  · rfl

theorem opening_recording_found {call : String × Option ObjectRef} {s t : Recording}
    {r : ObjectRef} {o : DataObject} (h : (recording g).opening call s = .found r o t) :
    t.recorder.scope.segments = s.recorder.scope.segments ∧ g.resolve call.2 = some (r, o) := by
  obtain ⟨name, target⟩ := call
  simp only [recording] at h
  split at h
  · cases h
  split at h
  · cases h
  next hres =>
    split at h
    · cases h
    · cases h
      exact ⟨segments_recordId .., hres⟩

theorem levelled_recording (g : ObjectGraph) :
    (recording g).Levelled (·.recorder.scope) (fun call _ => call.1) (fun _ o => o.fields) where
  ended {call s t} h := by
    obtain ⟨name, target⟩ := call
    simp only [recording] at h
    split at h
    · cases h
      rfl
    split at h
    · cases h
      exact segments_recordId ..
    split at h
    · cases h
      exact segments_recordId ..
    · cases h
  found h := (opening_recording_found h).1
  refuse r s := rfl
  descent call r o visits s := .inl ⟨rfl, rfl, fun _ => rfl⟩

theorem map_fst_hook_recording (g : ObjectGraph) (fuel : Nat) (fields : List Field)
    (s : Recording) :
    ((recording g).hook fuel fields s).map Prod.fst =
      recordFields (recordObject g fuel) fields s := by
  rw [Traversal.map_fst_hook (map_fst_recording g fuel)]
  exact foldlM_recording g (fun call => recordObject g fuel call.1 call.2) fields s

/-- Whatever is recorded under a name, by a hook that restores the levels, restores them. -/
def RestoresUnder (name : String) : Prop :=
  ∀ (g : ObjectGraph) (fuel : Nat) (target : Option ObjectRef) (segments : List String),
    (∀ r o, g.resolve target = some (r, o) →
      RestoresAt (·.recorder.scope) (·.recorder.scope) (name :: segments)
        (recordBody (recordObject g fuel) o)) →
    RestoresAt (·.recorder.scope) (·.recorder.scope) segments
      (recordObject g (fuel + 1) name target)

theorem restoresUnder (hname : Scope.isIndexed name = false) : RestoresUnder name := by
  rintro g fuel target _ hhook s t rfl ht
  rw [← map_fst_recording g (fuel + 1) (name, target)] at ht
  refine (levelled_recording g).visit (fun {r o u visits v} ho => ?_) ht
  refine ⟨hname, fun hv hstart => ?_⟩
  rw [map_fst_hook_recording] at hv
  refine hhook r o (opening_recording_found ho).2
    ({ u with recorder := { u.recorder with visits } }.moveScope (.down name)) v.shallower hstart ?_
  rw [recordBody_eq]
  exact congrArg (Option.map shallower) hv

/-- A bare object under the name, and a recorder that is at a level above it. -/
theorem not_restoresUnder (hname : Scope.isIndexed name = true) : ¬RestoresUnder name := by
  intro h
  let recorder : Recorder :=
    { serial := 0, name := "recorder", settings := { identifier := false },
      backend := some (.memory 0), scope := { segments := ["top"] } }
  refine Scope.segments_up_ne_of_indexed hname
    (h ⟨#[⟨"", .bare⟩]⟩ 0 (some 0) ["top"] ?_ ⟨recorder, {}⟩ _ rfl rfl)
  rintro r o ⟨⟩ s t hs ht
  cases ht
  exact hs

/-! ### Fields with plain names -/

theorem segments_recordWords (words : String) (radix : Radix) (index : Nat) (values : List Nat)
    (s : Recording) :
    (recordWords words radix index values s).recorder.scope.segments =
      s.recorder.scope.segments := by
  induction values generalizing index s with
  | nil => rfl
  | cons v rest ih => exact (ih ..).trans (segments_emit ..)

theorem segments_recordElements (size : Nat) (radix : Radix) (index : Nat) (values : List Nat)
    (s : Recording) :
    (recordElements size radix index values s).recorder.scope.segments =
      s.recorder.scope.segments := by
  induction values generalizing index s with
  | nil => rfl
  | cons v rest ih =>
    exact (ih ..).trans (Scope.segments_upElement_of_element (segments_emit ..))

theorem segments_recordData {f : Field} (hname : Scope.isIndexed f.name = false) (s : Recording) :
    (recordData f s).recorder.scope.segments = s.recorder.scope.segments := by
  unfold recordData recordField
  split
  · cases f.data with
    | array kind values size radix =>
      cases kind with
      | bytes => exact segments_emit ..
      | words => exact segments_recordWords ..
    | elements values size radix =>
      exact Scope.segments_up_of_plain (segments_recordElements ..) hname
    | child target => rfl
    | probe => rfl
    | int v size radix => exact segments_emit ..
    | wide v size radix => exact segments_emit ..
    | real x => exact segments_emit ..
    | str text length => exact segments_emit ..
    | time t radix => exact segments_emit ..
    | generic text typeName => exact segments_emit ..
  · rfl

theorem plainRun_recording (hg : g.PlainNames) :
    (recording g).PlainRun (·.recorder.scope) (fun call _ => call.1) (fun _ o => o.fields)
      (fun _ => True) (fun f => Scope.isIndexed f.name = false)
      (fun call => Scope.isIndexed call.1 = false) where
  levelled := levelled_recording g
  own {f s t} hf _ h := by
    refine ⟨trivial, ?_⟩
    simp only [recording] at h
    split at h
    · split at h
      · cases h
      · cases h
        rfl
    · cases h
      exact segments_recordData hf s
  call {f s call} hf _ h := by
    simp only [recording] at h
    split at h
    · split at h
      · cases h
        exact hf
      · cases h
    · cases h
  ended _ _ := trivial
  found hcall _ ho :=
    ⟨trivial, hcall, hg _ _ (ObjectGraph.resolve_eq_some.1 (opening_recording_found ho).2).2⟩
  refuse _ := trivial
  enter _ := trivial
  leave _ := trivial

end Recording

/-! ### Comparing -/

namespace Comparer

variable {g : ObjectGraph} {hooks : ObjectRef → ObjectRef → CompareHook} {fuel : Nat}
  {name : String} {c : Comparer}

/-- An object that is met is compared at the level where it is met, if its hook stays there. -/
theorem segments_compareMetBy {hook : ObjectRef → Comparer → Option Outcome}
    {right : Option (ObjectRef × DataObject)} {l : ObjectRef} {left : DataObject} {out : Outcome}
    (hhook : ∀ r o, right = some (r, o) → RestoresAt scope (·.2.scope) c.scope.segments (hook r))
    (hout : compareMetBy hook l left right c = some out) :
    out.2.scope.segments = c.scope.segments := by
  unfold compareMetBy at hout
  split at hout
  next =>
    cases hout
    rw [scope_tally]
  next r o =>
    split at hout
    next =>
      split at hout
      · cases hout
        rfl
      · cases hout
        exact congrArg Scope.segments (scope_tally ..)
    next =>
      split at hout
      · cases hout
        rw [scope_tally]
      · exact hhook r o rfl ((c.pair (instanceId r) (instanceId l)).call (instanceId r)
          (instanceId l)) out rfl hout

theorem segments_compareBy_below {l : ObjectRef} {target : Option ObjectRef} {out : Outcome}
    (hc : c.scope.depth ≠ 0)
    (hhook : ∀ r, target = some r →
      RestoresAt scope (·.2.scope) c.scope.segments ((hooks l r).run (compareBy g hooks fuel)))
    (hout : compareBy g hooks (fuel + 1) l target c = some out) :
    out.2.scope.segments = c.scope.segments := by
  cases hl : g.object? l with
  | none =>
    rw [compareBy, hl] at hout
    cases hout
    rfl
  | some left =>
    rw [compareBy_below hl hc] at hout
    obtain ⟨met, hmet, hrest⟩ := Option.bind_eq_some_iff.1 hout
    cases hrest
    have hmet' := segments_compareMetBy
      (fun r o hres => hhook r (ObjectGraph.resolve_eq_some.1 hres).1) hmet
    exact hmet'

/-- Whatever is compared under a name, by hooks that restore the levels, restores them. -/
def RestoresUnder (name : String) : Prop :=
  ∀ (g : ObjectGraph) (hooks : ObjectRef → ObjectRef → CompareHook) (fuel : Nat)
    (left right : Option ObjectRef) (segments : List String),
    (∀ l r, left = some l → right = some r →
      RestoresAt scope (·.2.scope) (name :: segments) ((hooks l r).run (compareBy g hooks fuel))) →
    RestoresAt scope (·.2.scope) segments
      (compareChild (compareBy g hooks (fuel + 1)) name left right)

theorem restoresUnder (hname : Scope.isIndexed name = false) : RestoresUnder name := by
  rintro g hooks fuel left right _ hhook c out rfl hout
  have hstart : (if c.scope.depth = 0 then c.start else c).scope.segments = c.scope.segments := by
    split <;> rfl
  unfold compareChild at hout
  generalize (if c.scope.depth = 0 then c.start else c) = d at hstart hout
  have htally : (d.tallyChild name left right).scope.segments = c.scope.segments :=
    (continues_tallyChild d name left right).segments.trans hstart
  split at hout
  next =>
    cases hout
    exact hstart
  next l r =>
    split at hout
    next =>
      cases hout
      exact hstart
    next =>
      dsimp only at hout
      split at hout
      next =>
        cases hout
        exact htally
      next =>
        obtain ⟨⟨same, e⟩, he, hup⟩ := Option.bind_eq_some_iff.1 hout
        cases hup
        have hdown : (d.scope.down name).segments = name :: c.scope.segments :=
          congrArg (name :: ·) hstart
        have hwithin := segments_compareBy_below (by simp [Scope.depth])
          (fun r' hr' => hdown ▸ hhook l r' rfl hr') he
        exact Scope.segments_up_of_plain (hwithin.trans hdown) hname
  next =>
    cases hout
    exact htally

/-- Two bare objects under the name, and a comparer that is at a level above it. -/
theorem not_restoresUnder (hname : Scope.isIndexed name = true) : ¬RestoresUnder name := by
  intro h
  refine Scope.segments_up_ne_of_indexed hname
    (h ⟨#[⟨"", .bare⟩, ⟨"", .bare⟩]⟩ (fun _ _ => .done true) 0 (some 0) (some 1) ["top"] ?_
      { scope := { segments := ["top"] } } _ rfl rfl)
  rintro l r - - c out hc hout
  cases hout
  exact hc

end Comparer

/-! ### All visits -/

/-- **Exactly the plain names restore the levels of a path.**  Under a name, every visit by a hook
that restores the levels restores them too if and only if the name does not open with a bracket; be
it comparing, recording, packing or unpacking.  So in a graph where all names are plain, all visits
restore them. -/
theorem visits_restore_iff (name : String) :
    (Comparer.RestoresUnder name ↔ Scope.isIndexed name = false) ∧
    (Recording.RestoresUnder name ↔ Scope.isIndexed name = false) ∧
    (Packer.PackingRestores name ↔ Scope.isIndexed name = false) ∧
    (Packer.UnpackingRestores name ↔ Scope.isIndexed name = false) ∧
    ∀ g : ObjectGraph, g.PlainNames → g.PlainObjects → Scope.isIndexed name = false →
      ∀ fuel segments target,
        (∀ left, RestoresAt Comparer.scope (·.2.scope) segments
          (Comparer.compareChild (Comparer.compareWithin g fuel) name left target)) ∧
        RestoresAt (·.recorder.scope) (·.recorder.scope) segments
          (Recording.recordObject g fuel name target) ∧
        RestoresAt Packer.scope Packer.scope segments (Packer.packObject g fuel target) ∧
        RestoresAt Packer.scope (·.packer.scope) segments fun p =>
          Packer.unpackObject fuel target ⟨g, p⟩ := by
  have hiff {restores : Prop} (hplain : Scope.isIndexed name = false → restores)
      (hindexed : Scope.isIndexed name = true → ¬restores) :
      restores ↔ Scope.isIndexed name = false := by
    refine ⟨fun h => ?_, hplain⟩
    rw [← Bool.not_eq_true]
    exact fun hname => hindexed hname h
  refine ⟨hiff Comparer.restoresUnder Comparer.not_restoresUnder,
    hiff Recording.restoresUnder Recording.not_restoresUnder,
    hiff Packer.packingRestores Packer.not_packingRestores,
    hiff Packer.unpackingRestores Packer.not_unpackingRestores,
    fun g hnames hobjects hname fuel segments target => ⟨fun left => ?_, ?_, ?_, ?_⟩⟩
  · rintro c ⟨same, d⟩ rfl hd
    have hwithin : ∀ l target c,
        Comparer.Obeys Comparer.SameLevel c (Comparer.compareWithin g fuel l target c) := by
      intro l target c
      rw [← Comparer.compareBy_fieldHook]
      exact Comparer.sameLevel_compareBy (ObjectGraph.levelsIn_fieldHook hnames) fuel l target c
    exact (Comparer.levelLaw_sameLevel.compareChild hwithin hname left target c same d hd).segments
  · rintro s t rfl ht
    rw [← Recording.map_fst_recording g fuel (name, target)] at ht
    exact ((Recording.plainRun_recording hnames).visit fuel _ s t hname trivial ht).2
  · rintro p q rfl hq
    rw [← Packer.map_fst_packing] at hq
    exact ((Packer.plainRun_packing hobjects).visit fuel target p q trivial trivial hq).2
  · rintro p v rfl hv
    exact (Packer.plainRun_unpacking.visit fuel target ⟨g, p⟩ v trivial hobjects
      ((Packer.map_fst_unpacking fuel target ⟨g, p⟩).trans hv)).2

end FieldAutomation
