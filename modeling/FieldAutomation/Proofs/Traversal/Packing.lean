import FieldAutomation.Proofs.Packing.Refusal
import FieldAutomation.Proofs.Traversal

/-!
# Packing and unpacking as traversals

A hook that packs an object makes a call at a field that refers to one, and so does a hook that
unpacks.  Fields of other kinds have their own data packed or unpacked.  That may be misused, which
is reported; but a cycle is never reported there.

* `Packer.Misused`: a packer after some misuses;
* `Packer.packing`, `Packer.unpacking`: the two traversals.

Main statements: `Packer.map_fst_packing`, `Packer.map_fst_unpacking` (these are packing and
unpacking, with a history) and `Packer.lawful_packing`, `Packer.lawful_unpacking`.
-/

namespace FieldAutomation

open ObjectGraph (instanceId)

namespace PackError

/-- No misuse is reported as a cycle. -/
theorem reportId_ne_cycle (e : PackError) : e.reportId ≠ "CYCFND" := by
  cases e <;> simp [reportId]

end PackError

namespace Packer

variable {p q r : Packer}

/-- The reports about cycles. -/
def cycles (p : Packer) : List Report := p.reporter.withId "CYCFND"

/-! ### Misuses -/

/-- `q` is at the same place as `p`, in the middle of the same objects, and has misuses to report
besides what `p` has. -/
structure Misused (p q : Packer) (es : List PackError) : Prop where
  scope : q.scope = p.scope
  visits : q.visits = p.visits
  errors : q.errors = p.errors ++ es
  reports : q.reporter.reports = p.reporter.reports ++ es.map PackError.report

namespace Misused

variable {es es' : List PackError}

/-- Whatever reports nothing is not a misuse. -/
theorem none (hs : q.scope = p.scope) (hv : q.visits = p.visits) (he : q.errors = p.errors)
    (hr : q.reporter = p.reporter) : Misused p q [] :=
  ⟨hs, hv, by rw [he, List.append_nil], by rw [hr, List.map_nil, List.append_nil]⟩

theorem fail (p : Packer) (e : PackError) : Misused p (p.fail e) [e] :=
  ⟨rfl, rfl, rfl, Reporter.reports_error ..⟩

theorem trans (h : Misused p q es) (h' : Misused q r es') : Misused p r (es ++ es') where
  scope := h'.scope.trans h.scope
  visits := h'.visits.trans h.visits
  errors := by rw [h'.errors, h.errors, List.append_assoc]
  reports := by rw [h'.reports, h.reports, List.map_append, List.append_assoc]

theorem cycles (h : Misused p q es) : q.cycles = p.cycles := by
  have hes : (es.map PackError.report).filter (·.id = "CYCFND") = [] :=
    PackError.filter_map_report_eq_nil fun e _ => e.reportId_ne_cycle
  rw [Packer.cycles, Reporter.withId, h.reports, List.filter_append, hes, List.append_nil]
  rfl

end Misused

theorem Wrote.misused {l : List Bool} (h : Wrote p q l) : Misused p q [] :=
  .none (by rw [h.unchanged]) h.visits h.errors h.reporter

theorem PackCall.exists_misused {limit width : Nat} {e : PackError}
    (h : p.PackCall q limit width e) : ∃ es, Misused p q es := by
  by_cases hwidth : limit < width
  · rw [h.refused_iff.2 hwidth]
    exact ⟨_, .fail p e⟩
  · rw [(h.accepted_iff.2 (Nat.not_lt.1 hwidth)).rest]
    exact ⟨[], .none rfl rfl rfl rfl⟩

theorem exists_misused_packInts (p : Packer) (values : List Nat) (size : Nat) :
    ∃ es, Misused p (values.foldl (fun p v => p.packInt v size) p) es := by
  induction values generalizing p with
  | nil => exact ⟨[], .none rfl rfl rfl rfl⟩
  | cons v rest ih =>
    obtain ⟨es, h⟩ := (p.packCall_packInt v size).exists_misused
    obtain ⟨es', h'⟩ := ih (p.packInt v size)
    exact ⟨_, h.trans h'⟩

/-- All that packing data reports are misuses. -/
theorem exists_misused_packData (data : FieldData) (p : Packer) :
    ∃ es, Misused p (packData data p) es := by
  cases data with
  | int v size radix => exact (packCall_packInt ..).exists_misused
  | wide v size radix => exact (packCall_packWide ..).exists_misused
  | real x => exact ⟨_, (wrote_writeField ..).misused⟩
  | str text length => exact ⟨_, (wrote_packString ..).misused⟩
  | time t radix => exact ⟨_, (wrote_writeField ..).misused⟩
  | array kind values size radix => exact (packCall_packArray ..).exists_misused
  | elements values size radix => exact exists_misused_packInts ..
  | generic text typeName => exact ⟨[], .none rfl rfl rfl rfl⟩
  | child target => exact ⟨[], .none rfl rfl rfl rfl⟩
  | probe => exact ⟨[], .none rfl rfl rfl rfl⟩

theorem Consumed.exists_misused (h : Consumed p q) : ∃ es, Misused p q es := by
  obtain ⟨es, n, -, -, rfl⟩ := h
  exact ⟨es, rfl, rfl, rfl, rfl⟩

/-- All that unpacking data reports are misuses. -/
theorem exists_misused_unpackData (data : FieldData) (p : Packer) :
    ∃ es, Misused p (unpackData data p).2 es := by
  cases data with
  | int v size radix => exact (p.consumed_unpackInt size).exists_misused
  | wide v size radix => exact (p.consumed_unpackWide size).exists_misused
  | real x => exact p.consumed_unpackReal.exists_misused
  | str text length => exact (p.consumed_unpackString length).exists_misused
  | time t radix => exact (p.consumed_unpackInt 64).exists_misused
  | array kind values size radix => exact (p.consumed_unpackArray ..).exists_misused
  | elements values size radix => exact (p.consumed_unpackElements ..).exists_misused
  | generic text typeName => exact ⟨[], .none rfl rfl rfl rfl⟩
  | child target => exact ⟨[], .none rfl rfl rfl rfl⟩
  | probe => exact ⟨[], .none rfl rfl rfl rfl⟩

theorem exists_misused_unpackMarker (p : Packer) : ∃ es, Misused p p.unpackMarker.2 es :=
  p.consumed_unpackMarker.exists_misused

/-! ### Packing -/

/-- The report about an object that is refused. -/
def cycleReport (activity : String) (r : ObjectRef) : Report :=
  ⟨.warning, .none, "CYCFND", cycleMessage r activity⟩

theorem cycles_warning (p : Packer) (r : ObjectRef) (activity : String) :
    { p with reporter := p.reporter.warning "CYCFND" (cycleMessage r activity) }.cycles =
      p.cycles ++ [cycleReport activity r] := by
  simp [cycles, Reporter.withId, cycleReport]

/-- How an object that was entered is packed.  By reference it is left at once. -/
def packDescent (r : ObjectRef) (o : DataObject) (visits : VisitSet) (p : Packer) :
    Descent Packer Field :=
  if p.settings.policy = .reference then
    { items := []
      start := { p with visits }.packMarker false
      leave := fun q => { q with visits := q.visits.leave (instanceId r) } }
  else
    let entered := { p with visits }.packMarker true
    { items := o.fields
      start := { entered with scope := entered.scope.down o.name }
      leave := fun q => { q with scope := q.scope.up, visits := q.visits.leave (instanceId r) } }

/-- Packing the objects of a graph. -/
def packing (g : ObjectGraph) : Traversal Packer (Option ObjectRef) Field where
  visits := visits
  step f p :=
    if p.includes f then
      match f.data with
      | .child target => .call target
      | data => .own (packData data p)
    else .own p
  opening target p :=
    match g.resolve target with
    | none => .ended (p.packMarker false)
    | some (r, o) => .found r o p
  refuse r p :=
    { p with reporter := p.reporter.warning "CYCFND" (cycleMessage r "pack") }.packMarker false
  descent _ := packDescent

theorem stepBy_packing (g : ObjectGraph) (sub : Option ObjectRef → Packer → Option Packer)
    (f : Field) (p : Packer) : (packing g).stepBy sub f p = packField sub f p := by
  unfold Traversal.stepBy packField packing
  dsimp only
  cases p.includes f with
  | false => rfl
  | true => cases f.data <;> rfl

/-- A null mark does not depend on what is being visited. -/
theorem packMarker_visits (p : Packer) (visits : VisitSet) (follows : Bool) :
    { p with visits }.packMarker follows = { p.packMarker follows with visits } := by
  unfold packMarker
  split <;> rfl

theorem visits_packMarker (p : Packer) (follows : Bool) :
    (p.packMarker follows).visits = p.visits :=
  (wrote_packMarker p follows).visits

theorem cycles_packMarker (p : Packer) (follows : Bool) :
    (p.packMarker follows).cycles = p.cycles :=
  (wrote_packMarker p follows).misused.cycles

/-- The calls are those that pack an object. -/
theorem map_fst_packing (g : ObjectGraph) (fuel : Nat) (target : Option ObjectRef) (p : Packer) :
    ((packing g).visit fuel target p).map Prod.fst = packObject g fuel target p := by
  induction fuel generalizing target p with
  | zero => rfl
  | succ fuel ih =>
    rw [packObject]
    cases hres : g.resolve target with
    | none =>
      have ho : (packing g).opening target p = .ended (p.packMarker false) := by
        simp only [packing, hres]
      rw [Traversal.visit_ended ho]
      rfl
    | some found =>
      obtain ⟨r, o⟩ := found
      have ho : (packing g).opening target p = .found r o p := by simp only [packing, hres]
      dsimp only
      cases henter : p.visits.enter? (instanceId r) with
      | none =>
        rw [Traversal.visit_refused ho henter]
        rfl
      | some visits =>
        rw [Traversal.map_fst_visit_entered ih ho henter rfl]
        simp only [stepBy_packing]
        by_cases hp : p.settings.policy = .reference
        · simp only [packing, packDescent, if_pos hp, List.foldlM_nil, packMarker_visits]
          simp only [pure, Option.map_some, VisitSet.leave_of_enter? henter]
          rw [← packMarker_visits]
        · simp only [packing, packDescent, if_neg hp]
          exact Option.map_eq_bind

section Descent

variable (r : ObjectRef) (o : DataObject) (visits : VisitSet) (p : Packer)

theorem visits_start_packDescent : (packDescent r o visits p).start.visits = visits := by
  unfold packDescent
  split <;> exact visits_packMarker ..

theorem cycles_start_packDescent : (packDescent r o visits p).start.cycles = p.cycles := by
  unfold packDescent
  split <;> exact cycles_packMarker { p with visits } _

theorem visits_leave_packDescent (q : Packer) :
    ((packDescent r o visits p).leave q).visits = q.visits.leave (instanceId r) := by
  unfold packDescent
  split <;> rfl

theorem cycles_leave_packDescent (q : Packer) :
    ((packDescent r o visits p).leave q).cycles = q.cycles := by
  unfold packDescent
  split <;> rfl

end Descent

section Lawful

variable {g : ObjectGraph}

theorem Misused.alike_packing {es : List PackError} (h : Misused p q es) :
    (packing g).Alike (fun _ => g) Packer.cycles p q :=
  ⟨h.visits, rfl, h.cycles⟩

theorem lawful_packing (g : ObjectGraph) :
    (packing g).Lawful (fun _ => g) cycles (cycleReport "pack") where
  own := by
    intro f p q h
    simp only [packing] at h
    split at h
    · split at h
      · cases h
      · cases h
        obtain ⟨es, h⟩ := exists_misused_packData f.data p
        exact h.alike_packing
    · cases h
      exact ⟨rfl, rfl, rfl⟩
  ended := by
    intro target p q h
    simp only [packing] at h
    split at h
    · cases h
      exact (wrote_packMarker p false).misused.alike_packing
    · cases h
  found := by
    intro target p r o q h
    simp only [packing] at h
    split at h
    · cases h
    next hres =>
      cases h
      exact ⟨⟨rfl, rfl, rfl⟩, ObjectGraph.lt_size_of_object? (ObjectGraph.resolve_eq_some.1 hres).2⟩
  refuse := by
    intro r p
    refine ⟨visits_packMarker .., rfl, ?_⟩
    exact (cycles_packMarker ..).trans (cycles_warning ..)
  enter := by
    intro _ r o visits p
    refine ⟨visits_start_packDescent .., rfl, cycles_start_packDescent ..⟩
  leave := by
    intro _ r o visits p q
    exact ⟨visits_leave_packDescent .., rfl, cycles_leave_packDescent ..⟩

end Lawful

/-! ### Unpacking -/

/-- How an object that was entered is unpacked. -/
def unpackDescent (r : ObjectRef) (o : DataObject) (visits : VisitSet) (u : Unpacking) :
    Descent Unpacking (ObjectRef × Field × Nat) where
  items := o.fields.zipIdx.map (Prod.mk r)
  start := { u with packer := { u.packer with visits, scope := u.packer.scope.down o.name } }
  leave v :=
    { v with packer := { v.packer with
      scope := v.packer.scope.up, visits := v.packer.visits.leave (instanceId r) } }

/-- Unpacking the objects of a graph.  A hook goes through the fields of an object, each with its
place. -/
def unpacking : Traversal Unpacking (Option ObjectRef) (ObjectRef × Field × Nat) where
  visits u := u.packer.visits
  step item u :=
    let (r, f, index) := item
    if u.packer.includes f then
      match f.data with
      | .child target => .call target
      | data =>
        let (data, packer) := unpackData data u.packer
        .own { graph := u.graph.setData r index data, packer }
    else .own u
  opening target u :=
    let (follows, p) := u.packer.unpackMarker
    if follows && p.settings.policy ≠ .reference then
      match u.graph.resolve target with
      | none => .ended { u with packer := p.fail .nullObject }
      | some (r, o) => .found r o { u with packer := p }
    else .ended { u with packer := p }
  refuse r u :=
    { u with packer := { u.packer with
      reporter := u.packer.reporter.warning "CYCFND" (cycleMessage r "unpack") } }
  descent _ := unpackDescent

theorem stepBy_unpacking (sub : Option ObjectRef → Unpacking → Option Unpacking) (r : ObjectRef)
    (index : Nat) (f : Field) (u : Unpacking) :
    unpacking.stepBy sub (r, f, index) u = unpackField sub r index f u := by
  unfold Traversal.stepBy unpackField unpacking
  dsimp only
  cases u.packer.includes f with
  | false => rfl
  | true => cases f.data <;> rfl

theorem foldlM_unpacking (sub : Option ObjectRef → Unpacking → Option Unpacking) (r : ObjectRef)
    (index : Nat) (fields : List Field) (u : Unpacking) :
    ((fields.zipIdx index).map (Prod.mk r)).foldlM (fun u i => unpacking.stepBy sub i u) u =
      unpackFields sub r index fields u := by
  induction fields generalizing index u with
  | nil => rfl
  | cons f rest ih =>
    rw [List.zipIdx_cons, List.map_cons, List.foldlM_cons, stepBy_unpacking, unpackFields_cons]
    exact congrArg _ (funext fun v => ih (index + 1) v)

/-- The calls are those that unpack an object. -/
theorem map_fst_unpacking (fuel : Nat) (target : Option ObjectRef) (u : Unpacking) :
    (unpacking.visit fuel target u).map Prod.fst = unpackObject fuel target u := by
  induction fuel generalizing target u with
  | zero => rfl
  | succ fuel ih =>
    rw [unpackObject]
    dsimp only
    split
    case isFalse hf =>
      have ho : unpacking.opening target u =
          .ended { u with packer := u.packer.unpackMarker.2 } := by
        simp only [unpacking, if_neg hf]
      rw [Traversal.visit_ended ho]
      rfl
    case isTrue hf =>
      cases hres : u.graph.resolve target with
      | none =>
        have ho : unpacking.opening target u =
            .ended { u with packer := u.packer.unpackMarker.2.fail .nullObject } := by
          simp only [unpacking, if_pos hf, hres]
        rw [Traversal.visit_ended ho]
        rfl
      | some found =>
        obtain ⟨r, o⟩ := found
        have ho : unpacking.opening target u =
            .found r o { u with packer := u.packer.unpackMarker.2 } := by
          simp only [unpacking, if_pos hf, hres]
        dsimp only
        cases henter : u.packer.unpackMarker.2.visits.enter? (instanceId r) with
        | none =>
          rw [Traversal.visit_refused ho henter]
          rfl
        | some visits =>
          have hd : unpacking.descent target r o visits
              { u with packer := u.packer.unpackMarker.2 } = unpackDescent r o visits _ := rfl
          rw [Traversal.map_fst_visit_entered ih ho henter hd, unpackDescent, foldlM_unpacking]
          exact Option.map_eq_bind

theorem lawful_unpacking :
    unpacking.Lawful Unpacking.graph (fun u => u.packer.cycles) (cycleReport "unpack") where
  own := by
    rintro ⟨r, f, index⟩ u v h
    simp only [unpacking] at h
    split at h
    · split at h
      · cases h
      · cases h
        obtain ⟨es, h⟩ := exists_misused_unpackData f.data u.packer
        exact ⟨h.visits, ObjectGraph.size_setData .., h.cycles⟩
    · cases h
      exact ⟨rfl, rfl, rfl⟩
  ended := by
    intro target u v h
    obtain ⟨es, hm⟩ := exists_misused_unpackMarker u.packer
    simp only [unpacking] at h
    split at h
    · split at h
      · cases h
        have hf := hm.trans (.fail _ .nullObject)
        exact ⟨hf.visits, rfl, hf.cycles⟩
      · cases h
    · cases h
      exact ⟨hm.visits, rfl, hm.cycles⟩
  found := by
    intro target u r o v h
    obtain ⟨es, hm⟩ := exists_misused_unpackMarker u.packer
    simp only [unpacking] at h
    split at h
    · split at h
      · cases h
      next hres =>
        cases h
        exact ⟨⟨hm.visits, rfl, hm.cycles⟩,
          ObjectGraph.lt_size_of_object? (ObjectGraph.resolve_eq_some.1 hres).2⟩
    · cases h
  refuse r u := ⟨rfl, rfl, cycles_warning u.packer r "unpack"⟩
  enter _ _ _ _ _ := ⟨rfl, rfl, rfl⟩
  leave _ _ _ _ _ _ := ⟨rfl, rfl, rfl⟩

end Packer

end FieldAutomation
