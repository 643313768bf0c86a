import FieldAutomation.Copying
import FieldAutomation.Proofs.Traversal

/-!
# Copying as a traversal

A hook that copies goes through the fields of the source.  It makes a call where a field refers to
an object and the field of the target does so too.  The visit set has the sources.

* `Copying.callFor?`: where a call is made;
* `Copying.copying`: the traversal, whose items are `Copying.Errand`s.

Main statements: `Copying.map_fst_copying` (this is copying, with a history) and
`Copying.lawful_copying`.
-/

namespace FieldAutomation

open ObjectGraph (instanceId)

namespace Copying

/-- The log entries about cycles. -/
def cycles (s : Copying) : List LogEntry :=
  s.log.filter fun e => ("id", "CYCCPY") ∈ e.attributes

/-- The log entry about a source that is refused. -/
def cycleEntry (r : ObjectRef) : LogEntry :=
  ⟨.warn, "Cycle detected during copy; object skipped",
    [("id", "CYCCPY"), ("inst_id", toString (instanceId r))]⟩

theorem cycles_logCycle (s : Copying) (r : ObjectRef) :
    (s.logCycle r).cycles = s.cycles ++ [cycleEntry r] := by
  simp [cycles, logCycle, cycleEntry]

theorem cycles_logNull (s : Copying) : s.logNull.cycles = s.cycles := by
  simp [cycles, logNull]

/-- The call that is made where a field is copied onto another: both refer to objects, and the
target to one that is there. -/
def callFor? : Option FieldData → FieldData → Option (ObjectRef × Option ObjectRef)
  | some (.child (some t)), .child c => some (t, c)
  | _, _ => none

/-- No call is made where the target does not refer to an object. -/
theorem callFor?_eq_none {d : FieldData} (h : ∀ t, d ≠ .child (some t)) (source : FieldData) :
    callFor? (some d) source = none := by
  unfold callFor?
  split
  next hd => exact absurd (Option.some.inj hd) (h _)
  next => rfl

/-- Copies a field where no call is made. -/
def copyOwn (target : ObjectRef) (sourceName : String) (index : Nat) (source : Field)
    (s : Copying) : Copying :=
  (copyField (fun _ _ => some) target sourceName index source s).getD s

section Fields

variable {s : Copying} {target : ObjectRef} {sourceName : String} {index : Nat} {source : Field}
  {sub : ObjectRef → Option ObjectRef → Copying → Option Copying}

theorem copyField_of_callFor?_eq_some {t : ObjectRef} {c : Option ObjectRef}
    (h : callFor? (s.graph.data? target index) source.data = some (t, c)) :
    copyField sub target sourceName index source s = sub t c s := by
  unfold callFor? at h
  split at h
  next ht hs =>
    cases h
    simp only [copyField, ht, hs]
  next => cases h

theorem copyField_of_callFor?_eq_none
    (h : callFor? (s.graph.data? target index) source.data = none) :
    copyField sub target sourceName index source s =
      some (copyOwn target sourceName index source s) := by
  unfold copyOwn copyField
  split
  case h_2 ht hs =>
    rw [ht, hs] at h
    cases h
  all_goals rfl

/-- Where no call is made, a copy touches one field, and notes what a probe says. -/
theorem copyOwn_eq (target : ObjectRef) (sourceName : String) (index : Nat) (source : Field)
    (s : Copying) : ∃ graph notes, copyOwn target sourceName index source s =
      { s with graph, notes } ∧ graph.size = s.graph.size := by
  unfold copyOwn copyField
  split
  · exact ⟨_, _, rfl, rfl⟩
  · exact ⟨_, _, rfl, rfl⟩
  · exact ⟨_, _, rfl, ObjectGraph.size_setData ..⟩
  · exact ⟨_, _, rfl, rfl⟩
  · exact ⟨_, _, rfl, ObjectGraph.size_setData ..⟩

end Fields

/-- A field of a source, and the field of a target that it is copied onto. -/
structure Errand where
  target : ObjectRef
  sourceName : String
  index : Nat
  source : Field

/-- The fields of a source, from the one at `index` on. -/
def errands (target : ObjectRef) (sourceName : String) : Nat → List Field → List Errand
  | _, [] => []
  | index, f :: rest => ⟨target, sourceName, index, f⟩ :: errands target sourceName (index + 1) rest

/-- How a source that was entered is copied onto a target. -/
def copyDescent (target r : ObjectRef) (o : DataObject) (visits : VisitSet) (s : Copying) :
    Descent Copying Errand where
  items := errands target o.name 0 o.fields
  start := { s with visits }
  leave t := { t with visits := t.visits.leave (instanceId r) }

/-- Copying the objects of a graph. -/
def copying : Traversal Copying (ObjectRef × Option ObjectRef) Errand where
  visits := visits
  step e s :=
    match callFor? (s.graph.data? e.target e.index) e.source.data with
    | some call => .call call
    | none => .own (copyOwn e.target e.sourceName e.index e.source s)
  opening call s :=
    let (target, source) := call
    match s.graph.resolve source with
    | none => .ended s.logNull
    | some (r, o) => if target = r then .ended s else .found r o s
  refuse r s := s.logCycle r
  descent call := copyDescent call.1

theorem stepBy_copying (sub : ObjectRef × Option ObjectRef → Copying → Option Copying)
    (e : Errand) (s : Copying) :
    copying.stepBy sub e s =
      copyField (fun target source => sub (target, source)) e.target e.sourceName e.index e.source
        s := by
  unfold Traversal.stepBy copying
  dsimp only
  cases h : callFor? (s.graph.data? e.target e.index) e.source.data with
  | some call => rw [copyField_of_callFor?_eq_some h]
  | none => rw [copyField_of_callFor?_eq_none h]

theorem foldlM_copying (sub : ObjectRef × Option ObjectRef → Copying → Option Copying)
    (target : ObjectRef) (sourceName : String) (index : Nat) (fields : List Field) (s : Copying) :
    (errands target sourceName index fields).foldlM (fun s e => copying.stepBy sub e s) s =
      copyFields (fun target source => sub (target, source)) target sourceName index fields s := by
  induction fields generalizing index s with
  | nil => rfl
  | cons f rest ih =>
    rw [errands, List.foldlM_cons, stepBy_copying, copyFields_cons]
    exact congrArg _ (funext fun t => ih (index + 1) t)

/-- The calls are copies. -/
theorem map_fst_copying (fuel : Nat) (call : ObjectRef × Option ObjectRef) (s : Copying) :
    (copying.visit fuel call s).map Prod.fst = copyWithin fuel call.1 call.2 s := by
  induction fuel generalizing call s with
  | zero => rfl
  | succ fuel ih =>
    obtain ⟨target, source⟩ := call
    rw [copyWithin]
    cases hres : s.graph.resolve source with
    | none =>
      have ho : copying.opening (target, source) s = .ended s.logNull := by
        simp only [copying, hres]
      rw [Traversal.visit_ended ho]
      rfl
    | some found =>
      obtain ⟨r, o⟩ := found
      dsimp only
      by_cases hr : target = r
      · have ho : copying.opening (target, source) s = .ended s := by
          simp only [copying, hres, if_pos hr]
        rw [Traversal.visit_ended ho, if_pos hr]
        rfl
      have ho : copying.opening (target, source) s = .found r o s := by
        simp only [copying, hres, if_neg hr]
      rw [if_neg hr]
      cases he : s.visits.enter? (instanceId r) with
      | none =>
        rw [Traversal.visit_refused ho he]
        rfl
      | some visits =>
        have hd : copying.descent (target, source) r o visits s =
            copyDescent target r o visits s := rfl
        rw [Traversal.map_fst_visit_entered (fun c t => ih c t) ho he hd, copyDescent,
          foldlM_copying]
        exact Option.map_eq_bind

theorem lawful_copying : copying.Lawful graph cycles cycleEntry where
  own := by
    intro e s t h
    simp only [copying] at h
    split at h
    · cases h
    · cases h
      obtain ⟨graph, notes, heq, hsize⟩ :=
        copyOwn_eq e.target e.sourceName e.index e.source s
      rw [heq]
      exact ⟨rfl, hsize, rfl⟩
  ended := by
    rintro ⟨target, source⟩ s t h
    simp only [copying] at h
    split at h
    · cases h
      exact ⟨rfl, rfl, cycles_logNull s⟩
    split at h
    · cases h
      exact ⟨rfl, rfl, rfl⟩
    · cases h
  found := by
    rintro ⟨target, source⟩ s r o t h
    simp only [copying] at h
    split at h
    · cases h
    next hres =>
      split at h
      · cases h
      · cases h
        exact ⟨⟨rfl, rfl, rfl⟩,
          ObjectGraph.lt_size_of_object? (ObjectGraph.resolve_eq_some.1 hres).2⟩
  refuse r s := ⟨rfl, rfl, cycles_logCycle s r⟩
  enter _ _ _ _ _ := ⟨rfl, rfl, rfl⟩
  leave _ _ _ _ _ _ := ⟨rfl, rfl, rfl⟩

/-- Copies end. -/
theorem copyWithin_eq_copy (target : ObjectRef) (source : Option ObjectRef) (s : Copying) :
    copyWithin (s.graph.size + 1) target source s = some (copy target source s) := by
  obtain ⟨t, h, ht, -⟩ := Traversal.exists_visit lawful_copying (s.graph.size + 1)
    (target, source) (s.graph.unvisited_lt_depthBound _)
  have hc := congrArg (Option.map Prod.fst) ht
  rw [map_fst_copying] at hc
  rw [copy, hc]
  rfl

end Copying

end FieldAutomation
