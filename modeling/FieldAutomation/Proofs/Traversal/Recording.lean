import FieldAutomation.Proofs.Traversal
import FieldAutomation.Recording.Objects

/-!
# Recording as a traversal

A hook that records makes a call, under a name, at a field that refers to an object.  The call
records the instance id and then asks the visit set.  All other fields are recorded without asking.

* `Recording.Onward`: a recorder that has gone on in the same object;
* `Recording.recording`: the traversal.

Main statements: the equations of a call, `Recording.recordObject_of_null` to
`Recording.recordObject_of_entered`; `Recording.map_fst_recording` (this is recording, with a
history) and `Recording.lawful_recording`.
-/

namespace FieldAutomation

open ObjectGraph (instanceId)

namespace Recording

variable {s t u : Recording}

/-- The reports about cycles. -/
def cycles (s : Recording) : List Report := s.recorder.reporter.withId "CYCFND"

/-- The warning about an object that is refused. -/
def cycleReport (r : ObjectRef) : Report :=
  ⟨.warning, .none, "CYCFND",
    "Cycle detected for object @" ++ toString (instanceId r) ++ " during record"⟩

theorem cycles_report_cycleReport (s : Recording) (r : ObjectRef) :
    (s.report (cycleReport r)).cycles = s.cycles ++ [cycleReport r] := by
  simp [cycles, report, cycleReport, Reporter.withId, Reporter.report, Reporter.accepts]

/-! ### Fields of their own -/

/-- `t` is `s` further on in the same object: of the recorder itself nothing has changed but where
it is, and what probes noted. -/
structure Onward (s t : Recording) : Prop where
  recorder : t.recorder = { s.recorder with scope := t.recorder.scope, notes := t.recorder.notes }

namespace Onward

theorem refl (s : Recording) : Onward s s := ⟨rfl⟩

theorem trans (h : Onward s t) (h' : Onward t u) : Onward s u := by
  refine ⟨?_⟩
  rw [h'.recorder, h.recorder]

theorem visits (h : Onward s t) : t.recorder.visits = s.recorder.visits := by
  rw [h.recorder]

theorem cycles (h : Onward s t) : t.cycles = s.cycles := by
  rw [Recording.cycles, Recording.cycles, h.recorder]

end Onward

theorem recorder_deliver (s : Recording) (e : TraceEvent) :
    (s.deliver e).recorder = s.recorder := by
  unfold deliver
  split <;> rfl

theorem onward_emit (s : Recording) (name value : String) (radix : Radix) (bits : Nat)
    (typeName : Option String) : Onward s (s.emit name value radix bits typeName) := by
  unfold emit
  split
  · exact .refl s
  · refine ⟨?_⟩
    dsimp only
    rw [recorder_deliver]
    rfl

theorem onward_moveScope (s : Recording) (m : Scope.Move) : Onward s (s.moveScope m) := ⟨rfl⟩

theorem onward_recordWords (name : String) (radix : Radix) (index : Nat) (values : List Nat)
    (s : Recording) : Onward s (recordWords name radix index values s) := by
  induction values generalizing index s with
  | nil => exact .refl s
  | cons v rest ih => exact (onward_emit ..).trans (ih ..)

theorem onward_recordElements (size : Nat) (radix : Radix) (index : Nat) (values : List Nat)
    (s : Recording) : Onward s (recordElements size radix index values s) := by
  induction values generalizing index s with
  | nil => exact .refl s
  | cons v rest ih =>
    exact (onward_moveScope ..).trans
      ((onward_emit ..).trans ((onward_moveScope ..).trans (ih ..)))

/-- Records a field that refers to no object. -/
def recordData (f : Field) (s : Recording) : Recording :=
  (recordField (fun _ _ => some) f s).getD s

theorem onward_recordData (f : Field) (s : Recording) : Onward s (recordData f s) := by
  unfold recordData recordField
  split
  · cases hd : f.data with
    | array kind values size radix =>
      cases kind with
      | bytes => exact onward_emit ..
      | words => exact onward_recordWords ..
    | elements values size radix =>
      exact (onward_moveScope ..).trans ((onward_recordElements ..).trans (onward_moveScope ..))
    | child target => exact .refl s
    | probe => exact ⟨rfl⟩
    | int v size radix => exact onward_emit ..
    | wide v size radix => exact onward_emit ..
    | real x => exact onward_emit ..
    | str text length => exact onward_emit ..
    | time t radix => exact onward_emit ..
    | generic text typeName => exact onward_emit ..
  · exact .refl s

/-! ### Recording -/

/-- The instance id of an object that is referred to, if ids are recorded. -/
def recordId (g : ObjectGraph) (name : String) (target : Option ObjectRef) (s : Recording) :
    Recording :=
  if s.recorder.settings.identifier then
    s.recordNumber name ((g.resolve target).elim 0 fun found => instanceId found.1) 32 .dec
  else s

theorem onward_recordId (g : ObjectGraph) (name : String) (target : Option ObjectRef)
    (s : Recording) : Onward s (recordId g name target s) := by
  unfold recordId
  split
  · exact onward_emit ..
  · exact .refl s

section Equations

variable {g : ObjectGraph} {fuel : Nat} {name : String} {target : Option ObjectRef}
  {r : ObjectRef} {o : DataObject}

theorem recordObject_of_null (hb : s.recorder.backend ≠ none) (hres : g.resolve target = none) :
    recordObject g (fuel + 1) name target s = some (recordId g name target s) := by
  simp only [recordObject, if_neg hb, recordId, hres]

theorem recordObject_of_reference (hb : s.recorder.backend ≠ none)
    (hres : g.resolve target = some (r, o))
    (hp : (recordId g name target s).recorder.settings.policy = .reference) :
    recordObject g (fuel + 1) name target s = some (recordId g name target s) := by
  simp only [recordId, hres] at hp ⊢
  simp only [recordObject, if_neg hb, hres, if_pos hp]

theorem recordObject_of_refused (hb : s.recorder.backend ≠ none)
    (hres : g.resolve target = some (r, o))
    (hp : (recordId g name target s).recorder.settings.policy ≠ .reference)
    (he : (recordId g name target s).recorder.visits.enter? (instanceId r) = none) :
    recordObject g (fuel + 1) name target s =
      some ((recordId g name target s).report (cycleReport r)) := by
  simp only [recordId, hres] at hp he ⊢
  simp only [recordObject, if_neg hb, hres, if_neg hp, he, cycleReport]

end Equations

/-- The recorder where the hook of an object starts. -/
def deeper (s : Recording) : Recording :=
  { s with recorder := { s.recorder with depth := s.recorder.depth + 1 } }

/-- The recorder where the hook of an object has ended. -/
def shallower (s : Recording) : Recording :=
  { s with recorder := { s.recorder with depth := s.recorder.depth - 1 } }

theorem recordBody_eq (sub : String → Option ObjectRef → Recording → Option Recording)
    (o : DataObject) (s : Recording) :
    recordBody sub o s = (recordFields sub o.fields s.deeper).map shallower :=
  Option.map_eq_bind.symm

/-- How an object that was entered is recorded, under a name. -/
def recordDescent (name : String) (r : ObjectRef) (o : DataObject) (visits : VisitSet)
    (s : Recording) : Descent Recording Field where
  items := o.fields
  start := ({ s with recorder := { s.recorder with visits } }.moveScope (.down name)).deeper
  leave t :=
    let left := t.shallower.moveScope .up
    { left with
      recorder := { left.recorder with visits := left.recorder.visits.leave (instanceId r) } }

theorem recordObject_of_entered {g : ObjectGraph} {fuel : Nat} {name : String}
    {target : Option ObjectRef} {r : ObjectRef} {o : DataObject} {visits : VisitSet}
    (hb : s.recorder.backend ≠ none) (hres : g.resolve target = some (r, o))
    (hp : (recordId g name target s).recorder.settings.policy ≠ .reference)
    (he : (recordId g name target s).recorder.visits.enter? (instanceId r) = some visits) :
    recordObject g (fuel + 1) name target s =
      (recordFields (recordObject g fuel) o.fields
        (recordDescent name r o visits (recordId g name target s)).start).map
        (recordDescent name r o visits (recordId g name target s)).leave := by
  simp only [recordId, hres] at hp he ⊢
  simp only [recordObject, if_neg hb, hres, if_neg hp, he, recordBody]
  rw [Option.map_eq_bind]
  exact Option.bind_assoc ..

/-- Recording the objects of a graph, each under a name. -/
def recording (g : ObjectGraph) : Traversal Recording (String × Option ObjectRef) Field where
  visits s := s.recorder.visits
  step f s :=
    match f.data with
    | .child target => if s.includes f then .call (f.name, target) else .own s
    | _ => .own (recordData f s)
  opening call s :=
    let (name, target) := call
    if s.recorder.backend = none then .ended s
    else
      let s := recordId g name target s
      match g.resolve target with
      | none => .ended s
      | some (r, o) => if s.recorder.settings.policy = .reference then .ended s else .found r o s
  refuse r s := s.report (cycleReport r)
  descent call := recordDescent call.1

theorem stepBy_recording (g : ObjectGraph)
    (sub : String × Option ObjectRef → Recording → Option Recording) (f : Field) (s : Recording) :
    (recording g).stepBy sub f s = recordField (fun name target => sub (name, target)) f s := by
  unfold Traversal.stepBy recording recordData recordField
  dsimp only
  cases hi : s.includes f with
  | false => cases f.data <;> rfl
  | true =>
    cases f.data with
    | array kind values size radix => cases kind <;> rfl
    | _ => rfl

theorem foldlM_recording (g : ObjectGraph)
    (sub : String × Option ObjectRef → Recording → Option Recording) (fields : List Field)
    (s : Recording) :
    fields.foldlM (fun s f => (recording g).stepBy sub f s) s =
      recordFields (fun name target => sub (name, target)) fields s := by
  induction fields generalizing s with
  | nil => rfl
  | cons f rest ih =>
    rw [List.foldlM_cons, stepBy_recording, recordFields_cons]
    exact congrArg _ (funext ih)

/-- The calls are those that record an object. -/
theorem map_fst_recording (g : ObjectGraph) (fuel : Nat) (call : String × Option ObjectRef)
    (s : Recording) :
    ((recording g).visit fuel call s).map Prod.fst = recordObject g fuel call.1 call.2 s := by
  induction fuel generalizing call s with
  | zero => rfl
  | succ fuel ih =>
    obtain ⟨name, target⟩ := call
    by_cases hb : s.recorder.backend = none
    · have ho : (recording g).opening (name, target) s = .ended s := by
        simp only [recording, if_pos hb]
      rw [Traversal.visit_ended ho, recordObject, if_pos hb]
      rfl
    cases hres : g.resolve target with
    | none =>
      have ho : (recording g).opening (name, target) s = .ended (recordId g name target s) := by
        simp only [recording, if_neg hb, hres]
      rw [Traversal.visit_ended ho, recordObject_of_null hb hres]
      rfl
    | some found =>
      obtain ⟨r, o⟩ := found
      by_cases hp : (recordId g name target s).recorder.settings.policy = .reference
      · have ho : (recording g).opening (name, target) s = .ended (recordId g name target s) := by
          simp only [recording, if_neg hb, hres, if_pos hp]
        rw [Traversal.visit_ended ho, recordObject_of_reference hb hres hp]
        rfl
      have ho : (recording g).opening (name, target) s = .found r o (recordId g name target s) := by
        simp only [recording, if_neg hb, hres, if_neg hp]
      cases he : (recordId g name target s).recorder.visits.enter? (instanceId r) with
      | none =>
        rw [Traversal.visit_refused ho he, recordObject_of_refused hb hres hp he]
        rfl
      | some visits =>
        have hd : (recording g).descent (name, target) r o visits (recordId g name target s) =
            recordDescent name r o visits (recordId g name target s) := rfl
        rw [Traversal.map_fst_visit_entered (fun c t => ih c t) ho he hd, foldlM_recording,
          recordObject_of_entered hb hres hp he]
        rfl

theorem Onward.alike {g : ObjectGraph} (h : Onward s t) :
    (recording g).Alike (fun _ => g) Recording.cycles s t :=
  ⟨h.visits, rfl, h.cycles⟩

theorem lawful_recording (g : ObjectGraph) :
    (recording g).Lawful (fun _ => g) cycles cycleReport where
  own := by
    intro f s t h
    simp only [recording] at h
    split at h
    · split at h
      · cases h
      · cases h
        exact (Onward.refl s).alike
    · cases h
      exact (onward_recordData f s).alike
  ended := by
    rintro ⟨name, target⟩ s t h
    simp only [recording] at h
    split at h
    · cases h
      exact (Onward.refl s).alike
    split at h
    · cases h
      exact (onward_recordId g name target s).alike
    split at h
    · cases h
      exact (onward_recordId g name target s).alike
    · cases h
  found := by
    rintro ⟨name, target⟩ s r o t h
    simp only [recording] at h
    split at h
    · cases h
    split at h
    · cases h
    next hres =>
      split at h
      · cases h
      · cases h
        exact ⟨(onward_recordId g name target s).alike,
          ObjectGraph.lt_size_of_object? (ObjectGraph.resolve_eq_some.1 hres).2⟩
  refuse r s := ⟨rfl, rfl, cycles_report_cycleReport s r⟩
  enter _ _ _ _ _ := ⟨rfl, rfl, rfl⟩
  leave _ _ _ _ _ _ := ⟨rfl, rfl, rfl⟩

end Recording

end FieldAutomation
