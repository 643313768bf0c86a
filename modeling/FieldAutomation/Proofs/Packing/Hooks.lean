import FieldAutomation.Proofs.Packing.RoundTrip

/-!
# Unpack hooks

An object is unpacked by its hook.  What is true of unpacking whatever the hooks do is proved of all
hooks that are made of the operations of a packer, in any order.  A hook may act on what it has read
so far, and change the objects as it likes.

Along with what a hook comes to, a run gives the packers that it passes on the way.  A hook may ask
for an array or a text of any length, also one that it has read.  Where that is more than any memory
holds, the run stops.

* `UnpackOp`: an operation; `UnpackOp.perform?`: what it reads;
* `UnpackHook`: a hook; `UnpackHook.run`: what it does; `UnpackHook.visit`: what is done around it;
* `Packer.unpackBy`, `ObjectGraph.unpackBy`: objects unpacked by given hooks;
* `ObjectGraph.unpackHook`: the hook that unpacks objects field by field;
* `ObjectGraph.IsCounted`: its fields ask for no more than can be counted.

Main statement: `ObjectGraph.unpackBy_unpackHook` (unpacking by fields is a special case).
-/

namespace FieldAutomation

open ObjectGraph (instanceId)
open Packer (Unpacking)

/-- An operation that reads anything but an object. -/
inductive UnpackOp : Type → Type where
  | int (size : Nat) : UnpackOp Nat
  | wide (size : Nat) : UnpackOp Nat
  | array (kind : ArrayKind) (count : Nat) (size : Option Nat) : UnpackOp (List Nat)
  | string (length : Option Nat) : UnpackOp String
  | time : UnpackOp Nat
  | real : UnpackOp Binary64
  /-- Asks whether so many bits can still be read, which is a misuse if they cannot. -/
  | ask (needed : Nat) (what : String) : UnpackOp Bool

/-- What an operation reads. -/
def UnpackOp.perform {α : Type} (p : Packer) : UnpackOp α → α × Packer
  | int size => p.unpackInt size
  | wide size => p.unpackWide size
  | array kind count size => p.unpackArray kind count size
  | string length => p.unpackString length
  | time => p.unpackTime
  | real => p.unpackReal
  | ask needed what => p.enoughBits needed what

/-- The bits of the array or the text of a given length that an operation asks for. -/
def UnpackOp.requested {α : Type} : UnpackOp α → Nat
  | array kind count _ => count * kind.unit
  | string (some length) => 8 * length
  | _ => 0

/-! ### Runs -/

/-- Why a part of unpacking does not come to its end. -/
inductive UnpackStop where
  /-- There are more levels than were allowed for. -/
  | depth
  /-- So many bits are asked for that they cannot be counted. -/
  | uncounted (bits : Nat)
  deriving DecidableEq

/-- What an operation reads, if there may be memory for it. -/
def UnpackOp.perform? {α : Type} (p : Packer) (op : UnpackOp α) : Except UnpackStop (α × Packer) :=
  if op.requested < UInt64.size then .ok (op.perform p) else .error (.uncounted op.requested)

/-- What a part of unpacking comes to, and the packers that it passes, oldest first. -/
abbrev UnpackRun := Unpacking × List Packer

namespace UnpackRun

/-- A step of the packer. -/
def step (u : Unpacking) (p : Packer) : Except UnpackStop UnpackRun :=
  .ok ({ u with packer := p }, [p])

/-- One part after another. -/
def andThen (run : Except UnpackStop UnpackRun) (next : Unpacking → Except UnpackStop UnpackRun) :
    Except UnpackStop UnpackRun :=
  run.bind fun (u, passed) => (next u).map fun (v, passed') => (v, passed ++ passed')

/-- What a run comes to. -/
def outcome? : Except UnpackStop UnpackRun → Option Unpacking
  | .ok (u, _) => some u
  | .error _ => none

variable {run : Except UnpackStop UnpackRun} {next : Unpacking → Except UnpackStop UnpackRun}

theorem andThen_of_eq_ok {u v : Unpacking} {passed passed' : List Packer}
    (h : run = .ok (u, passed)) (hnext : next u = .ok (v, passed')) :
    andThen run next = .ok (v, passed ++ passed') := by
  subst h
  exact congrArg (Except.map _) hnext

theorem andThen_of_eq_error {u : Unpacking} {passed : List Packer} {stop : UnpackStop}
    (h : run = .ok (u, passed)) (hnext : next u = .error stop) :
    andThen run next = .error stop := by
  subst h
  exact congrArg (Except.map _) hnext

@[simp] theorem outcome?_step (u : Unpacking) (p : Packer) :
    outcome? (step u p) = some { u with packer := p } := rfl

/-- What a run comes to does not depend on what it passes. -/
@[simp] theorem outcome?_andThen :
    outcome? (andThen run next) = (outcome? run).bind fun u => outcome? (next u) := by
  cases run with
  | error stop => rfl
  | ok out =>
    obtain ⟨u, passed⟩ := out
    cases h : next u with
    | error stop =>
      rw [andThen_of_eq_error rfl h, outcome?, outcome?, Option.bind_some, h, outcome?]
    | ok out => rw [andThen_of_eq_ok rfl h, outcome?, outcome?, Option.bind_some, h, outcome?]

end UnpackRun

open UnpackRun (step andThen outcome? outcome?_step outcome?_andThen)

/-- An unpack hook: what is done, step by step. -/
inductive UnpackHook where
  | done
  /-- Looks at the objects and at the packer. -/
  | look (next : Unpacking → UnpackHook)
  /-- Changes an object. -/
  | change (r : ObjectRef) (f : DataObject → DataObject) (next : UnpackHook)
  | unpack {α : Type} (op : UnpackOp α) (next : α → UnpackHook)
  | object (target : Option ObjectRef) (next : UnpackHook)
  /-- Notes the state of the packer. -/
  | note (next : UnpackHook)

/-- Changes the object at a place. -/
def ObjectGraph.modify (g : ObjectGraph) (r : ObjectRef) (f : DataObject → DataObject) :
    ObjectGraph :=
  ⟨g.objects.modify r f⟩

@[simp] theorem ObjectGraph.size_modify (g : ObjectGraph) (r : ObjectRef)
    (f : DataObject → DataObject) : (g.modify r f).size = g.size := by
  simp [modify, size]

namespace UnpackHook

/-- What a hook does.  `sub` unpacks an object. -/
def run (sub : Option ObjectRef → Unpacking → Except UnpackStop UnpackRun) :
    UnpackHook → Unpacking → Except UnpackStop UnpackRun
  | done, u => .ok (u, [])
  | look next, u => (next u).run sub u
  | change r f next, u => next.run sub { u with graph := u.graph.modify r f }
  | unpack op next, u => do
    let (a, p) ← op.perform? u.packer
    andThen (step u p) ((next a).run sub)
  | object target next, u => andThen (sub target u) (next.run sub)
  | note next, u =>
    let p := u.packer
    andThen (step u { p with
      notes := p.notes ++ [.unpacking p.scope.path p.cursor p.visits.size p.atNull] })
      (next.run sub)

theorem run_unpack_of_lt {sub : Option ObjectRef → Unpacking → Except UnpackStop UnpackRun}
    {α : Type} {op : UnpackOp α} (h : op.requested < UInt64.size) (next : α → UnpackHook)
    (u : Unpacking) :
    (unpack op next).run sub u =
      andThen (step u (op.perform u.packer).2) ((next (op.perform u.packer).1).run sub) := by
  rw [run, UnpackOp.perform?, if_pos h]
  rfl

theorem run_unpack_of_le {sub : Option ObjectRef → Unpacking → Except UnpackStop UnpackRun}
    {α : Type} {op : UnpackOp α} (h : UInt64.size ≤ op.requested) (next : α → UnpackHook)
    (u : Unpacking) :
    (unpack op next).run sub u = .error (.uncounted op.requested) := by
  rw [run, UnpackOp.perform?, if_neg (Nat.not_lt.2 h)]
  rfl

/-- Visits an object by its hook, under its name and among the objects `entered`. -/
def visit (sub : Option ObjectRef → Unpacking → Except UnpackStop UnpackRun) (hook : UnpackHook)
    (name : String) (entered : VisitSet) (leave : VisitSet → VisitSet) (u : Unpacking) :
    Except UnpackStop UnpackRun :=
  let p := u.packer
  andThen (step u { p with visits := entered, scope := p.scope.down name }) fun u =>
    andThen (hook.run sub u) fun v =>
      let q := v.packer
      step v { q with scope := q.scope.up, visits := leave q.visits }

end UnpackHook

namespace Packer

/-- Unpacks an object by the given hooks, at a depth of at most `fuel`. -/
def unpackBy (hooks : ObjectRef → UnpackHook) :
    Nat → Option ObjectRef → Unpacking → Except UnpackStop UnpackRun
  | 0, _, _ => .error .depth
  | fuel + 1, target, u =>
    let (follows, p) := u.packer.unpackMarker
    andThen (step u p) fun u =>
      if follows && p.settings.policy ≠ .reference then
        match u.graph.resolve target with
        | none => step u (p.fail .nullObject)
        | some (r, o) =>
          match p.visits.enter? (instanceId r) with
          | none =>
            let reporter := p.reporter.warning "CYCFND" (cycleMessage r "unpack")
            step u { p with reporter }
          | some visits =>
            (hooks r).visit (unpackBy hooks fuel) o.name visits (·.leave (instanceId r)) u
      else .ok (u, [])

end Packer

namespace ObjectGraph

/-- Unpacks an object by the given hooks from the stream that is loaded, at a depth of at most
`fuel`. -/
def unpackLoadedBy (hooks : ObjectRef → UnpackHook) (fuel : Nat) (r : ObjectRef)
    (u : Unpacking) : Except UnpackStop UnpackRun :=
  match u.graph.object? r with
  | none => .ok (u, [])
  | some o =>
    let start := u.packer.visits
    (hooks r).visit (Packer.unpackBy hooks fuel) o.name
      ((start.enter? (instanceId r)).getD start)
      (fun after => if start.contains (instanceId r) then after else after.leave (instanceId r)) u

/-- Unpacks an object by the given hooks, and gives the packers that are passed as well. -/
def unpackBy (g : ObjectGraph) (hooks : ObjectRef → UnpackHook) (r : ObjectRef)
    (load : Packer → Packer) (p : Packer) :
    Except UnpackStop ((Except PackError Nat × ObjectGraph × Packer) × List Packer) :=
  let loaded := load p.reset
  (unpackLoadedBy hooks g.depthBound r ⟨g, loaded⟩).map fun (u, passed) =>
    let (outcome, q) := unpackOutcome loaded.size u.packer
    ((outcome, u.graph, q), passed)

end ObjectGraph

/-! ### The hook of the fields -/

namespace UnpackHook

/-- Numbers of `size` bits. -/
def ofElements (size : Nat) : Nat → (List Nat → UnpackHook) → UnpackHook
  | 0, next => next []
  | count + 1, next =>
    .unpack (.int size) fun v => ofElements size count fun rest => next (v :: rest)

/-- The data of a field that refers to no object. -/
def ofData (data : FieldData) (next : FieldData → UnpackHook) : UnpackHook :=
  match data with
  | .int _ size radix => .unpack (.int size) fun v => next (.int v size radix)
  | .wide _ size radix => .unpack (.wide size) fun v => next (.wide v size radix)
  | .real _ => .unpack .real fun x => next (.real x)
  | .str _ length => .unpack (.string length) fun text => next (.str text length)
  | .time _ radix => .unpack .time fun t => next (.time t radix)
  | .array kind values size radix =>
    .unpack (.array kind values.length size) fun values => next (.array kind values size radix)
  | .elements values size radix =>
    ofElements size values.length fun values => next (.elements values size radix)
  | .probe => .note (next .probe)
  | .generic .. | .child _ => next data

/-- The field at `index` of an object. -/
def ofField (r : ObjectRef) (index : Nat) (f : Field) (next : UnpackHook) : UnpackHook :=
  .look fun u =>
    if u.packer.includes f then
      match f.data with
      | .child target => .object target next
      | data =>
        ofData data fun data =>
          .change r
            (·.mapFields fun fields => fields.modify index fun f => { f with data }) next
    else next

/-- The fields of an object in order, from the one at `index` on. -/
def ofFields (r : ObjectRef) : Nat → List Field → UnpackHook
  | _, [] => done
  | index, f :: rest => ofField r index f (ofFields r (index + 1) rest)

end UnpackHook

/-- The hook that unpacks objects field by field. -/
def ObjectGraph.unpackHook (r : ObjectRef) : UnpackHook :=
  .look fun u =>
    match u.graph.object? r with
    | some o => .ofFields r 0 o.fields
    | none => .done

/-! ### What fields ask for -/

/-- The array or the text that is unpacked into a field has no more bits than can be counted. -/
def FieldData.IsCounted : FieldData → Prop
  | str _ (some length) => 8 * length < UInt64.size
  | array kind values _ _ => values.length * kind.unit < UInt64.size
  | _ => True

/-- The fields of a graph ask for no more than can be counted. -/
def ObjectGraph.IsCounted (g : ObjectGraph) : Prop :=
  ∀ r index f, g.field? r index = some f → f.data.IsCounted

theorem ObjectGraph.IsCounted.setData {g : ObjectGraph} (hg : g.IsCounted) (r : ObjectRef)
    (index : Nat) {data : FieldData} (hdata : data.IsCounted) :
    (g.setData r index data).IsCounted := by
  intro r' index' f hf
  rw [field?_setData] at hf
  split at hf
  · obtain ⟨f', -, rfl⟩ := Option.map_eq_some_iff.1 hf
    exact hdata
  · exact hg r' index' f hf

namespace Packer

variable {call : Option ObjectRef → Unpacking → Option Unpacking} {u v : Unpacking}

theorem length_readElements (unit count remaining : Nat) (p : Packer) :
    (readElements unit count remaining p).1.length = count := by
  induction count generalizing remaining p with
  | zero => rfl
  | succ count ih => simp [readElements, ih]

/-- An array is unpacked into one of the same length. -/
theorem length_unpackArray (p : Packer) (kind : ArrayKind) (count : Nat) (size : Option Nat) :
    (p.unpackArray kind count size).1.length = count := by
  unfold unpackArray
  dsimp only
  split
  · exact List.length_replicate
  · split
    · exact List.length_replicate
    · unfold streamOrder
      split
      · rw [List.length_reverse, length_readElements]
      · exact length_readElements ..

theorem isCounted_unpackData {data : FieldData} (h : data.IsCounted) (p : Packer) :
    (unpackData data p).1.IsCounted := by
  cases data with
  | array kind values size radix =>
    simp only [unpackData, FieldData.IsCounted, length_unpackArray]
    exact h
  | str text length => cases length <;> exact h
  | _ => trivial

theorem isCounted_unpackField
    (hcall : ∀ target v w, v.graph.IsCounted → call target v = some w → w.graph.IsCounted)
    (r : ObjectRef) (index : Nat) {f : Field} (hf : f.data.IsCounted) (hu : u.graph.IsCounted)
    (h : unpackField call r index f u = some v) : v.graph.IsCounted := by
  unfold unpackField at h
  split at h
  case isFalse =>
    cases h
    exact hu
  case isTrue =>
    split at h
    next target _ => exact hcall target u v hu h
    next =>
      cases h
      exact hu.setData r index (isCounted_unpackData hf u.packer)

theorem isCounted_unpackFields
    (hcall : ∀ target v w, v.graph.IsCounted → call target v = some w → w.graph.IsCounted)
    (r : ObjectRef) (index : Nat) {fields : List Field}
    (hfields : ∀ f ∈ fields, f.data.IsCounted) (hu : u.graph.IsCounted)
    (h : unpackFields call r index fields u = some v) : v.graph.IsCounted := by
  induction fields generalizing index u with
  | nil =>
    cases h
    exact hu
  | cons f rest ih =>
    rw [List.forall_mem_cons] at hfields
    rw [unpackFields_cons, Option.bind_eq_some_iff] at h
    obtain ⟨w, hw, hv⟩ := h
    exact ih (index + 1) hfields.2 (isCounted_unpackField hcall r index hfields.1 hu hw) hv

end Packer

theorem ObjectGraph.IsCounted.forall_fields {g : ObjectGraph} {r : ObjectRef} {o : DataObject}
    (hg : g.IsCounted) (ho : g.object? r = some o) : ∀ f ∈ o.fields, f.data.IsCounted := by
  intro f hf
  obtain ⟨index, hindex⟩ := List.mem_iff_getElem?.1 hf
  exact hg r index f (by rw [field?_of_object? ho, hindex])

/-- Whatever is unpacked into a counted graph leaves it counted. -/
theorem Packer.isCounted_unpackObject (fuel : Nat) (target : Option ObjectRef) {u v : Unpacking}
    (hu : u.graph.IsCounted) (h : unpackObject fuel target u = some v) : v.graph.IsCounted := by
  induction fuel generalizing target u v with
  | zero => cases h
  | succ fuel ih =>
    rw [unpackObject] at h
    dsimp only at h
    split at h
    case isFalse =>
      cases h
      exact hu
    case isTrue =>
      cases hres : u.graph.resolve target with
      | none =>
        simp only [hres] at h
        cases h
        exact hu
      | some found =>
        obtain ⟨r, o⟩ := found
        have hfields := hu.forall_fields (ObjectGraph.resolve_eq_some.1 hres).2
        cases henter : u.packer.unpackMarker.2.visits.enter? (instanceId r) with
        | none =>
          simp only [hres, henter] at h
          cases h
          exact hu
        | some visits =>
          simp only [hres, henter] at h
          obtain ⟨w, hw, hv⟩ := Option.bind_eq_some_iff.1 h
          cases hv
          have hkept := isCounted_unpackFields (fun target _ _ => ih target) r 0 hfields
            (by exact hu) hw
          exact hkept

/-! ### Unpacking by fields -/

namespace UnpackHook

variable {sub : Option ObjectRef → Unpacking → Except UnpackStop UnpackRun}
  {call : Option ObjectRef → Unpacking → Option Unpacking} {α : Type}

open Packer (unpackElements unpackData unpackField unpackFields isCounted_unpackField)

/-- What is read of an array or a text that may be there. -/
theorem outcome?_unpack {op : UnpackOp α} (h : op.requested < UInt64.size) (next : α → UnpackHook)
    (u : Unpacking) :
    outcome? ((unpack op next).run sub u) =
      outcome? ((next (op.perform u.packer).1).run sub
        { u with packer := (op.perform u.packer).2 }) := by
  rw [run_unpack_of_lt h, outcome?_andThen]
  rfl

theorem outcome?_ofElements (size count : Nat) (next : List Nat → UnpackHook) (u : Unpacking) :
    outcome? ((ofElements size count next).run sub u) =
      outcome? ((next (unpackElements size count u.packer).1).run sub
        { u with packer := (unpackElements size count u.packer).2 }) := by
  have hfixed : 0 < UInt64.size := by decide
  induction count generalizing next u with
  | zero => rfl
  | succ count ih =>
    rw [ofElements, outcome?_unpack (show (UnpackOp.int size).requested < UInt64.size from hfixed)]
    exact ih ..

theorem outcome?_ofData {data : FieldData} (hdata : data.IsCounted) (next : FieldData → UnpackHook)
    (u : Unpacking) :
    outcome? ((ofData data next).run sub u) =
      outcome? ((next (unpackData data u.packer).1).run sub
        { u with packer := (unpackData data u.packer).2 }) := by
  have hfixed : 0 < UInt64.size := by decide
  cases data with
  | elements values size radix => exact outcome?_ofElements ..
  | generic text typeName => rfl
  | child target => rfl
  | probe =>
    rw [ofData, run, outcome?_andThen]
    rfl
  | array kind values size radix =>
    apply outcome?_unpack
    exact hdata
  | str text length =>
    apply outcome?_unpack
    cases length with
    | none => exact hfixed
    | some length => exact hdata
  | _ =>
    apply outcome?_unpack
    exact hfixed

theorem outcome?_ofField
    (hsub : ∀ target v, v.graph.IsCounted → outcome? (sub target v) = call target v)
    (r : ObjectRef) (index : Nat) {f : Field} (hf : f.data.IsCounted) (next : UnpackHook)
    {u : Unpacking} (hu : u.graph.IsCounted) :
    outcome? ((ofField r index f next).run sub u) =
      (unpackField call r index f u).bind fun v => outcome? (next.run sub v) := by
  rw [ofField, run, unpackField]
  generalize f.data = data at hf
  split
  next =>
    cases data with
    | child target =>
      dsimp only
      rw [run, outcome?_andThen, hsub target u hu]
    | _ => exact outcome?_ofData hf ..
  next => rfl

theorem outcome?_ofFields
    (hsub : ∀ target v, v.graph.IsCounted → outcome? (sub target v) = call target v)
    (hcall : ∀ target v w, v.graph.IsCounted → call target v = some w → w.graph.IsCounted)
    (r : ObjectRef) (index : Nat) {fields : List Field} (hfields : ∀ f ∈ fields, f.data.IsCounted)
    {u : Unpacking} (hu : u.graph.IsCounted) :
    outcome? ((ofFields r index fields).run sub u) = unpackFields call r index fields u := by
  induction fields generalizing index u with
  | nil => rfl
  | cons f rest ih =>
    rw [List.forall_mem_cons] at hfields
    rw [ofFields, outcome?_ofField hsub r index hfields.1 _ hu, Packer.unpackFields_cons]
    refine Option.bind_congr fun v hv => ?_
    exact ih (index + 1) hfields.2 (isCounted_unpackField hcall r index hfields.1 hu hv)

/-- An object visited by the hook of its fields. -/
theorem outcome?_visit_unpackHook {r : ObjectRef} {o : DataObject} {u : Unpacking}
    (hsub : ∀ target v, v.graph.IsCounted → outcome? (sub target v) = call target v)
    (hcall : ∀ target v w, v.graph.IsCounted → call target v = some w → w.graph.IsCounted)
    (ho : u.graph.object? r = some o) (hu : u.graph.IsCounted) (name : String)
    (entered : VisitSet) (leave : VisitSet → VisitSet) :
    outcome? ((ObjectGraph.unpackHook r).visit sub name entered leave u) =
      (unpackFields call r 0 o.fields { u with packer := { u.packer with
        visits := entered, scope := u.packer.scope.down name } }).bind fun v =>
          some { v with packer := { v.packer with
            scope := v.packer.scope.up, visits := leave v.packer.visits } } := by
  simp only [visit, outcome?_andThen, outcome?_step, Option.bind_some]
  rw [ObjectGraph.unpackHook, run, ho]
  dsimp only
  rw [outcome?_ofFields hsub hcall r 0 (hu.forall_fields ho)]
  exact hu

end UnpackHook

/-- An object unpacked by the hook of its fields. -/
theorem Packer.outcome?_unpackBy (fuel : Nat) (target : Option ObjectRef) {u : Unpacking}
    (hu : u.graph.IsCounted) :
    outcome? (unpackBy ObjectGraph.unpackHook fuel target u) = unpackObject fuel target u := by
  induction fuel generalizing target u with
  | zero => rfl
  | succ fuel ih =>
    rw [unpackBy, unpackObject]
    dsimp only
    rw [outcome?_andThen, outcome?_step, Option.bind_some]
    split
    next =>
      cases hres : u.graph.resolve target with
      | none => simp only [outcome?_step]
      | some found =>
        obtain ⟨r, o⟩ := found
        have ho := (ObjectGraph.resolve_eq_some.1 hres).2
        cases hvisits : u.packer.unpackMarker.2.visits.enter? (instanceId r) with
        | none => simp only [hvisits, outcome?_step]
        | some visits =>
          simp only [hvisits]
          exact UnpackHook.outcome?_visit_unpackHook (u := ⟨u.graph, u.packer.unpackMarker.2⟩)
            (fun target _ => ih target) (fun target _ _ => isCounted_unpackObject fuel target) ho
            hu _ _ _
    next => rfl

namespace ObjectGraph

/-- An object unpacked by the hook of its fields, from the stream that is loaded. -/
theorem outcome?_unpackLoadedBy (fuel : Nat) (r : ObjectRef) {u : Unpacking}
    (hu : u.graph.IsCounted) :
    outcome? (unpackLoadedBy unpackHook fuel r u) = unpackLoaded? fuel r u := by
  unfold unpackLoadedBy unpackLoaded?
  cases ho : u.graph.object? r with
  | none => rfl
  | some o =>
    exact UnpackHook.outcome?_visit_unpackHook
      (fun target _ => Packer.outcome?_unpackBy fuel target)
      (fun target _ _ => Packer.isCounted_unpackObject fuel target) ho hu _ _ _

/-- **Unpacking by fields** is unpacking by the hook of the fields. -/
theorem unpackBy_unpackHook {g : ObjectGraph} (hg : g.IsCounted) (r : ObjectRef)
    (load : Packer → Packer) (p : Packer) :
    ∃ passed, g.unpackBy unpackHook r load p = .ok (g.unpack r load p, passed) := by
  have hloaded := outcome?_unpackLoadedBy g.depthBound r (u := ⟨g, load p.reset⟩) hg
  rw [unpackLoaded?_eq_some r ⟨g, load p.reset⟩] at hloaded
  cases hrun : unpackLoadedBy unpackHook g.depthBound r ⟨g, load p.reset⟩ with
  | error stop =>
    rw [hrun] at hloaded
    cases hloaded
  | ok out =>
    rw [hrun] at hloaded
    refine ⟨out.2, ?_⟩
    rw [unpackBy, hrun, unpack, ← Option.some_inj.1 hloaded]
    rfl

end ObjectGraph

end FieldAutomation
