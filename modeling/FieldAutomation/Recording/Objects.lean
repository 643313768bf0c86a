import FieldAutomation.DataObject
import FieldAutomation.Recording.Recorder
import FieldAutomation.Text.Hex

/-!
# Recording objects

An object is recorded field by field.  Of an object that a field refers to the instance id is
recorded, and then its own fields below the name of that field.  The visit set of the recorder
holds the objects that are being recorded as part of others: one that turns up again is a cycle,
which is reported and not followed.

* `Recording.recordFields`, `Recording.recordObject`: fields, and an object that one refers to;
* `ObjectGraph.record`, `ObjectGraph.recordObject`: with as many levels as there can be.

Main statement: `Recording.recordFields_cons` (the equation of one step).
-/

namespace FieldAutomation

open ObjectGraph (instanceId)

namespace Recording

/-- Records words one by one, each with its index after the name. -/
def recordWords (name : String) (radix : Radix) : Nat → List Nat → Recording → Recording
  | _, [], s => s
  | index, v :: rest, s =>
    recordWords name radix (index + 1) rest
      (s.recordNumber (name ++ Scope.element index) v 32 radix)

/-- Takes a step of the path. -/
def moveScope (s : Recording) (m : Scope.Move) : Recording :=
  { s with recorder := { s.recorder with scope := s.recorder.scope.move m } }

/-- Records numbers one by one, each at the level of its index. -/
def recordElements (size : Nat) (radix : Radix) : Nat → List Nat → Recording → Recording
  | _, [], s => s
  | index, v :: rest, s =>
    let s := (s.moveScope (.downElement index)).recordNumber "" v size radix
    recordElements size radix (index + 1) rest (s.moveScope .upElement)

/-- Whether a field takes part. -/
def includes (s : Recording) (f : Field) : Bool :=
  f.visibility.holds s.recorder.settings.physicalFields s.recorder.settings.abstractFields

/-- Records a field.  `sub` records an object that it refers to, under a name. -/
def recordField (sub : String → Option ObjectRef → Recording → Option Recording) (f : Field)
    (s : Recording) : Option Recording :=
  if s.includes f then
    match f.data with
    | .int v size radix => some (s.recordNumber f.name v size radix)
    | .wide v size radix => some (s.recordNumber f.name v size radix)
    | .real x => some (s.recordReal f.name x)
    | .str text _ => some (s.recordString f.name text)
    | .time t _ => some (s.recordTime f.name t)
    | .array .bytes values _ _ => some (s.recordGeneric f.name (Hex.encode values) "bytes")
    | .array .words values _ radix => some (recordWords f.name radix 0 values s)
    | .elements values size radix =>
      some ((recordElements size radix 0 values (s.moveScope (.down f.name))).moveScope .up)
    | .generic text typeName => some (s.recordGeneric f.name text typeName)
    | .child target => sub f.name target s
    | .probe =>
      let note : RecordNote := ⟨s.recorder.scope.path, s.recorder.depth⟩
      some { s with recorder := { s.recorder with notes := s.recorder.notes ++ [note] } }
  else some s

/-- Records fields in order. -/
def recordFields (sub : String → Option ObjectRef → Recording → Option Recording) :
    List Field → Recording → Option Recording
  | [], s => some s
  | f :: rest, s => (recordField sub f s).bind (recordFields sub rest)

/-- Records the fields of an object. -/
def recordBody (sub : String → Option ObjectRef → Recording → Option Recording) (o : DataObject)
    (s : Recording) : Option Recording := do
  let t ← recordFields sub o.fields
    { s with recorder := { s.recorder with depth := s.recorder.depth + 1 } }
  return { t with recorder := { t.recorder with depth := t.recorder.depth - 1 } }

/-- Records an object that is referred to under a name: its instance id, 0 for none, and its
fields.  By reference only the id is recorded.  The traversal descends at most `fuel` levels. -/
def recordObject (g : ObjectGraph) :
    Nat → String → Option ObjectRef → Recording → Option Recording
  | 0, _, _, _ => none
  | fuel + 1, name, target, s =>
    if s.recorder.backend = none then some s
    else
      let id := (g.resolve target).elim 0 fun found => instanceId found.1
      let s := if s.recorder.settings.identifier then s.recordNumber name id 32 .dec else s
      match g.resolve target with
      | none => some s
      | some (r, o) =>
        if s.recorder.settings.policy = .reference then some s
        else
          match s.recorder.visits.enter? (instanceId r) with
          | none =>
            some (s.report ⟨.warning, .none, "CYCFND",
              "Cycle detected for object @" ++ toString (instanceId r) ++ " during record"⟩)
          | some visits => do
            let entered := { s with recorder := { s.recorder with visits } }.moveScope (.down name)
            let t ← recordBody (recordObject g fuel) o entered
            let left := t.moveScope .up
            return { left with
              recorder :=
                { left.recorder with visits := left.recorder.visits.leave (instanceId r) } }

theorem recordFields_cons (sub : String → Option ObjectRef → Recording → Option Recording)
    (f : Field) (rest : List Field) (s : Recording) :
    recordFields sub (f :: rest) s = (recordField sub f s).bind (recordFields sub rest) := rfl

end Recording

namespace ObjectGraph

variable (g : ObjectGraph)

/-- How many levels below an object that is recorded can be reached: each of them adds an object to
the visit set. -/
def recordBound : Nat := g.size + 1

/-- Records the fields of an object and of all it refers to. -/
def record (r : ObjectRef) (s : Recording) : Recording :=
  match g.object? r with
  | none => s
  | some o => (Recording.recordBody (Recording.recordObject g g.recordBound) o s).getD s

/-- Records an object under a name, and all it refers to. -/
def recordObject (name : String) (target : Option ObjectRef) (s : Recording) : Recording :=
  (Recording.recordObject g g.recordBound name target s).getD s

end ObjectGraph

end FieldAutomation
