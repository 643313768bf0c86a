import FieldAutomation.Packer.Fields

/-!
# Packing and unpacking objects

An object is packed field by field, and so are the objects it refers to.  The visit set of the
packer holds the objects that it is in the middle of: one that turns up again is a cycle, which is
reported and not followed.

* `Packer.packObject`, `Packer.unpackObject`: one object below another;
* `ObjectGraph.pack`, `ObjectGraph.unpack`: a whole graph from its root.

The traversals descend at most `fuel` levels and say `none` when that is not enough.  As each
level adds an object to the visit set, one level more than there are objects always is.

Main statements: the equations of one step, `Packer.packFields_cons`, `Packer.packObject_null`,
`Packer.unpackFields_cons`.
-/

namespace FieldAutomation

open ObjectGraph (instanceId)

namespace Packer

/-- The report about a cycle. -/
def cycleMessage (r : ObjectRef) (activity : String) : String :=
  "Cycle detected for object @" ++ toString (instanceId r) ++ " during " ++ activity

/-- Whether a field takes part. -/
def includes (p : Packer) (f : Field) : Bool :=
  f.visibility.holds p.settings.physicalFields p.settings.abstractFields

/-! ### Packing -/

/-- Packs the data of a field that refers to no object. -/
def packData (data : FieldData) (p : Packer) : Packer :=
  match data with
  | .int v size _ => p.packInt v size
  | .wide v size _ => p.packWide v size
  | .real x => p.packReal x
  | .str text _ => p.packString text
  | .time t _ => p.packTime t
  | .array kind values size _ => p.packArray kind values size
  | .elements values size _ => values.foldl (fun p v => p.packInt v size) p
  | .probe => { p with notes := p.notes ++ [.packing p.scope.path p.cursor p.visits.size] }
  | .generic .. | .child _ => p

/-- Packs a field.  `sub` packs an object that it refers to. -/
def packField (sub : Option ObjectRef → Packer → Option Packer) (f : Field) (p : Packer) :
    Option Packer :=
  if p.includes f then
    match f.data with
    | .child target => sub target p
    | data => some (packData data p)
  else some p

/-- Packs fields in order. -/
def packFields (sub : Option ObjectRef → Packer → Option Packer) (fields : List Field)
    (p : Packer) : Option Packer :=
  fields.foldlM (fun p f => packField sub f p) p

/-- Packs an object below another, its mark first if metadata is used.  By reference, an object is
no more than a null mark. -/
def packObject (g : ObjectGraph) : Nat → Option ObjectRef → Packer → Option Packer
  | 0, _, _ => none
  | fuel + 1, target, p =>
    match g.resolve target with
    | none => some (p.packMarker false)
    | some (r, o) =>
      match p.visits.enter? (instanceId r) with
      | none =>
        let reporter := p.reporter.warning "CYCFND" (cycleMessage r "pack")
        some ({ p with reporter }.packMarker false)
      | some visits =>
        if p.settings.policy = .reference then some (p.packMarker false)
        else do
          let entered := { p with visits }.packMarker true
          let q ← packFields (packObject g fuel) o.fields
            { entered with scope := entered.scope.down o.name }
          return { q with scope := q.scope.up, visits := q.visits.leave (instanceId r) }

theorem packFields_nil (sub : Option ObjectRef → Packer → Option Packer) (p : Packer) :
    packFields sub [] p = some p := rfl

theorem packFields_cons (sub : Option ObjectRef → Packer → Option Packer) (f : Field)
    (rest : List Field) (p : Packer) :
    packFields sub (f :: rest) p = (packField sub f p).bind (packFields sub rest) := rfl

theorem packObject_null (g : ObjectGraph) (fuel : Nat) (p : Packer) :
    packObject g (fuel + 1) none p = some (p.packMarker false) := rfl

/-! ### Unpacking -/

/-- Unpacks `count` numbers of `size` bits. -/
def unpackElements (size : Nat) : Nat → Packer → List Nat × Packer
  | 0, p => ([], p)
  | count + 1, p =>
    let (v, p) := p.unpackInt size
    let (rest, p) := unpackElements size count p
    (v :: rest, p)

/-- Unpacks the data of a field that refers to no object. -/
def unpackData (data : FieldData) (p : Packer) : FieldData × Packer :=
  match data with
  | .int _ size radix =>
    let (v, p) := p.unpackInt size
    (.int v size radix, p)
  | .wide _ size radix =>
    let (v, p) := p.unpackWide size
    (.wide v size radix, p)
  | .real _ =>
    let (x, p) := p.unpackReal
    (.real x, p)
  | .str _ length =>
    let (text, p) := p.unpackString length
    (.str text length, p)
  | .time _ radix =>
    let (t, p) := p.unpackTime
    (.time t radix, p)
  | .array kind values size radix =>
    let (values, p) := p.unpackArray kind values.length size
    (.array kind values size radix, p)
  | .elements values size radix =>
    let (values, p) := unpackElements size values.length p
    (.elements values size radix, p)
  | .probe =>
    (.probe,
      { p with
        notes := p.notes ++ [.unpacking p.scope.path p.cursor p.visits.size p.atNull] })
  | .generic .. | .child _ => (data, p)

/-- A graph that is being unpacked into, and the packer that reads. -/
structure Unpacking where
  graph : ObjectGraph
  packer : Packer

/-- Unpacks the field at `index` of an object.  `sub` unpacks an object that it refers to. -/
def unpackField (sub : Option ObjectRef → Unpacking → Option Unpacking) (r : ObjectRef)
    (index : Nat) (f : Field) (u : Unpacking) : Option Unpacking :=
  if u.packer.includes f then
    match f.data with
    | .child target => sub target u
    | data =>
      let (data, packer) := unpackData data u.packer
      some { graph := u.graph.setData r index data, packer }
  else some u

/-- Unpacks the fields of an object in order, from the one at `index` on. -/
def unpackFields (sub : Option ObjectRef → Unpacking → Option Unpacking) (r : ObjectRef) :
    Nat → List Field → Unpacking → Option Unpacking
  | _, [], u => some u
  | index, f :: rest, u =>
    (unpackField sub r index f u).bind (unpackFields sub r (index + 1) rest)

/-- Reads the mark that says whether an object follows; without metadata one always does. -/
def unpackMarker (p : Packer) : Bool × Packer :=
  if p.settings.useMetadata then
    let (mark, p) := p.unpackInt markerBits
    (mark != 0, p)
  else (true, p)

/-- Unpacks an object below another.  By reference, nothing but its mark is read. -/
def unpackObject : Nat → Option ObjectRef → Unpacking → Option Unpacking
  | 0, _, _ => none
  | fuel + 1, target, u =>
    let (follows, p) := u.packer.unpackMarker
    if follows && p.settings.policy ≠ .reference then
      match u.graph.resolve target with
      | none => some { u with packer := p.fail .nullObject }
      | some (r, o) =>
        match p.visits.enter? (instanceId r) with
        | none =>
          let reporter := p.reporter.warning "CYCFND" (cycleMessage r "unpack")
          some { u with packer := { p with reporter } }
        | some visits => do
          let v ← unpackFields (unpackObject fuel) r 0 o.fields
            { u with packer := { p with visits, scope := p.scope.down o.name } }
          let q := v.packer
          return { v with
            packer := { q with scope := q.scope.up, visits := q.visits.leave (instanceId r) } }
    else some { u with packer := p }

theorem unpackFields_nil (sub : Option ObjectRef → Unpacking → Option Unpacking) (r : ObjectRef)
    (index : Nat) (u : Unpacking) : unpackFields sub r index [] u = some u := rfl

theorem unpackFields_cons (sub : Option ObjectRef → Unpacking → Option Unpacking)
    (r : ObjectRef) (index : Nat) (f : Field) (rest : List Field) (u : Unpacking) :
    unpackFields sub r index (f :: rest) u =
      (unpackField sub r index f u).bind (unpackFields sub r (index + 1) rest) := rfl

end Packer

namespace ObjectGraph

/-- How many levels a traversal with a visit set can descend. -/
def depthBound (g : ObjectGraph) : Nat := g.size + 1

/-- Packs an object below whatever is being packed. -/
def packObject (g : ObjectGraph) (target : Option ObjectRef) (p : Packer) : Packer :=
  (Packer.packObject g g.depthBound target p).getD p

/-- Unpacks an object below whatever is being unpacked. -/
def unpackObject (target : Option ObjectRef) (u : Packer.Unpacking) : Packer.Unpacking :=
  (Packer.unpackObject u.graph.depthBound target u).getD u

/-- A packer in the middle of object `r`, under the path of its name. -/
def packRoot (r : ObjectRef) (o : DataObject) (p : Packer) : Packer :=
  { p with
    visits := (p.visits.enter? (instanceId r)).getD p.visits
    scope := p.scope.down o.name }

/-- Packs an object and all it refers to into an empty stream; `none` when a depth of `fuel` is
not enough. -/
def pack? (g : ObjectGraph) (fuel : Nat) (r : ObjectRef) (p : Packer) : Option Packer :=
  match g.object? r with
  | none => some p
  | some o => do
    let start := p.reset
    let q ← Packer.packFields (Packer.packObject g fuel) o.fields (packRoot r o start)
    let visits :=
      if start.visits.contains (instanceId r) then q.visits else q.visits.leave (instanceId r)
    return { q.commit with scope := q.scope.up, visits }

/-- Packs an object and all it refers to into an empty stream. -/
def pack (g : ObjectGraph) (r : ObjectRef) (p : Packer) : Packer :=
  (g.pack? g.depthBound r p).getD p

/-- Unpacks an object and all it refers to from the stream that is loaded; `none` when a depth of
`fuel` is not enough. -/
def unpackLoaded? (fuel : Nat) (r : ObjectRef) (u : Packer.Unpacking) :
    Option Packer.Unpacking :=
  match u.graph.object? r with
  | none => some u
  | some o => do
    let start := u.packer
    let v ← Packer.unpackFields (Packer.unpackObject fuel) r 0 o.fields
      { u with packer := packRoot r o start }
    let q := v.packer
    let visits :=
      if start.visits.contains (instanceId r) then q.visits else q.visits.leave (instanceId r)
    return { v with packer := { q with scope := q.scope.up, visits } }

/-- What became of unpacking: the first misuse, or the number of bits read.  Bits that were left
over are reported. -/
def unpackOutcome (size : Nat) (p : Packer) : Except PackError Nat × Packer :=
  match p.errors.head? with
  | some e => (.error e, p)
  | none =>
    if p.cursor = size then (.ok p.cursor, p)
    else
      let e := PackError.incompleteUnpack p.cursor size
      (.ok p.cursor, { p with reporter := p.reporter.warning e.reportId e.message })

/-- Unpacks an object and all it refers to.  `load` puts the data into the packer, after it was
reset. -/
def unpack (g : ObjectGraph) (r : ObjectRef) (load : Packer → Packer) (p : Packer) :
    Except PackError Nat × ObjectGraph × Packer :=
  let loaded := load p.reset
  let u := (unpackLoaded? g.depthBound r ⟨g, loaded⟩).getD ⟨g, loaded⟩
  let (outcome, q) := unpackOutcome loaded.size u.packer
  (outcome, u.graph, q)

end ObjectGraph

end FieldAutomation
