import FieldAutomation.Radix
import FieldAutomation.VisitSet

/-!
# Data objects

A data object is a named list of fields that takes part in packing, comparing, recording and
copying.  Objects refer to each other, in any shape: they may be shared, and they may form cycles.

* `FieldData`: fields of all kinds with their values, and `FieldKind`: the kinds;
* `Field`: a field with its name and the knob that switches it on;
* `DataObject`: an object of some type, which may also be bare of fields and of a type of its own;
* `ObjectGraph`: all objects; the instance id of the first one is 1.

Main statements: `ObjectGraph.size_setData`, `ObjectGraph.object?_setData_of_ne`.
-/

namespace FieldAutomation

/-- Where an object stands in its graph. -/
abbrev ObjectRef := Nat

/-- The elements of an array that is packed as a whole. -/
inductive ArrayKind where
  /-- Elements of 8 bits. -/
  | bytes
  /-- Elements of 32 bits. -/
  | words
  deriving DecidableEq, Repr, Inhabited

/-- The number of bits of an element. -/
def ArrayKind.unit : ArrayKind → Nat
  | bytes => 8
  | words => 32

/-- The value of a field, and how wide it is packed or in which radix it is shown. -/
inductive FieldData where
  /-- A number of at most 64 bits. -/
  | int (value size : Nat) (radix : Radix)
  /-- A number of any width. -/
  | wide (value size : Nat) (radix : Radix)
  | real (value : Binary64)
  /-- A string; unpacking takes `length` bytes, or as many as come before a zero byte. -/
  | str (value : String) (length : Option Nat)
  | time (value : Nat) (radix : Radix)
  /-- An array of which `size` bits are packed, or all. -/
  | array (kind : ArrayKind) (values : List Nat) (size : Option Nat) (radix : Radix)
  /-- A list of numbers, each a field of its own. -/
  | elements (values : List Nat) (size : Nat) (radix : Radix)
  /-- A text of a declared type, which is never packed. -/
  | generic (text : String) (typeName : String)
  /-- Another object. -/
  | child (target : Option ObjectRef)
  /-- No value: a traversal that passes it notes its state. -/
  | probe
  deriving DecidableEq, Inhabited

/-- The kinds of fields. -/
inductive FieldKind where
  | int | wide | real | str | time | array (kind : ArrayKind) | elements | generic | child | probe
  deriving DecidableEq, Repr, Inhabited

/-- The kind of a field. -/
def FieldData.kind : FieldData → FieldKind
  | int .. => .int
  | wide .. => .wide
  | real _ => .real
  | str .. => .str
  | time .. => .time
  | array kind .. => .array kind
  | elements .. => .elements
  | generic .. => .generic
  | child _ => .child
  | probe => .probe

/-- When a field takes part in packing, comparing and recording. -/
inductive Visibility where
  | always
  /-- When physical fields do. -/
  | physical
  /-- When abstract fields do. -/
  | abstract
  deriving DecidableEq, Repr, Inhabited

/-- Whether a field is switched on. -/
def Visibility.holds (v : Visibility) (physicalFields abstractFields : Bool) : Bool :=
  match v with
  | always => true
  | physical => physicalFields
  | abstract => abstractFields

/-- A field of an object. -/
structure Field where
  name : String
  data : FieldData
  visibility : Visibility := .always
  deriving DecidableEq, Inhabited

/-- A type of objects with fields.  Two types may have the same name. -/
abbrev TypeId := Nat

/-- What an object consists of besides its name. -/
inductive Body where
  /-- Nothing: each operation leaves it as it is. -/
  | bare
  /-- Fields, in an object of some type.  `verdict` overrides the outcome of comparing them. -/
  | fielded (type : TypeId) (typeName : String) (verdict : Option Bool) (fields : List Field)
  deriving DecidableEq, Inhabited

/-- A data object. -/
structure DataObject where
  name : String
  body : Body
  deriving DecidableEq, Inhabited

namespace DataObject

/-- The name of the type of an object. -/
def typeName (o : DataObject) : String :=
  match o.body with
  | .bare => "Bare"
  | .fielded _ typeName _ _ => typeName

/-- The type of an object; all bare ones are of one type. -/
def concreteType (o : DataObject) : Option TypeId :=
  match o.body with
  | .bare => none
  | .fielded type .. => some type

/-- The outcome that an object gives a comparison of its fields, if it overrides it. -/
def verdict (o : DataObject) : Option Bool :=
  match o.body with
  | .bare => none
  | .fielded _ _ verdict _ => verdict

/-- The fields of an object. -/
def fields (o : DataObject) : List Field :=
  match o.body with
  | .bare => []
  | .fielded _ _ _ fields => fields

/-- Whether an object is bare. -/
def isBare (o : DataObject) : Bool :=
  match o.body with
  | .bare => true
  | .fielded .. => false

theorem fields_of_isBare {o : DataObject} (h : o.isBare = true) : o.fields = [] := by
  cases hb : o.body with
  | bare => simp [fields, hb]
  | fielded => simp [isBare, hb] at h

/-- Changes the fields of an object; a bare one has none. -/
def mapFields (f : List Field → List Field) (o : DataObject) : DataObject :=
  match o.body with
  | .bare => o
  | .fielded type typeName verdict fields =>
    { o with body := .fielded type typeName verdict (f fields) }

@[simp] theorem fields_mapFields (f : List Field → List Field) (o : DataObject)
    (h : o.isBare = false) : (o.mapFields f).fields = f o.fields := by
  cases hb : o.body <;> simp_all [mapFields, fields, isBare]

@[simp] theorem name_mapFields (f : List Field → List Field) (o : DataObject) :
    (o.mapFields f).name = o.name := by
  cases hb : o.body <;> simp [mapFields, hb]

@[simp] theorem typeName_mapFields (f : List Field → List Field) (o : DataObject) :
    (o.mapFields f).typeName = o.typeName := by
  cases hb : o.body <;> simp [mapFields, typeName, hb]

@[simp] theorem concreteType_mapFields (f : List Field → List Field) (o : DataObject) :
    (o.mapFields f).concreteType = o.concreteType := by
  cases hb : o.body <;> simp [mapFields, concreteType, hb]

@[simp] theorem verdict_mapFields (f : List Field → List Field) (o : DataObject) :
    (o.mapFields f).verdict = o.verdict := by
  cases hb : o.body <;> simp [mapFields, verdict, hb]

end DataObject

/-- All objects of a session. -/
structure ObjectGraph where
  objects : Array DataObject := #[]
  deriving DecidableEq, Inhabited

namespace ObjectGraph

variable (g : ObjectGraph)

/-- The number of objects. -/
def size : Nat := g.objects.size

/-- The object at a place. -/
def object? (r : ObjectRef) : Option DataObject := g.objects[r]?

/-- The instance id of an object. -/
def instanceId (r : ObjectRef) : InstanceId := r + 1

/-- The object that a reference means; a reference to nowhere counts as null. -/
def resolve (target : Option ObjectRef) : Option (ObjectRef × DataObject) :=
  target.bind fun r => (g.object? r).map fun o => (r, o)

/-- The data of the field at `index` of an object. -/
def data? (r : ObjectRef) (index : Nat) : Option FieldData :=
  ((g.object? r).bind fun o => o.fields[index]?).map Field.data

/-- Changes the data of the field at `index` of an object. -/
def setData (r : ObjectRef) (index : Nat) (data : FieldData) : ObjectGraph :=
  ⟨g.objects.modify r fun o =>
    o.mapFields fun fields => fields.modify index fun f => { f with data }⟩

variable {g}

theorem instanceId_injective {r s : ObjectRef} (h : instanceId r = instanceId s) : r = s :=
  Nat.succ.inj h

@[simp] theorem size_setData (r : ObjectRef) (index : Nat) (data : FieldData) :
    (g.setData r index data).size = g.size := by
  simp [setData, size]

theorem object?_setData_of_ne {r s : ObjectRef} (index : Nat) (data : FieldData) (h : s ≠ r) :
    (g.setData r index data).object? s = g.object? s := by
  simp only [setData, object?, Array.getElem?_modify]
  rw [if_neg (Ne.symm h)]

end ObjectGraph

end FieldAutomation
