import FieldAutomation.Radix

/-!
# Events of a recording

What happens to a recorder is told in events: it is opened, its fields are recorded one by one as
attributes, it is closed and freed.
-/

namespace FieldAutomation

/-- A recorded field. -/
structure Attribute where
  /-- Handle of the recorder. -/
  handle : Nat
  /-- Path of the field. -/
  name : String
  /-- The value, shown in `radix`. -/
  value : String
  radix : Radix
  bits : Nat
  /-- The declared type of a generic field. -/
  typeName : Option String := none
  deriving DecidableEq, Repr

/-- What happens to a recorder. -/
inductive TraceEvent where
  | opened (handle : Nat) (name : String) (time : Nat) (typeName : String)
  | closed (handle time : Nat)
  | freed (handle time : Nat)
  | recorded (attr : Attribute)
  deriving DecidableEq, Repr

namespace TraceEvent

/-- The handle of the recorder that an event is about. -/
def handle : TraceEvent → Nat
  | opened handle .. | closed handle _ | freed handle _ => handle
  | recorded a => a.handle

/-- The attribute that an event records. -/
def attribute? : TraceEvent → Option Attribute
  | recorded a => some a
  | _ => none

end TraceEvent

end FieldAutomation
