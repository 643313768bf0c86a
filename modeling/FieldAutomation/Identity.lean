/-!
# Names and instance ids

Every object has a name and an instance id.  Ids are handed out in order of creation and never
again, so a copy of an identity keeps the name and has an id of its own.

* `Identity`, `IdSupply`;
* `IdSupply.create`, `IdSupply.clone`.

Main statement: `IdSupply.instanceId_create_lt` (an id is new).
-/

namespace FieldAutomation

/-- The name and the instance id of an object. -/
structure Identity where
  name : String
  instanceId : Nat
  deriving DecidableEq, Repr, Inhabited

/-- Hands out instance ids. -/
structure IdSupply where
  /-- The id of the next object. -/
  next : Nat := 1
  deriving DecidableEq, Repr, Inhabited

namespace IdSupply

/-- A new identity. -/
def create (s : IdSupply) (name : String) : Identity × IdSupply :=
  (⟨name, s.next⟩, ⟨s.next + 1⟩)

/-- The identity of a copy: the same name under an id of its own. -/
def clone (s : IdSupply) (source : Identity) : Identity × IdSupply := s.create source.name

/-- An id is new: all later ones are greater. -/
theorem instanceId_create_lt (s : IdSupply) (name : String) :
    (s.create name).1.instanceId < (s.create name).2.next :=
  Nat.lt_succ_self _

end IdSupply

end FieldAutomation
