/-!
# Visit sets

A traversal of a graph with cycles keeps the set of objects it is in the middle of.  Entering an
object that is already in the set is refused; this is how a cycle is found.

* `VisitSet.enter?`, `VisitSet.leave`: the set itself;
* `GuardedVisits`: a set together with the guards held for its members, kept in numbered slots.
  `GuardedVisits.enter` and `GuardedVisits.drop` keep the two in step.
-/

namespace FieldAutomation

/-- The identity of an object: its instance id. -/
abbrev InstanceId := Nat

/-- The objects that a traversal is in the middle of, each once. -/
structure VisitSet where
  active : List InstanceId := []
  deriving DecidableEq, Repr, Inhabited

namespace VisitSet

variable (s : VisitSet)

/-- Whether an object is being visited. -/
def contains (id : InstanceId) : Bool := s.active.contains id

/-- How many objects are being visited. -/
def size : Nat := s.active.length

/-- Marks an object as being visited; refused when it already is. -/
def enter? (id : InstanceId) : Option VisitSet :=
  if s.contains id then none else some ⟨id :: s.active⟩

/-- Takes an object out of the set. -/
def leave (id : InstanceId) : VisitSet := ⟨s.active.erase id⟩

variable {s}

@[simp] theorem enter?_eq_none_iff {id : InstanceId} :
    s.enter? id = none ↔ s.contains id = true := by
  simp [enter?]

theorem enter?_of_not_contains {id : InstanceId} (h : s.contains id = false) :
    s.enter? id = some ⟨id :: s.active⟩ := by
  simp [enter?, h]

theorem enter?_eq_some {id : InstanceId} {t : VisitSet} (h : s.enter? id = some t) :
    t = ⟨id :: s.active⟩ := by
  unfold enter? at h
  split at h
  · cases h
  · exact (Option.some.inj h).symm

/-- Leaving what was just entered restores the set. -/
theorem leave_of_enter? {id : InstanceId} {t : VisitSet} (h : s.enter? id = some t) :
    t.leave id = s := by
  rw [enter?_eq_some h, leave, List.erase_cons_head]

end VisitSet

/-- A visit set and the guards held for its members, in numbered slots. -/
structure GuardedVisits where
  visits : VisitSet := {}
  /-- Slot and object of each live guard, at most one per slot. -/
  guards : List (Nat × InstanceId) := []
  deriving DecidableEq, Repr, Inhabited

namespace GuardedVisits

variable (g : GuardedVisits)

/-- The object whose guard lies in a slot. -/
def guard? (slot : Nat) : Option InstanceId := g.guards.lookup slot

/-- Drops the guard in a slot; its object leaves the set. -/
def drop (slot : Nat) : GuardedVisits :=
  match g.guard? slot with
  | none => g
  | some id =>
    { visits := g.visits.leave id
      guards := g.guards.filter (·.1 ≠ slot) }

/-- Enters an object and puts its guard into a slot.  A guard that was there is dropped, after
the object was entered.  `none` when the object is already being visited. -/
def enter? (id : InstanceId) (slot : Nat) : Option GuardedVisits :=
  match g.visits.enter? id with
  | none => none
  | some visits =>
    let dropped := { g with visits }.drop slot
    some { dropped with guards := (slot, id) :: dropped.guards }

end GuardedVisits

end FieldAutomation
