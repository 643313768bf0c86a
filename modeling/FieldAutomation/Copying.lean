import FieldAutomation.DataObject
import FieldAutomation.Report

/-!
# Copying objects

An object is copied field by field onto another.  A field that refers to an object is copied onto
the object that the target refers to; where the target refers to none it takes the reference over.
The visit set holds the sources that are being copied: one that turns up again is a cycle, which is
logged and skipped.

* `Copying`: a graph with the copies in progress and the log;
* `Copying.copyWithin`: a copy that descends at most `fuel` levels; one level more than there are
  objects always is enough, as each level adds a source to the visit set;
* `Copying.copy`: a copy.

Main statement: `Copying.copyFields_cons` (the equation of one step).
-/

namespace FieldAutomation

open ObjectGraph (instanceId)

/-- What a probe field notes about a copy that passes it. -/
structure CopyNote where
  /-- The name of the source. -/
  source : String
  /-- The number of copies in progress. -/
  depth : Nat
  deriving DecidableEq, Repr

/-- A graph that is being copied within. -/
structure Copying where
  graph : ObjectGraph
  /-- Sources of the copies in progress. -/
  visits : VisitSet := {}
  log : List LogEntry := []
  /-- Notes of probe fields, oldest first. -/
  notes : List CopyNote := []
  deriving Inhabited

namespace Copying

/-- Logs a copy without a source. -/
def logNull (s : Copying) : Copying :=
  { s with log := s.log ++
      [⟨.warn, "A null object was supplied to copy; copy is ignored", [("id", "NULLCP")]⟩] }

/-- Logs a source that is being copied already. -/
def logCycle (s : Copying) (r : ObjectRef) : Copying :=
  { s with log := s.log ++
      [⟨.warn, "Cycle detected during copy; object skipped",
        [("id", "CYCCPY"), ("inst_id", toString (instanceId r))]⟩] }

/-- The data of a target field after the value of a source field of the same kind is copied onto
it.  Widths and radices stay; of a generic field the type is copied too. -/
def mergeData (target source : FieldData) : FieldData :=
  match target, source with
  | .int _ size radix, .int v _ _ => .int v size radix
  | .wide _ size radix, .wide v _ _ => .wide v size radix
  | .real _, .real x => .real x
  | .str _ length, .str text _ => .str text length
  | .time _ radix, .time t _ => .time t radix
  | .array .bytes _ size radix, .array .bytes values _ _ => .array .bytes values size radix
  | .array .words _ size radix, .array .words values _ _ => .array .words values size radix
  | .elements _ size radix, .elements values _ _ => .elements values size radix
  | .generic _ _, .generic text typeName => .generic text typeName
  | target, _ => target

/-- Copies a source field onto the field at `index` of an object.  `sub` copies one object onto
another. -/
def copyField (sub : ObjectRef → Option ObjectRef → Copying → Option Copying)
    (target : ObjectRef) (sourceName : String) (index : Nat) (source : Field) (s : Copying) :
    Option Copying :=
  match s.graph.data? target index, source.data with
  | none, _ => some s
  | some (.child (some t)), .child c => sub t c s
  | some (.child none), .child c =>
    some { s with graph := s.graph.setData target index (.child c) }
  | some .probe, .probe =>
    some { s with notes := s.notes ++ [⟨sourceName, s.visits.size⟩] }
  | some data, sourceData =>
    some { s with graph := s.graph.setData target index (mergeData data sourceData) }

/-- Copies source fields in order, from the one at `index` on. -/
def copyFields (sub : ObjectRef → Option ObjectRef → Copying → Option Copying)
    (target : ObjectRef) (sourceName : String) : Nat → List Field → Copying → Option Copying
  | _, [], s => some s
  | index, f :: rest, s =>
    (copyField sub target sourceName index f s).bind
      (copyFields sub target sourceName (index + 1) rest)

/-- Copies an object onto another, at a depth of at most `fuel`.  A copy onto itself changes
nothing, and neither does one between objects of which only one is bare. -/
def copyWithin : Nat → ObjectRef → Option ObjectRef → Copying → Option Copying
  | 0, _, _, _ => none
  | fuel + 1, target, source, s =>
    match s.graph.resolve source with
    | none => some s.logNull
    | some (r, o) =>
      if target = r then some s
      else
        match s.visits.enter? (instanceId r) with
        | none => some (s.logCycle r)
        | some visits => do
          let t ← copyFields (copyWithin fuel) target o.name 0 o.fields { s with visits }
          return { t with visits := t.visits.leave (instanceId r) }

/-- Copies an object, and all it refers to, onto another. -/
def copy (target : ObjectRef) (source : Option ObjectRef) (s : Copying) : Copying :=
  (copyWithin (s.graph.size + 1) target source s).getD s

/-- The number of copies in progress. -/
def depth (s : Copying) : Nat := s.visits.size

theorem copyFields_cons (sub : ObjectRef → Option ObjectRef → Copying → Option Copying)
    (target : ObjectRef) (sourceName : String) (index : Nat) (f : Field) (rest : List Field)
    (s : Copying) :
    copyFields sub target sourceName index (f :: rest) s =
      (copyField sub target sourceName index f s).bind
        (copyFields sub target sourceName (index + 1) rest) := rfl

end Copying

end FieldAutomation
