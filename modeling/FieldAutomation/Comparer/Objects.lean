import FieldAutomation.Comparer.Basic
import FieldAutomation.Text.Hex

/-!
# Comparing objects

Two objects are compared field by field, and so are the objects they refer to.  Each right object
is paired with the left object it is first met against.  When it turns up again it is equal to that
one and to no other, so that cyclic graphs are compared in finitely many steps.

At the top, where there is no path, a comparison starts anew and its name becomes the path.  The
outcome is true when no miscompare was kept and the fields agree.

* `Comparer.compareFields`: the fields of two objects;
* `Comparer.compareChild`: two objects that fields refer to;
* `Comparer.compareMet`: two objects that are met, by the pairing or by their bodies;
* `Comparer.compareWithin`: two objects, at a depth of at most `fuel`;
* `ObjectGraph.compare?`, `ObjectGraph.compareObject?`: with a depth that no comparison that ends
  goes beyond.  `none` stands for a comparison that never ends: leaving a level whose name opens
  with a bracket leaves the level above it too, and where this empties the path the pairing is
  forgotten.

Main statements: `Comparer.compareFields_nil`, `Comparer.compareFields_cons` (all fields are
always visited), `Comparer.compareWithin_root` and `Comparer.compareWithin_below`.
-/

namespace FieldAutomation

open ObjectGraph (instanceId)

namespace Comparer

/-- The outcome of a step, and the comparer after it. -/
abbrev Outcome := Bool × Comparer

/-- Compares two lists of numbers as far as both go.  Each pair is a field of 32 bits with its
index after the name. -/
def compareWords (name : String) (radix : Radix) : Nat → List Nat → List Nat → Comparer → Outcome
  | index, l :: left, r :: right, c =>
    let (first, c) := c.compareNumber (name ++ Scope.element index) l r 32 radix
    let (rest, c) := compareWords name radix (index + 1) left right c
    (first && rest, c)
  | _, _, _, c => (true, c)

/-- Compares two lists of numbers as far as both go, each pair at the level of its index. -/
def compareElements (size : Nat) (radix : Radix) :
    Nat → List Nat → List Nat → Comparer → Outcome
  | index, l :: left, r :: right, c =>
    let c := { c with scope := c.scope.downElement index }
    let (first, c) := c.compareNumber "" l r size radix
    let c := { c with scope := c.scope.upElement }
    let (rest, c) := compareElements size radix (index + 1) left right c
    (first && rest, c)
  | _, _, _, c => (true, c)

/-- Whether a field takes part. -/
def includes (c : Comparer) (f : Field) : Bool :=
  f.visibility.holds c.settings.physicalFields c.settings.abstractFields

/-- Compares two fields.  Name, size, radix and visibility are those of the left one, and fields of
different kinds count as equal.  `child` compares two objects under a name. -/
def compareField
    (child : String → Option ObjectRef → Option ObjectRef → Comparer → Option Outcome)
    (left right : Field) (c : Comparer) : Option Outcome :=
  let name := left.name
  if c.includes left then
    match left.data, right.data with
    | .int l size radix, .int r _ _ => some (c.compareNumber name l r size radix)
    | .wide l size radix, .wide r _ _ => some (c.compareNumber name l r size radix)
    | .real l, .real r => some (c.compareReal name l r)
    | .str l _, .str r _ => some (c.compareString name l r)
    | .time l radix, .time r _ => some (c.compareNumber name l r 64 radix)
    | .array .bytes l _ _, .array .bytes r _ _ =>
      some (c.compareString name (Hex.encode l) (Hex.encode r))
    | .array .words l _ radix, .array .words r _ _ => some (compareWords name radix 0 l r c)
    | .elements l size radix, .elements r _ _ =>
      let (same, c) :=
        compareElements size radix 0 l r { c with scope := c.scope.down name }
      some (same, { c with scope := c.scope.up })
    | .generic l _, .generic r _ => some (c.compareString name l r)
    | .child l, .child r => child name l r c
    | .probe, _ =>
      let note : CompareNote := ⟨c.scope.path, c.result, c.pairs.length⟩
      some (true, { c with notes := c.notes ++ [note] })
    | _, _ => some (true, c)
  else some (true, c)

/-- Compares fields pairwise as far as both objects go.  All of them are visited. -/
def compareFields
    (child : String → Option ObjectRef → Option ObjectRef → Comparer → Option Outcome) :
    List Field → List Field → Comparer → Option Outcome
  | l :: left, r :: right, c => do
    let (first, c) ← compareField child l r c
    let (rest, c) ← compareFields child left right c
    return (first && rest, c)
  | _, _, c => some (true, c)

/-- Compares the bodies of two objects.  A bare left object is equal to any.  One with fields takes
the right one for an object of its own type, and is equal to none of another type. -/
def compareBodies
    (child : String → Option ObjectRef → Option ObjectRef → Comparer → Option Outcome)
    (left right : DataObject) (c : Comparer) : Option Outcome :=
  match left.body with
  | .bare => some (true, c)
  | .fielded type _ verdict fields =>
    if right.concreteType = some type then do
      let (same, c) ← compareFields child fields right.fields c
      return (verdict.getD same, c)
    else some (false, c)

/-- Keeps a miscompare of the identities of two objects under a name. -/
def tallyChild (c : Comparer) (name : String) (left right : Option ObjectRef) : Comparer :=
  let c := { c with scope := c.scope.setPending name }.tallyObjects left right
  { c with scope := c.scope.unsetPending name }

/-- Compares two objects that are referred to under a name.  `within` compares two objects one
level deeper.  Without a path this starts anew. -/
def compareChild (within : ObjectRef → Option ObjectRef → Comparer → Option Outcome)
    (name : String) (left right : Option ObjectRef) (c : Comparer) : Option Outcome :=
  let c := if c.scope.depth = 0 then c.start else c
  match left, right with
  | none, none => some (true, c)
  | some l, some r =>
    if l = r then some (true, c)
    else if c.settings.policy = .reference then
      some (false, c.tallyChild name left right)
    else do
      let (same, c) ← within l (some r) { c with scope := c.scope.down name }
      return (same, { c with scope := c.scope.up })
  | _, _ => some (false, c.tallyChild name left right)

/-- The name that a comparison starts with. -/
def rootName (o : DataObject) : String := if o.name = "" then "<object>" else o.name

/-- The message that ends a comparison with miscompares. -/
def rollup (c : Comparer) (l : ObjectRef) (left : DataObject)
    (right : Option (ObjectRef × DataObject)) : String :=
  let (name, id) := match right with
    | some (r, o) => (o.name, instanceId r)
    | none => ("<null>", 0)
  toString c.result ++ " Miscompare(s) for object " ++ left.name ++ "@" ++
    toString (instanceId l) ++ " vs. " ++ name ++ "@" ++ toString id

/-- Compares an object with the one it is met against: by the pairing when that one was met
before, else by their types and bodies.  `child` compares two objects that fields refer to. -/
def compareMet
    (child : String → Option ObjectRef → Option ObjectRef → Comparer → Option Outcome)
    (l : ObjectRef) (left : DataObject) (right : Option (ObjectRef × DataObject)) (c : Comparer) :
    Option Outcome :=
  match right with
  | none => some (false, c.tally "rhs is <null>")
  | some (r, o) =>
    match c.partner? (instanceId r) with
    | some partner =>
      if partner = instanceId l then some (true, c)
      else some (false, c.tallyObjects (some l) (some r))
    | none =>
      if c.settings.checkType ∧ left.typeName ≠ o.typeName then
        some (false, c.tally ("lhs type = \"" ++ left.typeName ++ "\" : rhs type = \"" ++
          o.typeName ++ "\""))
      else
        compareBodies child left o
          ((c.pair (instanceId r) (instanceId l)).call (instanceId r) (instanceId l))

/-- Starts a comparison at the top, where the name of the left object becomes the path. -/
def enterRoot (c : Comparer) (left : DataObject) : Comparer :=
  { c.start with scope := c.scope.down (rootName left) }

/-- Ends a comparison at the top: the path is left, and the number of miscompares reported. -/
def leaveRoot (c : Comparer) (l : ObjectRef) (left : DataObject)
    (right : Option (ObjectRef × DataObject)) : Comparer :=
  let reporter := match right with
    | none => c.reporter.info "NOCOMP" c.settings.verbosity
      ("Miscompare for " ++ c.scope.path ++ ": rhs is null")
    | some _ => c.reporter
  let c := { c with reporter, scope := c.scope.up }
  if c.result = 0 then c else c.report (rollup c l left right)

/-- Compares two objects, at a depth of at most `fuel`. -/
def compareWithin (g : ObjectGraph) :
    Nat → ObjectRef → Option ObjectRef → Comparer → Option Outcome
  | 0, _, _, _ => none
  | fuel + 1, l, target, c =>
    match g.object? l with
    | none => some (false, c)
    | some left =>
      let right := g.resolve target
      if c.scope.depth = 0 then do
        let (same, c) ←
          compareMet (compareChild (compareWithin g fuel)) l left right (c.enterRoot left)
        let c := c.leaveRoot l left right
        return (c.result = 0 && same, c)
      else do
        let (same, c) ← compareMet (compareChild (compareWithin g fuel)) l left right c
        return (c.result = 0 && same, c)

theorem compareFields_nil
    (child : String → Option ObjectRef → Option ObjectRef → Comparer → Option Outcome)
    (right : List Field) (c : Comparer) : compareFields child [] right c = some (true, c) := rfl

/-- All fields are visited, also after a difference. -/
theorem compareFields_cons
    (child : String → Option ObjectRef → Option ObjectRef → Comparer → Option Outcome)
    (l r : Field) (left right : List Field) (c : Comparer) :
    compareFields child (l :: left) (r :: right) c =
      (compareField child l r c).bind fun first =>
        (compareFields child left right first.2).bind fun rest =>
          some (first.1 && rest.1, rest.2) := rfl

/-- Two objects that are not the same are compared at the level of their name. -/
theorem compareChild_of_ne {l r : ObjectRef} {c : Comparer} (h : l ≠ r)
    (hc : c.settings.policy ≠ .reference)
    (within : ObjectRef → Option ObjectRef → Comparer → Option Outcome) (name : String) :
    compareChild within name (some l) (some r) c =
      (within l (some r) { (if c.scope.depth = 0 then c.start else c) with
        scope := c.scope.down name }).bind fun out =>
          some (out.1, { out.2 with scope := out.2.scope.up }) := by
  unfold compareChild
  by_cases hd : c.scope.depth = 0
  · rw [if_pos hd]
    exact (if_neg h).trans (if_neg hc)
  · rw [if_neg hd]
    exact (if_neg h).trans (if_neg hc)

/-- Leaving the top changes nothing but the path and the reports. -/
theorem leaveRoot_eq (c : Comparer) (l : ObjectRef) (left : DataObject)
    (right : Option (ObjectRef × DataObject)) :
    ∃ reporter, c.leaveRoot l left right = { c with reporter, scope := c.scope.up } := by
  unfold leaveRoot
  by_cases h : c.result = 0
  · exact ⟨_, if_pos h⟩
  · exact ⟨_, if_neg h⟩

section Within

variable {g : ObjectGraph} {l : ObjectRef} {left : DataObject} {c : Comparer}

/-- A comparison at the top. -/
theorem compareWithin_root (hl : g.object? l = some left) (hc : c.scope.depth = 0) (fuel : Nat)
    (target : Option ObjectRef) :
    compareWithin g (fuel + 1) l target c =
      (compareMet (compareChild (compareWithin g fuel)) l left (g.resolve target)
        (c.enterRoot left)).bind fun out =>
          let d := out.2.leaveRoot l left (g.resolve target)
          some (d.result = 0 && out.1, d) := by
  rw [compareWithin, hl]
  exact if_pos hc

/-- A comparison below the top. -/
theorem compareWithin_below (hl : g.object? l = some left) (hc : c.scope.depth ≠ 0) (fuel : Nat)
    (target : Option ObjectRef) :
    compareWithin g (fuel + 1) l target c =
      (compareMet (compareChild (compareWithin g fuel)) l left (g.resolve target) c).bind fun out =>
        some (out.2.result = 0 && out.1, out.2) := by
  rw [compareWithin, hl]
  exact if_neg hc

end Within

end Comparer

namespace ObjectGraph

variable (g : ObjectGraph)

/-- The number of fields of all objects. -/
def fieldCount : Nat := (g.objects.toList.flatMap DataObject.fields).length

/-- A depth that no comparison that ends goes beyond.  Between two times that the pairing is
forgotten each level pairs another right object, and it is forgotten at most once for each field
and right object unless the comparison never ends. -/
def comparisonBound : Nat := (g.fieldCount * g.size + 1) * g.size + 2

/-- Compares two objects; `none` when that never ends. -/
def compare? (l : ObjectRef) (r : Option ObjectRef) (c : Comparer) : Option Comparer.Outcome :=
  Comparer.compareWithin g g.comparisonBound l r c

/-- Compares two objects under a name; `none` when that never ends. -/
def compareObject? (name : String) (l r : Option ObjectRef) (c : Comparer) :
    Option Comparer.Outcome :=
  Comparer.compareChild (Comparer.compareWithin g g.comparisonBound) name l r c

end ObjectGraph

end FieldAutomation
