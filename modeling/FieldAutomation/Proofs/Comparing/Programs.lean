import FieldAutomation.Proofs.Comparing.Hooks

/-!
# Programs of a comparer

A compare hook may do more than compare: it may keep miscompares with messages of its own, move
the path as it likes and tell other things in reports.  What is true of a comparer whatever it is
made to do is proved of all programs of its operations, in any order.

* `CompareOp`: an operation; `CompareOp.perform`: what it does;
* `CompareProgram`: operations in a row, each chosen by what is known so far;
  `CompareProgram.run`: what they do;
* `Comparer.comparePrograms`: two objects compared by hooks that are such programs;
* `CompareHook.toProgram`: a hook that only compares, as a program.

Main statement: `Comparer.comparePrograms_fieldHook` (comparing by fields is a special case).
-/

namespace FieldAutomation

open Comparer (Outcome compareChild)

/-- An operation of a comparer. -/
inductive CompareOp where
  | word (name : String) (left right : UInt64) (size : Nat) (radix : Radix)
  | number (name : String) (left right size : Nat) (radix : Radix)
  | real (name : String) (left right : Binary64)
  | string (name left right : String)
  /-- Compares two objects under a name. -/
  | object (name : String) (left right : Option ObjectRef)
  /-- Compares two objects at the level that is reached. -/
  | compare (left : ObjectRef) (right : Option ObjectRef)
  /-- Keeps a miscompare. -/
  | message (text : String)
  /-- Keeps a miscompare of the identities of two objects. -/
  | identities (left right : Option ObjectRef)
  /-- Moves the path. -/
  | move (step : Scope.Move)
  /-- Reports anything but a miscompare. -/
  | tell (report : Report) (other : report.id ≠ "MISCMP")
  /-- Notes the state of the comparer. -/
  | note

/-- What an operation does.  `within` compares two objects one level deeper. -/
def CompareOp.perform (within : ObjectRef → Option ObjectRef → Comparer → Option Outcome)
    (op : CompareOp) (c : Comparer) : Option Outcome :=
  match op with
  | word name left right size radix => some (c.compareWord name left right size radix)
  | number name left right size radix => some (c.compareNumber name left right size radix)
  | real name left right => some (c.compareReal name left right)
  | string name left right => some (c.compareString name left right)
  | object name left right => compareChild within name left right c
  | compare left right => within left right c
  | message text => some (false, c.tally text)
  | identities left right => some (false, c.tallyObjects left right)
  | move step => some (true, { c with scope := c.scope.move step })
  | tell report _ => some (true, { c with reporter := c.reporter.report report })
  | note => some (true, { c with notes := c.notes ++ [⟨c.scope.path, c.result, c.pairs.length⟩] })

/-- A program of operations, and its answer. -/
inductive CompareProgram where
  | done (verdict : Bool)
  /-- Looks at the comparer. -/
  | look (next : Comparer → CompareProgram)
  /-- An operation, and what follows on its outcome. -/
  | act (op : CompareOp) (next : Bool → CompareProgram)

/-- What a program does.  `within` compares two objects one level deeper. -/
def CompareProgram.run (within : ObjectRef → Option ObjectRef → Comparer → Option Outcome) :
    CompareProgram → Comparer → Option Outcome
  | done verdict, c => some (verdict, c)
  | look next, c => (next c).run within c
  | act op next, c => do
    let (same, c) ← op.perform within c
    (next same).run within c

namespace Comparer

/-- Compares two objects at one level, by the given hooks. -/
def compareAt (g : ObjectGraph) (hook : ObjectRef → ObjectRef → Comparer → Option Outcome)
    (l : ObjectRef) (target : Option ObjectRef) (c : Comparer) : Option Outcome :=
  match g.object? l with
  | none => some (false, c)
  | some left =>
    let right := g.resolve target
    if c.scope.depth = 0 then do
      let (same, c) ← compareMetBy (hook l) l left right (c.enterRoot left)
      let c := c.leaveRoot l left right
      return (c.result = 0 && same, c)
    else do
      let (same, c) ← compareMetBy (hook l) l left right c
      return (c.result = 0 && same, c)

/-- Compares two objects by the given programs, at a depth of at most `fuel`. -/
def comparePrograms (g : ObjectGraph) (programs : ObjectRef → ObjectRef → CompareProgram) :
    Nat → ObjectRef → Option ObjectRef → Comparer → Option Outcome
  | 0 => fun _ _ _ => none
  | fuel + 1 => compareAt g fun l r => (programs l r).run (comparePrograms g programs fuel)

end Comparer

/-! ### Hooks as programs -/

namespace CompareHook

/-- A hook as a program that goes on with its answer. -/
def toProgram : CompareHook → (Bool → CompareProgram) → CompareProgram
  | done verdict, k => k verdict
  | look next, k => .look fun c => (next c).toProgram k
  | number name left right size radix next, k =>
    .act (.number name left right size radix) fun same => (next same).toProgram k
  | real name left right next, k =>
    .act (.real name left right) fun same => (next same).toProgram k
  | string name left right next, k =>
    .act (.string name left right) fun same => (next same).toProgram k
  | object name left right next, k =>
    .act (.object name left right) fun same => (next same).toProgram k
  | compare left right next, k =>
    .act (.compare left right) fun same => (next same).toProgram k
  | level name inner next, k =>
    .act (.move (.down name)) fun _ => inner.toProgram fun same =>
      .act (.move .up) fun _ => (next same).toProgram k
  | element index inner next, k =>
    .act (.move (.downElement index)) fun _ => inner.toProgram fun same =>
      .act (.move .upElement) fun _ => (next same).toProgram k
  | note next, k => .act .note fun _ => next.toProgram k

/-- As a program a hook does the same. -/
theorem run_toProgram {within : ObjectRef → Option ObjectRef → Comparer → Option Outcome}
    (hook : CompareHook) (k : Bool → CompareProgram) (c : Comparer) :
    (hook.toProgram k).run within c =
      (hook.run within c).bind fun out => (k out.1).run within out.2 := by
  induction hook generalizing k c with
  | done verdict => rfl
  | look next ih => exact ih c k c
  | number _ _ _ _ _ next ih | real _ _ _ next ih | string _ _ _ next ih => exact ih _ k _
  | object name l r next ih | compare l r next ih =>
    simp only [toProgram, CompareProgram.run, run, CompareOp.perform, ih]
    exact (Option.bind_assoc ..).symm
  | level name inner next ihi ih | element index inner next ihi ih =>
    simp only [toProgram, CompareProgram.run, run, CompareOp.perform, Option.bind_eq_bind,
      Option.bind_some, ihi, ih, Option.bind_assoc]
    rfl
  | note next ih => exact ih k _

end CompareHook

namespace Comparer

variable {g : ObjectGraph} {hooks : ObjectRef → ObjectRef → CompareHook}

theorem comparePrograms_toProgram (fuel : Nat) :
    comparePrograms g (fun l r => (hooks l r).toProgram .done) fuel = compareBy g hooks fuel := by
  induction fuel with
  | zero => rfl
  | succ fuel ih =>
    funext l target c
    have hrun : ∀ l r, ((hooks l r).toProgram .done).run (compareBy g hooks fuel) =
        (hooks l r).run (compareBy g hooks fuel) := by
      intro l r
      funext c
      rw [CompareHook.run_toProgram]
      exact Option.bind_fun_some _
    rw [comparePrograms, ih]
    simp only [hrun]
    rfl

/-- **Comparing by fields** is comparing by programs. -/
theorem comparePrograms_fieldHook (g : ObjectGraph) (fuel : Nat) :
    comparePrograms g (fun l r => (g.fieldHook l r).toProgram .done) fuel =
      compareWithin g fuel := by
  rw [comparePrograms_toProgram]
  funext l target c
  exact compareBy_fieldHook ..

end Comparer

end FieldAutomation
