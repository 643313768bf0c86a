import FieldAutomation.Proofs.Comparing.Checking

/-!
# Compare hooks

The fields of two objects are compared by the hook of the left one.  What is true of comparisons
whatever their hooks do is proved here of all hooks that are made of the operations of a comparer,
in any order and under any names.  A hook may act on what it was told so far, and answer as it
likes.

* `CompareHook`: a hook; `CompareHook.run`: what it does;
* `Comparer.compareBy`: two objects compared by given hooks;
* `ObjectGraph.fieldHook`: the hook that compares objects field by field;
* `CompareHook.LevelsIn`: the names under which a hook compares objects.

Main statements: `Comparer.compareBy_fieldHook` (comparing by fields is a special case) and
`Comparer.exists_compareBy_root` (under plain names all hooks end and forget nothing).
-/

namespace FieldAutomation

open ObjectGraph (instanceId)

/-- A compare hook: what is done with the comparer, step by step, and the answer. -/
inductive CompareHook where
  | done (verdict : Bool)
  /-- Looks at the comparer. -/
  | look (next : Comparer → CompareHook)
  | number (name : String) (left right size : Nat) (radix : Radix) (next : Bool → CompareHook)
  | real (name : String) (left right : Binary64) (next : Bool → CompareHook)
  | string (name left right : String) (next : Bool → CompareHook)
  /-- Compares two objects under a name. -/
  | object (name : String) (left right : Option ObjectRef) (next : Bool → CompareHook)
  /-- Compares two objects at the level that is reached. -/
  | compare (left : ObjectRef) (right : Option ObjectRef) (next : Bool → CompareHook)
  /-- Does something at the level of a name. -/
  | level (name : String) (inner : CompareHook) (next : Bool → CompareHook)
  /-- Does something at the level of an element. -/
  | element (index : Nat) (inner : CompareHook) (next : Bool → CompareHook)
  /-- Notes the state of the comparer. -/
  | note (next : CompareHook)

namespace CompareHook

open Comparer (Outcome compareChild compareWords compareElements compareField compareFields
  compareBodies)

variable {within : ObjectRef → Option ObjectRef → Comparer → Option Outcome}

/-- What a hook does.  `within` compares two objects one level deeper. -/
def run (within : ObjectRef → Option ObjectRef → Comparer → Option Outcome) :
    CompareHook → Comparer → Option Outcome
  | done verdict, c => some (verdict, c)
  | look next, c => (next c).run within c
  | number name left right size radix next, c =>
    let (same, c) := c.compareNumber name left right size radix
    (next same).run within c
  | real name left right next, c =>
    let (same, c) := c.compareReal name left right
    (next same).run within c
  | string name left right next, c =>
    let (same, c) := c.compareString name left right
    (next same).run within c
  | object name left right next, c => do
    let (same, c) ← compareChild within name left right c
    (next same).run within c
  | compare left right next, c => do
    let (same, c) ← within left right c
    (next same).run within c
  | level name inner next, c => do
    let (same, c) ← inner.run within { c with scope := c.scope.down name }
    (next same).run within { c with scope := c.scope.up }
  | element index inner next, c => do
    let (same, c) ← inner.run within { c with scope := c.scope.downElement index }
    (next same).run within { c with scope := c.scope.upElement }
  | note next, c =>
    next.run within { c with notes := c.notes ++ [⟨c.scope.path, c.result, c.pairs.length⟩] }

/-- All names under which a hook compares objects, or does something at a level of its own, are
allowed.  The names of other fields do not matter. -/
def LevelsIn (names : String → Prop) : CompareHook → Prop
  | done _ => True
  | look next => ∀ c, (next c).LevelsIn names
  | number _ _ _ _ _ next | real _ _ _ next | string _ _ _ next | compare _ _ next =>
    ∀ same, (next same).LevelsIn names
  | object name _ _ next => names name ∧ ∀ same, (next same).LevelsIn names
  | level name inner next =>
    names name ∧ inner.LevelsIn names ∧ ∀ same, (next same).LevelsIn names
  | element _ inner next => inner.LevelsIn names ∧ ∀ same, (next same).LevelsIn names
  | note next => next.LevelsIn names

theorem LevelsIn.mono {names names' : String → Prop} (h : ∀ name, names name → names' name)
    {hook : CompareHook} (hlevels : hook.LevelsIn names) : hook.LevelsIn names' := by
  induction hook with
  | done => trivial
  | look next ih => exact fun c => ih c (hlevels c)
  | number _ _ _ _ _ next ih | real _ _ _ next ih | string _ _ _ next ih | compare _ _ next ih =>
    exact fun same => ih same (hlevels same)
  | object name _ _ next ih => exact ⟨h name hlevels.1, fun same => ih same (hlevels.2 same)⟩
  | level name inner next ihi ih =>
    exact ⟨h name hlevels.1, ihi hlevels.2.1, fun same => ih same (hlevels.2.2 same)⟩
  | element _ inner next ihi ih => exact ⟨ihi hlevels.1, fun same => ih same (hlevels.2 same)⟩
  | note next ih => exact ih hlevels

/-! ### The hook of the fields -/

/-- Two lists of numbers, as far as both go, each pair under its index. -/
def ofWords (name : String) (radix : Radix) :
    Nat → List Nat → List Nat → (Bool → CompareHook) → CompareHook
  | index, l :: left, r :: right, next =>
    .number (name ++ Scope.element index) l r 32 radix fun first =>
      ofWords name radix (index + 1) left right fun rest => next (first && rest)
  | _, _, _, next => next true

/-- Two lists of numbers, as far as both go, each pair at the level of its index. -/
def ofElements (size : Nat) (radix : Radix) :
    Nat → List Nat → List Nat → (Bool → CompareHook) → CompareHook
  | index, l :: left, r :: right, next =>
    .element index (.number "" l r size radix .done) fun first =>
      ofElements size radix (index + 1) left right fun rest => next (first && rest)
  | _, _, _, next => next true

/-- Two fields. -/
def ofField (left right : Field) (next : Bool → CompareHook) : CompareHook :=
  let name := left.name
  .look fun c =>
    if c.includes left then
      match left.data, right.data with
      | .int l size radix, .int r _ _ => .number name l r size radix next
      | .wide l size radix, .wide r _ _ => .number name l r size radix next
      | .real l, .real r => .real name l r next
      | .str l _, .str r _ => .string name l r next
      | .time l radix, .time r _ => .number name l r 64 radix next
      | .array .bytes l _ _, .array .bytes r _ _ =>
        .string name (Hex.encode l) (Hex.encode r) next
      | .array .words l _ radix, .array .words r _ _ => ofWords name radix 0 l r next
      | .elements l size radix, .elements r _ _ =>
        .level name (ofElements size radix 0 l r .done) next
      | .generic l _, .generic r _ => .string name l r next
      | .child l, .child r => .object name l r next
      | .probe, _ => .note (next true)
      | _, _ => next true
    else next true

/-- The fields of two objects, as far as both go. -/
def ofFields : List Field → List Field → (Bool → CompareHook) → CompareHook
  | l :: left, r :: right, next =>
    ofField l r fun first => ofFields left right fun rest => next (first && rest)
  | _, _, next => next true

/-- The bodies of two objects. -/
def ofBodies (left right : DataObject) : CompareHook :=
  match left.body with
  | .bare => .done true
  | .fielded type _ verdict fields =>
    if right.concreteType = some type then
      ofFields fields right.fields fun same => .done (verdict.getD same)
    else .done false

theorem run_ofWords (name : String) (radix : Radix) (index : Nat) (left right : List Nat)
    (next : Bool → CompareHook) (c : Comparer) :
    (ofWords name radix index left right next).run within c =
      (next (compareWords name radix index left right c).1).run within
        (compareWords name radix index left right c).2 := by
  induction left generalizing index right next c with
  | nil => rfl
  | cons l left ih =>
    cases right with
    | nil => rfl
    | cons r right => exact ih ..

theorem run_ofElements (size : Nat) (radix : Radix) (index : Nat) (left right : List Nat)
    (next : Bool → CompareHook) (c : Comparer) :
    (ofElements size radix index left right next).run within c =
      (next (compareElements size radix index left right c).1).run within
        (compareElements size radix index left right c).2 := by
  induction left generalizing index right next c with
  | nil => rfl
  | cons l left ih =>
    cases right with
    | nil => rfl
    | cons r right => exact ih ..

theorem run_ofField (left right : Field) (next : Bool → CompareHook) (c : Comparer) :
    (ofField left right next).run within c =
      (compareField (compareChild within) left right c).bind fun out =>
        (next out.1).run within out.2 := by
  rw [ofField, run, compareField]
  generalize left.data = l, right.data = r
  split
  next =>
    cases l with
    | probe => rfl
    | array kind =>
      cases r with
      | array kind' => cases kind <;> cases kind' <;> first | rfl | exact run_ofWords ..
      | _ => cases kind <;> rfl
    | elements =>
      cases r with
      | elements =>
        dsimp only
        rw [run, run_ofElements]
        rfl
      | _ => rfl
    | _ => cases r <;> rfl
  next => rfl

theorem run_ofFields (left right : List Field) (next : Bool → CompareHook) (c : Comparer) :
    (ofFields left right next).run within c =
      (compareFields (compareChild within) left right c).bind fun out =>
        (next out.1).run within out.2 := by
  induction left generalizing right next c with
  | nil => rfl
  | cons l left ih =>
    cases right with
    | nil => rfl
    | cons r right =>
      rw [ofFields, run_ofField, Comparer.compareFields_cons, Option.bind_assoc]
      refine Option.bind_congr fun first _ => ?_
      rw [ih, Option.bind_assoc]
      rfl

/-- The hook of two bodies compares them. -/
theorem run_ofBodies (left right : DataObject) (c : Comparer) :
    (ofBodies left right).run within c = compareBodies (compareChild within) left right c := by
  unfold ofBodies compareBodies
  cases left.body with
  | bare => rfl
  | fielded type typeName verdict fields =>
    dsimp only
    split
    case isTrue => exact run_ofFields ..
    case isFalse => rfl

section LevelsIn

variable {names : String → Prop} {next : Bool → CompareHook}

theorem levelsIn_ofWords (name : String) (radix : Radix) (index : Nat) (left right : List Nat)
    (hnext : ∀ same, (next same).LevelsIn names) :
    (ofWords name radix index left right next).LevelsIn names := by
  induction left generalizing index right next with
  | nil => exact hnext true
  | cons l left ih =>
    cases right with
    | nil => exact hnext true
    | cons r right => exact fun first => ih _ _ fun rest => hnext (first && rest)

theorem levelsIn_ofElements (size : Nat) (radix : Radix) (index : Nat) (left right : List Nat)
    (hnext : ∀ same, (next same).LevelsIn names) :
    (ofElements size radix index left right next).LevelsIn names := by
  induction left generalizing index right next with
  | nil => exact hnext true
  | cons l left ih =>
    cases right with
    | nil => exact hnext true
    | cons r right =>
      exact ⟨fun _ => trivial, fun first => ih _ _ fun rest => hnext (first && rest)⟩

theorem levelsIn_ofField {left : Field} (hname : names left.name) (right : Field)
    (hnext : ∀ same, (next same).LevelsIn names) : (ofField left right next).LevelsIn names := by
  intro c
  dsimp only
  split
  next =>
    split
    case h_7 => exact levelsIn_ofWords _ _ _ _ _ hnext
    case h_8 => exact ⟨hname, levelsIn_ofElements _ _ _ _ _ fun _ => trivial, hnext⟩
    case h_10 => exact ⟨hname, hnext⟩
    case h_11 | h_12 => exact hnext true
    all_goals exact hnext
  next => exact hnext true

theorem levelsIn_ofFields {left : List Field} (hnames : ∀ f ∈ left, names f.name)
    (right : List Field) (hnext : ∀ same, (next same).LevelsIn names) :
    (ofFields left right next).LevelsIn names := by
  induction left generalizing right next with
  | nil => exact hnext true
  | cons l left ih =>
    cases right with
    | nil => exact hnext true
    | cons r right =>
      exact levelsIn_ofField (hnames l (by simp)) r fun first =>
        ih (fun f hf => hnames f (by simp [hf])) right fun rest => hnext (first && rest)

theorem levelsIn_ofBodies {left : DataObject} (hnames : ∀ f ∈ left.fields, names f.name)
    (right : DataObject) : (ofBodies left right).LevelsIn names := by
  rw [DataObject.fields] at hnames
  unfold ofBodies
  split
  next => trivial
  next hbody =>
    rw [hbody] at hnames
    split
    case isTrue => exact levelsIn_ofFields hnames _ fun _ => trivial
    case isFalse => trivial

end LevelsIn

end CompareHook

namespace Comparer

variable {g : ObjectGraph} {hooks : ObjectRef → ObjectRef → CompareHook} {c : Comparer}
  {l : ObjectRef} {left : DataObject} {n fuel : Nat}

/-! ### Comparing by hooks -/

/-- Compares an object with the one it is met against: by the pairing when that one was met
before, else by their types and the hook. -/
def compareMetBy (hook : ObjectRef → Comparer → Option Outcome) (l : ObjectRef)
    (left : DataObject) (right : Option (ObjectRef × DataObject)) (c : Comparer) :
    Option Outcome :=
  match right with
  | none => some (false, c.tally "rhs is <null>")
  | some (r, o) =>
    match c.partner? (instanceId r) with
    | some partner =>
      if partner = instanceId l then some (true, c)
      else some (false, c.tallyObjects (some l) (some r))
    | none =>
      if c.settings.checkType ∧ left.typeName ≠ o.typeName then
        some (false, c.tally ("lhs type = \"" ++ left.typeName ++ "\" : rhs type = \"" ++
          o.typeName ++ "\""))
      else hook r ((c.pair (instanceId r) (instanceId l)).call (instanceId r) (instanceId l))

/-- Compares two objects by the given hooks, at a depth of at most `fuel`. -/
def compareBy (g : ObjectGraph) (hooks : ObjectRef → ObjectRef → CompareHook) :
    Nat → ObjectRef → Option ObjectRef → Comparer → Option Outcome
  | 0, _, _, _ => none
  | fuel + 1, l, target, c =>
    match g.object? l with
    | none => some (false, c)
    | some left =>
      let right := g.resolve target
      let met := compareMetBy (fun r => (hooks l r).run (compareBy g hooks fuel)) l left right
      if c.scope.depth = 0 then do
        let (same, c) ← met (c.enterRoot left)
        let c := c.leaveRoot l left right
        return (c.result = 0 && same, c)
      else do
        let (same, c) ← met c
        return (c.result = 0 && same, c)

/-- A comparison at the top. -/
theorem compareBy_root (hl : g.object? l = some left) (hc : c.scope.depth = 0) (fuel : Nat)
    (target : Option ObjectRef) :
    compareBy g hooks (fuel + 1) l target c =
      (compareMetBy (fun r => (hooks l r).run (compareBy g hooks fuel)) l left (g.resolve target)
        (c.enterRoot left)).bind fun out =>
          let d := out.2.leaveRoot l left (g.resolve target)
          some (d.result = 0 && out.1, d) := by
  rw [compareBy, hl]
  exact if_pos hc

/-- A comparison below the top. -/
theorem compareBy_below (hl : g.object? l = some left) (hc : c.scope.depth ≠ 0) (fuel : Nat)
    (target : Option ObjectRef) :
    compareBy g hooks (fuel + 1) l target c =
      (compareMetBy (fun r => (hooks l r).run (compareBy g hooks fuel)) l left (g.resolve target)
        c).bind fun out => some (out.2.result = 0 && out.1, out.2) := by
  rw [compareBy, hl]
  exact if_neg hc

end Comparer

/-- The hook that compares objects field by field. -/
def ObjectGraph.fieldHook (g : ObjectGraph) (l r : ObjectRef) : CompareHook :=
  match g.object? l, g.object? r with
  | some left, some right => .ofBodies left right
  | _, _ => .done false

/-- Comparing by fields, the names of the fields are the levels. -/
theorem ObjectGraph.levelsIn_fieldHook {g : ObjectGraph} {names : String → Prop}
    (hnames : ∀ r o, g.object? r = some o → ∀ f ∈ o.fields, names f.name) (l r : ObjectRef) :
    (g.fieldHook l r).LevelsIn names := by
  unfold fieldHook
  split
  next left right hl _ => exact CompareHook.levelsIn_ofBodies (hnames l left hl) right
  next => trivial

namespace Comparer

variable {g : ObjectGraph} {hooks : ObjectRef → ObjectRef → CompareHook} {c d : Comparer}
  {l : ObjectRef} {left : DataObject} {n fuel : Nat}

theorem compareMetBy_fieldHook {within : ObjectRef → Option ObjectRef → Comparer → Option Outcome}
    (hl : g.object? l = some left) (target : Option ObjectRef) (c : Comparer) :
    compareMetBy (fun r => (g.fieldHook l r).run within) l left (g.resolve target) c =
      compareMet (compareChild within) l left (g.resolve target) c := by
  cases hres : g.resolve target with
  | none => rfl
  | some met =>
    obtain ⟨r, right⟩ := met
    have hr := (ObjectGraph.resolve_eq_some.1 hres).2
    have hrun : ∀ c, (g.fieldHook l r).run within c =
        compareBodies (compareChild within) left right c := by
      intro c
      simp only [ObjectGraph.fieldHook, hl, hr, CompareHook.run_ofBodies]
    cases hp : c.partner? (instanceId r) with
    | some partner => simp only [compareMetBy, compareMet, hp]
    | none => simp only [compareMetBy, compareMet, hp, hrun]

/-- **Comparing by fields** is comparing by the hook of the fields. -/
theorem compareBy_fieldHook (g : ObjectGraph) (fuel : Nat) (l : ObjectRef)
    (target : Option ObjectRef) (c : Comparer) :
    compareBy g g.fieldHook fuel l target c = compareWithin g fuel l target c := by
  induction fuel generalizing l target c with
  | zero => rfl
  | succ fuel ih =>
    have hwithin : compareBy g g.fieldHook fuel = compareWithin g fuel := by
      funext l target c
      exact ih l target c
    cases hl : g.object? l with
    | none => rw [compareBy, compareWithin, hl]
    | some left =>
      by_cases hc : c.scope.depth = 0
      · rw [compareBy_root hl hc, compareWithin_root hl hc, hwithin, compareMetBy_fieldHook hl]
      · rw [compareBy_below hl hc, compareWithin_below hl hc, hwithin, compareMetBy_fieldHook hl]

/-! ### Hooks under plain names -/

/-- A step ends, and leaves a comparer that goes on. -/
def Goes (c : Comparer) (out : Option Outcome) : Prop :=
  ∃ same d, out = some (same, d) ∧ Continues c d

/-- `within` goes on below the top, as long as fewer than `n` objects have not been paired. -/
def WithinGoes (g : ObjectGraph) (n : Nat)
    (within : ObjectRef → Option ObjectRef → Comparer → Option Outcome) : Prop :=
  ∀ l target c, c.scope.depth ≠ 0 → g.unpaired c < n → Goes c (within l target c)

section Goes

variable {within : ObjectRef → Option ObjectRef → Comparer → Option Outcome}

theorem goes_compareChild (hwithin : WithinGoes g n within) {name : String}
    (hname : Scope.isIndexed name = false) (left right : Option ObjectRef)
    (hc : c.scope.depth ≠ 0) (hn : g.unpaired c < n) :
    Goes c (compareChild within name left right c) := by
  simp only [compareChild, if_neg hc]
  split
  next => exact ⟨_, _, rfl, .refl c⟩
  next l r =>
    split
    next => exact ⟨_, _, rfl, .refl c⟩
    next =>
      split
      next => exact ⟨_, _, rfl, continues_tallyChild ..⟩
      next =>
        obtain ⟨same, d, hout, hd⟩ := hwithin l (some r) { c with scope := c.scope.down name }
          (by simp [Scope.depth]) hn
        rw [hout]
        exact ⟨_, _, rfl, hd.rescope (Scope.segments_up_of_plain hd.segments hname)⟩
  next => exact ⟨_, _, rfl, continues_tallyChild ..⟩

/-- **Every hook goes on** below the top, whatever it does, if it uses plain names for levels. -/
theorem goes_run (hwithin : WithinGoes g n within) {hook : CompareHook}
    (hlevels : hook.LevelsIn (Scope.isIndexed · = false)) (hc : c.scope.depth ≠ 0)
    (hn : g.unpaired c < n) : Goes c (hook.run within c) := by
  -- what is left of the hook after a step that goes on
  have hnext : ∀ {c d : Comparer} {next : Bool → CompareHook} {same : Bool},
      Continues c d → c.scope.depth ≠ 0 → g.unpaired c < n →
      (∀ {d : Comparer}, d.scope.depth ≠ 0 → g.unpaired d < n → Goes d ((next same).run within d)) →
      Goes c ((next same).run within d) := by
    intro c d next same hd hc hn ih
    obtain ⟨same', e, hout, he⟩ :=
      ih (hd.depth_ne_zero hc) ((ObjectGraph.unpaired_le hd).trans_lt hn)
    exact ⟨same', e, hout, hd.trans he⟩
  induction hook generalizing c with
  | done verdict => exact ⟨_, _, rfl, .refl c⟩
  | look next ih => exact ih c (hlevels c) hc hn
  | number name l r size radix next ih =>
    exact hnext (decides_compareNumber ..).continues hc hn (ih _ (hlevels _))
  | real name l r next ih =>
    exact hnext (decides_compareReal ..).continues hc hn (ih _ (hlevels _))
  | string name l r next ih =>
    exact hnext (decides_compareString ..).continues hc hn (ih _ (hlevels _))
  | object name l r next ih =>
    obtain ⟨same, d, hout, hd⟩ := goes_compareChild hwithin hlevels.1 l r hc hn
    rw [CompareHook.run, hout]
    exact hnext hd hc hn (ih same (hlevels.2 same))
  | compare l r next ih =>
    obtain ⟨same, d, hout, hd⟩ := hwithin l r c hc hn
    rw [CompareHook.run, hout]
    exact hnext hd hc hn (ih same (hlevels same))
  | level name inner next ihi ih =>
    obtain ⟨same, d, hout, hd⟩ := ihi (c := { c with scope := c.scope.down name }) hlevels.2.1
      (by simp [Scope.depth]) hn
    rw [CompareHook.run, hout]
    exact hnext (hd.rescope (Scope.segments_up_of_plain hd.segments hlevels.1)) hc hn
      (ih same (hlevels.2.2 same))
  | element index inner next ihi ih =>
    obtain ⟨same, d, hout, hd⟩ := ihi (c := { c with scope := c.scope.downElement index })
      hlevels.1 (by simp [Scope.depth, Scope.downElement]) hn
    rw [CompareHook.run, hout]
    exact hnext (hd.rescope (Scope.segments_upElement_of_element hd.segments)) hc hn
      (ih same (hlevels.2 same))
  | note next ih =>
    obtain ⟨same, d, hout, hd⟩ := ih (c := { c with
      notes := c.notes ++ [⟨c.scope.path, c.result, c.pairs.length⟩] }) hlevels hc hn
    exact ⟨same, d, hout, (continues_note c _).trans hd⟩

/-- An object that is met goes on, by the pairing or by its hook. -/
theorem goes_compareMetBy (hwithin : WithinGoes g n within) {hook : ObjectRef → CompareHook}
    (hlevels : ∀ r, (hook r).LevelsIn (Scope.isIndexed · = false)) (l : ObjectRef)
    (left : DataObject) (target : Option ObjectRef) (hc : c.scope.depth ≠ 0)
    (hn : g.unpaired c ≤ n) :
    Goes c (compareMetBy (fun r => (hook r).run within) l left (g.resolve target) c) := by
  unfold compareMetBy
  cases hres : g.resolve target with
  | none => exact ⟨_, _, rfl, continues_tally ..⟩
  | some met =>
    obtain ⟨r, right⟩ := met
    have hr := (ObjectGraph.resolve_eq_some.1 hres).2
    cases hp : c.partner? (instanceId r) with
    | some partner =>
      simp only [hp]
      split
      next => exact ⟨_, _, rfl, .refl c⟩
      next => exact ⟨_, _, rfl, continues_tally ..⟩
    | none =>
      simp only [hp]
      split
      next => exact ⟨_, _, rfl, continues_tally ..⟩
      next =>
        -- the object that is paired is one less to come
        have hcall := continues_call (instanceId l) hp
        have hsize := ObjectGraph.lt_size_of_object? hr
        have hless := ObjectGraph.unpaired_call (instanceId l) hsize hp
        obtain ⟨same, d, hout, hd⟩ :=
          goes_run hwithin (hlevels r) (hcall.depth_ne_zero hc) (hless.trans_le hn)
        exact ⟨same, d, hout, hcall.trans hd⟩

end Goes

/-- **A comparison below the top** ends and goes on, whatever its hooks do, when `fuel` goes beyond
the objects that have not been paired. -/
theorem withinGoes_compareBy (hlevels : ∀ l r, (hooks l r).LevelsIn (Scope.isIndexed · = false))
    (fuel : Nat) : WithinGoes g fuel (compareBy g hooks fuel) := by
  -- each level that is entered pairs another object
  induction fuel with
  | zero => exact fun _ _ _ _ hn => absurd hn (Nat.not_lt_zero _)
  | succ fuel ih =>
    intro l target c hc hn
    cases hl : g.object? l with
    | none => exact ⟨false, c, by rw [compareBy, hl], .refl c⟩
    | some left =>
      obtain ⟨same, d, hout, hd⟩ :=
        goes_compareMetBy ih (hlevels l) l left target hc (Nat.le_of_lt_succ hn)
      exact ⟨d.result = 0 && same, d, by rw [compareBy_below hl hc, hout, Option.bind_some], hd⟩

/-- **A comparison at the top** ends, whatever its hooks do. -/
theorem exists_compareBy_root (hlevels : ∀ l r, (hooks l r).LevelsIn (Scope.isIndexed · = false))
    (hl : g.object? l = some left) (target : Option ObjectRef) (hc : c.scope.depth = 0)
    (hfuel : g.size < fuel) :
    ∃ same d, compareBy g hooks fuel l target c =
        some (d.result = 0 && same, d.leaveRoot l left (g.resolve target)) ∧
      Continues (c.enterRoot left) d := by
  obtain ⟨fuel, rfl⟩ := Nat.exists_eq_add_one_of_ne_zero (Nat.ne_zero_of_lt hfuel)
  obtain ⟨same, d, hout, hd⟩ := goes_compareMetBy (withinGoes_compareBy hlevels fuel)
    (hlevels l) l left target (c.depth_enterRoot left)
    ((unpaired_enterRoot_le g c left).trans (Nat.le_of_lt_succ hfuel))
  obtain ⟨reporter, hleave⟩ := leaveRoot_eq d l left (g.resolve target)
  refine ⟨same, d, ?_, hd⟩
  rw [compareBy_root hl hc, hout, Option.bind_some, hleave]

end Comparer

end FieldAutomation
