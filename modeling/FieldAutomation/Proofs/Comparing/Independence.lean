import FieldAutomation.Proofs.Comparing.Levels
import FieldAutomation.Proofs.Packing.Independence

/-!
# A comparer does not remember

A comparison at the top starts with nothing paired and nothing found, and its path is the name of
the left object.  What a comparer did before is with it all the same: reports pile up, and so do
notes and events.  None of it is looked at.  A comparer with a past does what a new one does, and
the past stays where it is.

* `Comparer.Past`, `Comparer.withPast`: what is left of earlier comparisons;
* `CompareHook.Blind`: the hooks that do not look at it;
* `Comparer.Alike`: what can be seen of two comparers after the same comparison.

Main statements: `Comparer.compareBy_withPast` (a past changes nothing) and
`Comparer.comparisons_alike` (two comparers with pasts of their own).
-/

namespace FieldAutomation

open ObjectGraph (instanceId)

namespace Reporter

/-- A reporter that got other reports before. -/
def after (r : Reporter) (past : List Report) : Reporter := { r with reports := past ++ r.reports }

@[simp] theorem report_after (r : Reporter) (past : List Report) (report : Report) :
    (r.after past).report report = (r.report report).after past := by
  have ha : (r.after past).accepts report = r.accepts report := rfl
  unfold Reporter.report
  rw [ha]
  split
  · simp [after]
  · rfl

end Reporter

namespace Comparer

/-- What a comparer carries along of what it did before. -/
structure Past where
  reports : List Report := []
  notes : List CompareNote := []
  events : List CompareEvent := []

/-- A comparer that has a past. -/
def withPast (c : Comparer) (past : Past) : Comparer :=
  { c with
    reporter := c.reporter.after past.reports
    notes := past.notes ++ c.notes
    events := c.events ++ past.events }

/-- The past of a comparer. -/
def past (c : Comparer) : Past := ⟨c.reporter.reports, c.notes, c.events⟩

/-- A new comparer, with a reporter of the same threshold. -/
def fresh (c : Comparer) : Comparer :=
  { settings := c.settings, reporter := { maxVerbosity := c.reporter.maxVerbosity } }

/-- An outcome with a past. -/
def Outcome.withPast (out : Outcome) (past : Past) : Outcome := (out.1, out.2.withPast past)

/-- A comparer that starts at the top is a new one with a past. -/
theorem enterRoot_eq_withPast {c : Comparer} (hc : c.scope.depth = 0) (left : DataObject) :
    c.enterRoot left = (c.fresh.enterRoot left).withPast c.past := by
  have hs : c.scope.segments = [] := List.eq_nil_of_length_eq_zero hc
  simp [enterRoot, start, fresh, withPast, past, Reporter.after, Scope.down, hs]

section WithPast

variable (c : Comparer) (past : Past)

theorem report_withPast (message : String) :
    (c.withPast past).report message = (c.report message).withPast past := by
  simp [report, withPast]

theorem tally_withPast (message : String) :
    (c.withPast past).tally message = (c.tally message).withPast past := by
  let d : Comparer := { c with
    result := c.result + 1
    text := c.text ++ Miscompare.line ⟨c.scope.path, message⟩
    events := .kept ⟨c.scope.path, message⟩ :: c.events }
  let single := "Miscompare for " ++ c.scope.path ++ ": " ++ message
  have htally : (c.withPast past).tally message =
      if d.result ≤ c.settings.showMax then (d.withPast past).report single
      else d.withPast past := rfl
  rw [htally, report_withPast, ← apply_ite (withPast · past)]
  rfl

theorem tallyField_withPast (name message : String) :
    (c.withPast past).tallyField name message = (c.tallyField name message).withPast past :=
  congrArg (fun d : Comparer => { d with scope := d.scope.unsetPending name })
    (tally_withPast { c with scope := c.scope.setPending name } past message)

theorem tallyChild_withPast (name : String) (left right : Option ObjectRef) :
    (c.withPast past).tallyChild name left right = (c.tallyChild name left right).withPast past :=
  tallyField_withPast c past name (sides (handleText left) (handleText right))

theorem compareNumber_withPast (name : String) (left right size : Nat) (radix : Radix) :
    (c.withPast past).compareNumber name left right size radix =
      Outcome.withPast (c.compareNumber name left right size radix) past := by
  rw [compareNumber_eq, compareNumber_eq]
  split
  · rfl
  · rw [tallyField_withPast]
    rfl

theorem compareReal_withPast (name : String) (left right : Binary64) :
    (c.withPast past).compareReal name left right =
      Outcome.withPast (c.compareReal name left right) past := by
  unfold compareReal
  split
  · rfl
  · rw [tallyField_withPast]
    rfl

theorem compareString_withPast (name left right : String) :
    (c.withPast past).compareString name left right =
      Outcome.withPast (c.compareString name left right) past := by
  unfold compareString
  split
  · rfl
  · rw [tallyField_withPast]
    rfl

theorem leaveRoot_withPast (l : ObjectRef) (left : DataObject)
    (right : Option (ObjectRef × DataObject)) :
    (c.withPast past).leaveRoot l left right = (c.leaveRoot l left right).withPast past := by
  have hrollup (d : Comparer) :
      (if d.result = 0 then d.withPast past
        else (d.withPast past).report (d.rollup l left right)) =
      (if d.result = 0 then d else d.report (d.rollup l left right)).withPast past := by
    rw [report_withPast, ← apply_ite (withPast · past)]
  cases right with
  | none =>
    have hr : (c.withPast past).reporter = c.reporter.after past.reports := rfl
    simp only [leaveRoot, hr, Reporter.info, Reporter.report_after]
    exact hrollup { c with
      reporter := c.reporter.info "NOCOMP" c.settings.verbosity
        ("Miscompare for " ++ c.scope.path ++ ": rhs is null")
      scope := c.scope.up }
  | some met => exact hrollup { c with scope := c.scope.up }

end WithPast

/-- `within` does not look at the past. -/
def BlindWithin (past : Past)
    (within : ObjectRef → Option ObjectRef → Comparer → Option Outcome) : Prop :=
  ∀ l target c, within l target (c.withPast past) = (within l target c).map (·.withPast past)

variable {past : Past} {within : ObjectRef → Option ObjectRef → Comparer → Option Outcome}

theorem compareChild_withPast (hwithin : BlindWithin past within) (name : String)
    (left right : Option ObjectRef) (c : Comparer) :
    compareChild within name left right (c.withPast past) =
      (compareChild within name left right c).map (·.withPast past) := by
  -- the comparer that goes on, whether it starts anew or not
  have hstart : (if (c.withPast past).scope.depth = 0 then (c.withPast past).start
      else c.withPast past) = (if c.scope.depth = 0 then c.start else c).withPast past := by
    rw [apply_ite (withPast · past)]
    rfl
  unfold compareChild
  rw [hstart]
  generalize (if c.scope.depth = 0 then c.start else c) = d
  cases left with
  | none =>
    cases right with
    | none => rfl
    | some r => exact congrArg (fun e => some (false, e)) (tallyChild_withPast ..)
  | some l =>
    cases right with
    | none => exact congrArg (fun e => some (false, e)) (tallyChild_withPast ..)
    | some r =>
      have hs : (d.withPast past).settings = d.settings := rfl
      dsimp only
      rw [hs, tallyChild_withPast]
      split
      · rfl
      · split
        · rfl
        · have h := hwithin l (some r) { d with scope := d.scope.down name }
          exact Packer.bind_map_comm h fun _ => rfl

end Comparer

namespace CompareHook

open Comparer (Past Outcome BlindWithin compareChild)

/-- A hook that does not look at what happened before. -/
def Blind : CompareHook → Prop
  | done _ => True
  | look next => ∀ c, (next c).Blind ∧ ∀ past, next (c.withPast past) = next c
  | number _ _ _ _ _ next | real _ _ _ next | string _ _ _ next | object _ _ _ next
  | compare _ _ next => ∀ same, (next same).Blind
  | level _ inner next | element _ inner next => inner.Blind ∧ ∀ same, (next same).Blind
  | note next => next.Blind

variable {past : Past} {within : ObjectRef → Option ObjectRef → Comparer → Option Outcome}

/-- What comes of a hook is the same with a past, if what it begins with is, and all that
follows. -/
theorem bind_withPast {x y : Option Outcome} {f : Comparer → Comparer}
    {next : Bool → CompareHook} (hx : x = y.map (·.withPast past))
    (hf : ∀ c, f (c.withPast past) = (f c).withPast past)
    (hnext : ∀ same c, (next same).run within (c.withPast past) =
      ((next same).run within c).map (·.withPast past)) :
    (x.bind fun out => (next out.1).run within (f out.2)) =
      (y.bind fun out => (next out.1).run within (f out.2)).map (·.withPast past) := by
  subst hx
  cases y with
  | none => rfl
  | some out =>
    rw [Option.map_some, Option.bind_some, Option.bind_some]
    exact (congrArg _ (hf out.2)).trans (hnext out.1 (f out.2))

/-- **A hook that does not look back** does the same with a past. -/
theorem run_withPast (hwithin : BlindWithin past within) {hook : CompareHook} (hblind : hook.Blind)
    (c : Comparer) :
    hook.run within (c.withPast past) = (hook.run within c).map (·.withPast past) := by
  induction hook generalizing c with
  | done verdict => rfl
  | look next ih =>
    rw [run, (hblind c).2 past, run]
    exact ih c (hblind c).1 c
  | number name l r size radix next ih =>
    rw [run, Comparer.compareNumber_withPast, run]
    exact ih _ (hblind _) _
  | real name l r next ih =>
    rw [run, Comparer.compareReal_withPast, run]
    exact ih _ (hblind _) _
  | string name l r next ih =>
    rw [run, Comparer.compareString_withPast, run]
    exact ih _ (hblind _) _
  | object name l r next ih =>
    exact bind_withPast (f := id) (Comparer.compareChild_withPast hwithin name l r c)
      (fun _ => rfl) fun same => ih same (hblind same)
  | compare l r next ih =>
    exact bind_withPast (f := id) (hwithin l r c) (fun _ => rfl)
      fun same => ih same (hblind same)
  | level name inner next ihi ih =>
    exact bind_withPast (f := fun d => { d with scope := d.scope.up })
      (ihi hblind.1 { c with scope := c.scope.down name }) (fun _ => rfl)
      fun same => ih same (hblind.2 same)
  | element index inner next ihi ih =>
    exact bind_withPast (f := fun d => { d with scope := d.scope.upElement })
      (ihi hblind.1 { c with scope := c.scope.downElement index }) (fun _ => rfl)
      fun same => ih same (hblind.2 same)
  | note next ih =>
    have h := ih hblind { c with notes := c.notes ++ [⟨c.scope.path, c.result, c.pairs.length⟩] }
    rw [run, run, ← h, Comparer.withPast, Comparer.withPast, List.append_assoc]

variable {next : Bool → CompareHook}

theorem blind_ofWords (name : String) (radix : Radix) (index : Nat) (left right : List Nat)
    (hnext : ∀ same, (next same).Blind) : (ofWords name radix index left right next).Blind := by
  induction left generalizing index right next with
  | nil => exact hnext true
  | cons l left ih =>
    cases right with
    | nil => exact hnext true
    | cons r right => exact fun first => ih _ _ fun rest => hnext (first && rest)

theorem blind_ofElements (size : Nat) (radix : Radix) (index : Nat) (left right : List Nat)
    (hnext : ∀ same, (next same).Blind) : (ofElements size radix index left right next).Blind := by
  induction left generalizing index right next with
  | nil => exact hnext true
  | cons l left ih =>
    cases right with
    | nil => exact hnext true
    | cons r right =>
      exact ⟨fun _ => trivial, fun first => ih _ _ fun rest => hnext (first && rest)⟩

theorem blind_ofField (left right : Field) (hnext : ∀ same, (next same).Blind) :
    (ofField left right next).Blind := by
  -- all that is looked at are the settings
  refine fun c => ⟨?_, fun _ => rfl⟩
  dsimp only
  split
  next =>
    split
    case h_7 => exact blind_ofWords _ _ _ _ _ hnext
    case h_8 => exact ⟨blind_ofElements _ _ _ _ _ fun _ => trivial, hnext⟩
    case h_11 | h_12 => exact hnext true
    all_goals exact hnext
  next => exact hnext true

theorem blind_ofFields (left right : List Field) (hnext : ∀ same, (next same).Blind) :
    (ofFields left right next).Blind := by
  induction left generalizing right next with
  | nil => exact hnext true
  | cons l left ih =>
    cases right with
    | nil => exact hnext true
    | cons r right =>
      exact blind_ofField l r fun first => ih right fun rest => hnext (first && rest)

end CompareHook

/-- Comparing by fields does not look back. -/
theorem ObjectGraph.blind_fieldHook (g : ObjectGraph) (l r : ObjectRef) :
    (g.fieldHook l r).Blind := by
  unfold fieldHook CompareHook.ofBodies
  split
  next =>
    split
    next => trivial
    next =>
      split
      case isTrue => exact CompareHook.blind_ofFields _ _ fun _ => trivial
      case isFalse => trivial
  next => trivial

namespace Comparer

variable {g : ObjectGraph} {hooks : ObjectRef → ObjectRef → CompareHook} {past : Past}
  {c d : Comparer} {l : ObjectRef} {left : DataObject}

theorem compareMetBy_withPast {hook : ObjectRef → Comparer → Option Outcome}
    (hhook : ∀ r c, hook r (c.withPast past) = (hook r c).map (·.withPast past)) (l : ObjectRef)
    (left : DataObject) (right : Option (ObjectRef × DataObject)) (c : Comparer) :
    compareMetBy hook l left right (c.withPast past) =
      (compareMetBy hook l left right c).map (·.withPast past) := by
  have htally : ∀ message, some (false, (c.withPast past).tally message) =
      (some (false, c.tally message)).map (Outcome.withPast · past) := by
    intro message
    rw [tally_withPast]
    rfl
  cases right with
  | none => exact htally "rhs is <null>"
  | some met =>
    obtain ⟨r, o⟩ := met
    have hp : (c.withPast past).partner? (instanceId r) = c.partner? (instanceId r) := rfl
    have hs : (c.withPast past).settings = c.settings := rfl
    simp only [compareMetBy, hp, hs]
    cases c.partner? (instanceId r) with
    | some partner =>
      dsimp only
      split
      · rfl
      · exact htally _
    | none =>
      dsimp only
      split
      · exact htally _
      · exact hhook r ((c.pair (instanceId r) (instanceId l)).call (instanceId r) (instanceId l))

/-- **A comparison does the same with a past**, if its hooks do not look back. -/
theorem compareBy_withPast (hblind : ∀ l r, (hooks l r).Blind) (past : Past) (fuel : Nat) :
    BlindWithin past (compareBy g hooks fuel) := by
  induction fuel with
  | zero => exact fun _ _ _ => rfl
  | succ fuel ih =>
    intro l target c
    cases hl : g.object? l with
    | none =>
      simp only [compareBy, hl]
      rfl
    | some left =>
      have hrun : ∀ r c, (hooks l r).run (compareBy g hooks fuel) (c.withPast past) =
          ((hooks l r).run (compareBy g hooks fuel) c).map (·.withPast past) := fun r =>
        CompareHook.run_withPast ih (hblind l r)
      have hmet := compareMetBy_withPast hrun l left (g.resolve target)
      by_cases hc : c.scope.depth = 0
      · rw [compareBy_root hl (c := c.withPast past) hc, compareBy_root hl hc]
        refine Packer.bind_map_comm (hmet (c.enterRoot left)) fun out => ?_
        dsimp only [Outcome.withPast]
        rw [leaveRoot_withPast]
        rfl
      · rw [compareBy_below hl (c := c.withPast past) hc, compareBy_below hl hc]
        exact Packer.bind_map_comm (hmet c) fun _ => rfl

/-! ### Two comparers -/

/-- What can be seen of the same comparison of two comparers, `c` and `d`. -/
structure Alike (c d : Comparer) (out out' : Outcome) : Prop where
  verdict : out'.1 = out.1
  result : out'.2.result = out.2.result
  text : out'.2.text = out.2.text
  pairs : out'.2.pairs = out.2.pairs
  reports : ∃ reports, c.reporter.Adds out.2.reporter reports ∧
    d.reporter.Adds out'.2.reporter reports
  scope : out.2.scope = {} ∧ out'.2.scope = {}

theorem alike_of_compareBy (hs : d.settings = c.settings)
    (hv : d.reporter.maxVerbosity = c.reporter.maxVerbosity) (hc : c.scope.depth = 0)
    (hd : d.scope.depth = 0) (hl : g.object? l = some left)
    (hblind : ∀ l r, (hooks l r).Blind) (target : Option ObjectRef) (fuel : Nat) (out : Outcome)
    (hout : compareBy g hooks fuel l target c = some out) :
    ∃ out', compareBy g hooks fuel l target d = some out' ∧ Alike c d out out' := by
  have hfresh : d.fresh = c.fresh := by
    rw [fresh, hs, hv, fresh]
  -- at the top it does not matter whether a comparer has a past, and so not which one
  have hpast {e : Comparer} (he : e.scope.depth = 0) :
      compareBy g hooks fuel l target e =
        (compareBy g hooks fuel l target e.fresh).map (·.withPast e.past) := by
    rw [← compareBy_withPast hblind e.past fuel l target e.fresh]
    cases fuel with
    | zero => rfl
    | succ fuel =>
      have hfe : (e.fresh.withPast e.past).scope.depth = 0 := rfl
      rw [compareBy_root hl he, compareBy_root hl hfe, enterRoot_eq_withPast he,
        enterRoot_eq_withPast hfe]
      simp [fresh, withPast, past, Reporter.after]
  have hscope := scope_of_compareBy_root hl hc hout
  rw [hpast hc, Option.map_eq_some_iff] at hout
  obtain ⟨⟨same, e⟩, he, rfl⟩ := hout
  have hout' : compareBy g hooks fuel l target d = some (Outcome.withPast (same, e) d.past) := by
    rw [hpast hd, hfresh, he, Option.map_some]
  have hthreshold := (recedes_compareBy fuel l target c.fresh same e he).threshold
  refine ⟨_, hout', rfl, rfl, rfl, rfl, ⟨e.reporter.reports, ?_, ?_⟩, hscope,
    scope_of_compareBy_root hl hd hout'⟩
  · exact congrArg (Reporter.mk · _) hthreshold
  · exact congrArg (Reporter.mk · _) (hthreshold.trans hv.symm)

/-- **Comparers do not remember.**  Of two comparers with the same settings and the same threshold
of their reporters, each may have done anything before, as long as both are at the top.  If a
comparison of two graphs ends with one of them, it ends with the other.  The verdict, the
miscompares and the pairs are the same, the same reports are added, and no path is left.  So it is
too with all hooks that do not look back. -/
theorem comparisons_alike (hs : d.settings = c.settings)
    (hv : d.reporter.maxVerbosity = c.reporter.maxVerbosity) (hc : c.scope.depth = 0)
    (hd : d.scope.depth = 0) (hl : g.object? l = some left) (target : Option ObjectRef)
    (fuel : Nat) :
    (∀ out, compareWithin g fuel l target c = some out →
      ∃ out', compareWithin g fuel l target d = some out' ∧ Alike c d out out') ∧
    ∀ hooks : ObjectRef → ObjectRef → CompareHook, (∀ l r, (hooks l r).Blind) →
      ∀ out, compareBy g hooks fuel l target c = some out →
        ∃ out', compareBy g hooks fuel l target d = some out' ∧ Alike c d out out' := by
  refine ⟨fun out hout => ?_,
    fun hooks hblind => alike_of_compareBy hs hv hc hd hl hblind target fuel⟩
  rw [← compareBy_fieldHook] at hout ⊢
  exact alike_of_compareBy hs hv hc hd hl g.blind_fieldHook target fuel out hout

/-- Two objects with different numbers. -/
def fiveAndSix : ObjectGraph where
  objects := #[⟨"five", .fielded 0 "Number" none [⟨"number", .int 5 8 .dec, .always⟩]⟩,
    ⟨"six", .fielded 0 "Number" none [⟨"number", .int 6 8 .dec, .always⟩]⟩]

/-- A new comparer, and one that is left with a field at hand, a pair and a miscompare. -/
theorem comparisons_alike_stale :
    let c : Comparer := {}
    let d : Comparer :=
      { scope := { pending := "old" }, pairs := [(instanceId 1, instanceId 1)],
        result := 1, text := "old: rhs is <null>\n", reporter := c.reporter.error "OLD" "old" }
    ∃ out out', compareWithin fiveAndSix 2 0 (some 1) c = some out ∧ out.2.text =
        "five.number: lhs = 5 : rhs = 6\n" ∧
      compareWithin fiveAndSix 2 0 (some 1) d = some out' ∧ Alike c d out out' := by
  intro c d
  obtain ⟨out, hout⟩ : ∃ out, compareWithin fiveAndSix 2 0 (some 1) c = some out := ⟨_, rfl⟩
  obtain ⟨out', hout', halike⟩ :=
    (comparisons_alike (c := c) (d := d) (g := fiveAndSix) rfl rfl rfl rfl rfl (some 1) 2).1 out
      hout
  refine ⟨out, out', hout, ?_, hout', halike⟩
  cases hout
  decide

end Comparer

end FieldAutomation
