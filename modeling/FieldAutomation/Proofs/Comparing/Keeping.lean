import FieldAutomation.Proofs.Comparing.Hooks
import FieldAutomation.Proofs.Comparing.Termination

/-!
# Which names lose no miscompare

Under plain names a comparison at the top ends with all miscompares that were kept while it went
on, whatever its hooks do.  Under a name that opens with a bracket, leaving the level of an object
empties the path, the next object is taken for the beginning of a comparison, and the miscompares
so far are forgotten.

* `ObjectGraph.KeepsAll`: no miscompare is lost;
* `ObjectGraph.forgetful`: hooks that find a miscompare and then compare an object twice.

Main statement: `ObjectGraph.keepsAll_iff_names`.
-/

namespace FieldAutomation

open ObjectGraph (instanceId)

/-- All miscompares that were kept since `c` are in `d`, in order, and the outcome is false if
there are any. -/
def Comparer.Keeps (c : Comparer) (out : Comparer.Outcome) : Prop :=
  ∃ new : List Miscompare, out.2.kept = new.reverse ++ c.kept ∧
    out.2.result = new.length ∧ out.2.text = String.join (new.map Miscompare.line) ∧
    (new ≠ [] → out.1 = false)

namespace ObjectGraph

/-- Every comparison at the top by these hooks ends and keeps all its miscompares. -/
def KeepsAll (g : ObjectGraph) (hooks : ObjectRef → ObjectRef → CompareHook) : Prop :=
  ∀ l left target c fuel, g.object? l = some left → c.scope.depth = 0 → g.size < fuel →
    ∃ out, Comparer.compareBy g hooks fuel l target c = some out ∧ c.Keeps out

/-- Hooks that use plain names for levels lose no miscompare. -/
theorem keepsAll_of_levelsIn {g : ObjectGraph} {hooks : ObjectRef → ObjectRef → CompareHook}
    (hlevels : ∀ l r, (hooks l r).LevelsIn (Scope.isIndexed · = false)) : g.KeepsAll hooks := by
  intro l left target c fuel hl hc hfuel
  obtain ⟨same, d, hout, hd⟩ := Comparer.exists_compareBy_root hlevels hl target hc hfuel
  obtain ⟨new, hnew⟩ := hd.tallied
  -- a comparison begins with nothing found
  have hresult : d.result = new.length := hnew.result.trans (Nat.zero_add _)
  have htext : d.text = String.join (new.map Miscompare.line) :=
    hnew.text.trans String.empty_append
  obtain ⟨reporter, hleave⟩ := d.leaveRoot_eq l left (g.resolve target)
  refine ⟨_, hout, new, ?_, ?_, ?_, fun hne => ?_⟩
  · rw [hleave]
    exact hnew.kept
  · rw [hleave]
    exact hresult
  · rw [hleave]
    exact htext
  · simp [hresult, hne]

theorem size_lt_comparisonBound (g : ObjectGraph) : g.size < g.comparisonBound := by
  rw [comparisonBound, Nat.add_mul]
  omega

/-- **Comparing by fields under plain names** loses no miscompare. -/
theorem PlainNames.keeps_compare? {g : ObjectGraph} (hnames : g.PlainNames) {l : ObjectRef}
    {left : DataObject} (hl : g.object? l = some left) (target : Option ObjectRef) {c : Comparer}
    (hc : c.scope.depth = 0) : ∃ out, g.compare? l target c = some out ∧ c.Keeps out := by
  obtain ⟨out, hout, hkeeps⟩ := keepsAll_of_levelsIn (levelsIn_fieldHook hnames) l left target c
    g.comparisonBound hl hc g.size_lt_comparisonBound
  rw [Comparer.compareBy_fieldHook] at hout
  exact ⟨out, hout, hkeeps⟩

/-! ### Forgetting -/

/-- An object that ends up equal to any, with a number and twice the same object in its fields. -/
def careless (name : String) (value : Nat) (target : ObjectRef) : DataObject :=
  ⟨"", .fielded 0 "Node" (some true)
    [⟨name, .int value 8 .dec, .always⟩, ⟨name, .child (some target), .always⟩,
      ⟨name, .child (some target), .always⟩]⟩

/-- Two objects that differ in a number, and two without fields that they refer to. -/
def forgetful (name : String) : ObjectGraph :=
  ⟨#[careless name 1 2, careless name 2 3, ⟨"", .bare⟩, ⟨"", .bare⟩]⟩

namespace Forgetful

open Comparer (compareField compareFields compareChild compareMet compareWithin)

variable {name : String} {c : Comparer}

theorem object?_two (name : String) : (forgetful name).object? 2 = some ⟨"", .bare⟩ := rfl

theorem object?_zero (name : String) :
    (forgetful name).object? 0 = some (careless name 1 2) := rfl

/-- Comparing the objects without fields finds nothing, and forgets what was found if there is no
path. -/
theorem compareChild_bare (name : String) (fuel : Nat) (hpolicy : c.settings.policy ≠ .reference)
    (hp : c.scope.depth ≠ 0 → c.partner? (instanceId 3) = none) :
    ∃ same d, compareChild (compareWithin (forgetful name) (fuel + 1)) name (some 2) (some 3) c =
        some (same, d) ∧ d.settings = c.settings ∧ d.scope = (c.scope.down name).up ∧
      d.kept = c.kept ∧ (c.scope.depth = 0 → d.result = 0) := by
  have hne : (2 : ObjectRef) ≠ 3 := by decide
  have hdown : ∀ d : Comparer, ({ d with scope := c.scope.down name } : Comparer).scope.depth ≠ 0 :=
    fun _ => by simp [Scope.depth]
  have hbegun : ({ (if c.scope.depth = 0 then c.start else c) with
      scope := c.scope.down name } : Comparer).partner? (instanceId 3) = none := by
    split
    next => rfl
    next hc => exact hp hc
  have hmet : ∀ d : Comparer, d.partner? (instanceId 3) = none →
      compareMet (compareChild (compareWithin (forgetful name) fuel)) 2 ⟨"", .bare⟩
        ((forgetful name).resolve (some 3)) d =
      some (true, (d.pair (instanceId 3) (instanceId 2)).call (instanceId 3) (instanceId 2)) := by
    intro d hd
    show compareMet _ 2 ⟨"", .bare⟩ (some (3, ⟨"", .bare⟩)) d = _
    simp only [compareMet, hd]
    rw [if_neg fun h => h.2 rfl]
    rfl
  rw [Comparer.compareChild_of_ne hne hpolicy,
    Comparer.compareWithin_below (object?_two name) (hdown _), hmet _ hbegun]
  refine ⟨_, _, rfl, ?_, rfl, ?_, fun hc => ?_⟩
  · split <;> rfl
  · split <;> rfl
  · rw [if_pos hc]
    rfl

/-- The second of the two fields finds the path empty. -/
theorem compareFields_forgets (fuel : Nat) (hname : Scope.isIndexed name = true)
    (hpolicy : c.settings.policy ≠ .reference) {top : String} (hc : c.scope.segments = [top])
    (hp : c.partner? (instanceId 3) = none) :
    ∃ d, compareFields (compareChild (compareWithin (forgetful name) (fuel + 1)))
        (careless name 1 2).fields (careless name 2 3).fields c = some (false, d) ∧
      d.kept.length = c.kept.length + 1 ∧ d.result = 0 := by
  have hnumber : c.compareNumber name 1 2 8 .dec = (false, c.tallyField name
      (Comparer.sides (Radix.dec.render 1 8) (Radix.dec.render 2 8))) :=
    (c.compareNumber_eq ..).trans (if_neg (by decide))
  generalize Comparer.sides (Radix.dec.render 1 8) (Radix.dec.render 2 8) = message at hnumber
  have hcont := c.continues_tallyField name message
  have hkept : (c.tallyField name message).kept.length = c.kept.length + 1 :=
    congrArg List.length (Comparer.kept_tally { c with scope := c.scope.setPending name } message)
  have hpartner : (c.tallyField name message).partner? (instanceId 3) = none := by
    rwa [Comparer.partner?, Comparer.pairs_tallyField]
  generalize c.tallyField name message = d at hnumber hcont hkept hpartner
  -- the first field with an object empties the path
  obtain ⟨same, e, he, hsettings, hscope, hkept', -⟩ := compareChild_bare name fuel
    (hcont.settings.symm ▸ hpolicy) fun _ => hpartner
  have hup : e.scope.segments = [] := by
    rw [hscope]
    exact Scope.segments_up_of_indexed (by rw [Scope.segments_down, hcont.segments, hc]) hname
  have hdepth : e.scope.depth = 0 := by
    rw [Scope.depth, hup]
    rfl
  -- so that the second one begins anew
  obtain ⟨same', f, hf, -, -, hkept'', hresult⟩ := compareChild_bare name fuel
    (c := e) (by rw [hsettings, hcont.settings]; exact hpolicy) fun hne => absurd hdepth hne
  refine ⟨f, ?_, by rw [hkept'', hkept', hkept], hresult hdepth⟩
  have hfirst : compareField (compareChild (compareWithin (forgetful name) (fuel + 1)))
      ⟨name, .int 1 8 .dec, .always⟩ ⟨name, .int 2 8 .dec, .always⟩ c = some (false, d) := by
    rw [← hnumber]
    rfl
  have hsecond : compareField (compareChild (compareWithin (forgetful name) (fuel + 1)))
      ⟨name, .child (some 2), .always⟩ ⟨name, .child (some 3), .always⟩ d = some (same, e) := he
  have hthird : compareField (compareChild (compareWithin (forgetful name) (fuel + 1)))
      ⟨name, .child (some 2), .always⟩ ⟨name, .child (some 3), .always⟩ e = some (same', f) := hf
  simp only [careless, DataObject.fields, Comparer.compareFields_cons, hfirst, hsecond, hthird,
    Comparer.compareFields_nil, Option.bind_some, Bool.false_and]

/-- The comparison of the two objects that differ ends with nothing found. -/
theorem not_keepsAll (hname : Scope.isIndexed name = true) :
    ¬ (forgetful name).KeepsAll (forgetful name).fieldHook := by
  intro h
  obtain ⟨out, hout, new, hkept, hresult, -⟩ :=
    h 0 (careless name 1 2) (some 1) {} 6 rfl rfl (show 4 < 6 by decide)
  obtain ⟨d, hd, hlength, hnone⟩ := compareFields_forgets 4
    (c := ((Comparer.enterRoot {} (careless name 1 2)).pair (instanceId 1) (instanceId 0)).call
      (instanceId 1) (instanceId 0)) hname nofun rfl rfl
  have hmet : compareMet (compareChild (compareWithin (forgetful name) 5)) 0 (careless name 1 2)
      ((forgetful name).resolve (some 1)) (Comparer.enterRoot {} (careless name 1 2)) =
        some (true, d) := by
    show compareMet _ 0 (careless name 1 2) (some (1, careless name 2 3)) _ = _
    have hp : (Comparer.enterRoot {} (careless name 1 2)).partner? (instanceId 1) = none := rfl
    simp only [compareMet, hp]
    rw [if_neg fun h => h.2 rfl]
    show (compareFields _ (careless name 1 2).fields (careless name 2 3).fields _).bind _ = _
    rw [hd]
    rfl
  obtain ⟨reporter, hleave⟩ := d.leaveRoot_eq 0 (careless name 1 2)
    ((forgetful name).resolve (some 1))
  rw [Comparer.compareBy_fieldHook, Comparer.compareWithin_root (object?_zero name) rfl,
    hmet, Option.bind_some, Option.some.injEq] at hout
  rw [← hout, hleave] at hkept hresult
  have hnew : new = [] := List.length_eq_zero_iff.1 (hresult.symm.trans hnone)
  rw [hnew] at hkept
  have hzero : d.kept.length = 0 := congrArg List.length hkept
  rw [hlength] at hzero
  exact absurd hzero (Nat.succ_ne_zero _)

theorem names_forgetful {names : String → Prop} (hname : names name) :
    ∀ r o, (forgetful name).object? r = some o → ∀ f ∈ o.fields, names f.name := by
  refine forall_object?_iff.2 fun o ho f hf => ?_
  have hfield : f.name = name := by
    obtain rfl | rfl | rfl :
        o = careless name 1 2 ∨ o = careless name 2 3 ∨ o = ⟨"", .bare⟩ := by
      simpa [forgetful] using ho
    · obtain rfl | rfl | rfl := by simpa [careless, DataObject.fields] using hf
      all_goals rfl
    · obtain rfl | rfl | rfl := by simpa [careless, DataObject.fields] using hf
      all_goals rfl
    · cases hf
  rw [hfield]
  exact hname

end Forgetful

/-- **Exactly the plain names lose no miscompare**, whatever the hooks do under them, and also if
they only compare the fields of the objects. -/
theorem keepsAll_iff_names (names : String → Prop) :
    ((∀ (g : ObjectGraph) (hooks : ObjectRef → ObjectRef → CompareHook),
        (∀ l r, (hooks l r).LevelsIn names) → g.KeepsAll hooks) ↔
      ∀ name, names name → Scope.isIndexed name = false) ∧
    ((∀ g : ObjectGraph, (∀ r o, g.object? r = some o → ∀ f ∈ o.fields, names f.name) →
        g.KeepsAll g.fieldHook) ↔
      ∀ name, names name → Scope.isIndexed name = false) := by
  have hkeeps : (∀ name, names name → Scope.isIndexed name = false) →
      ∀ (g : ObjectGraph) (hooks : ObjectRef → ObjectRef → CompareHook),
        (∀ l r, (hooks l r).LevelsIn names) → g.KeepsAll hooks :=
    fun hnames g hooks hlevels => keepsAll_of_levelsIn fun l r => (hlevels l r).mono hnames
  have hplain : (∀ g : ObjectGraph,
      (∀ r o, g.object? r = some o → ∀ f ∈ o.fields, names f.name) → g.KeepsAll g.fieldHook) →
      ∀ name, names name → Scope.isIndexed name = false := by
    intro h name hname
    by_contra hindexed
    rw [Bool.not_eq_false] at hindexed
    exact Forgetful.not_keepsAll hindexed (h _ (Forgetful.names_forgetful hname))
  exact ⟨⟨fun h => hplain fun g hg => h g _ (levelsIn_fieldHook hg), hkeeps⟩,
    hplain, fun hnames g hg => hkeeps hnames g _ (levelsIn_fieldHook hg)⟩

end ObjectGraph

end FieldAutomation
