import FieldAutomation.Proofs.Comparing.Checking

/-!
# Which names let comparisons end

A comparison forgets its pairs when it finds its path empty.  Under plain names the path is never
empty below the top, and each right object has its hook called once at most.  Under a name that
opens with a bracket, leaving the level of a field empties the path of a comparison that has just
begun, and two objects that refer to themselves twice are compared forever.

* `ObjectGraph.ComparesOnce`: all comparisons end, and no object is compared twice;
* `ObjectGraph.selfLoops`: two objects that refer to themselves twice.

Main statement: `ObjectGraph.comparesOnce_iff_names`.
-/

namespace FieldAutomation

open ObjectGraph (instanceId)

/-- Leaving an indexed level leaves the one below it too. -/
theorem Scope.segments_up_of_indexed {s : Scope} {name top : String}
    (h : s.segments = [name, top]) (hname : isIndexed name = true) : s.up.segments = [] := by
  rw [segments_up, h, List.dropWhile_cons_of_pos hname]
  cases htop : isIndexed top with
  | true => rw [List.dropWhile_cons_of_pos htop]; rfl
  | false => rw [List.dropWhile_cons_of_neg (by simp [htop])]; rfl

/-- Two objects under a name that were paired before: only the level of the name is entered and
left. -/
theorem Comparer.compareChild_paired {g : ObjectGraph} {l r : ObjectRef} {left right : DataObject}
    {c : Comparer} (hl : g.object? l = some left) (hr : g.object? r = some right) (hlr : l ≠ r)
    (hpolicy : c.settings.policy ≠ .reference) (hc : c.scope.depth ≠ 0)
    (hp : c.partner? (instanceId r) = some (instanceId l)) (fuel : Nat) (name : String) :
    compareChild (compareWithin g (fuel + 1)) name (some l) (some r) c =
      some (decide (c.result = 0), { c with scope := (c.scope.down name).up }) := by
  have hresolve : g.resolve (some r) = some (r, right) := ObjectGraph.resolve_eq_some.2 ⟨rfl, hr⟩
  have hdown : ({ c with scope := c.scope.down name } : Comparer).scope.depth ≠ 0 := by
    simp [Scope.depth]
  have hmet : compareMet (compareChild (compareWithin g fuel)) l left (some (r, right))
      { c with scope := c.scope.down name } =
        some (true, { c with scope := c.scope.down name }) := by
    rw [partner?] at hp
    simp [compareMet, partner?, hp]
  rw [compareChild_of_ne hlr hpolicy, if_neg hc, compareWithin_below hl hdown, hresolve, hmet]
  simp

namespace ObjectGraph

/-- All comparisons at the top end, and call no hook twice with the same right object. -/
def ComparesOnce (g : ObjectGraph) : Prop :=
  ∀ l target c, c.scope.depth = 0 →
    ∃ fuel out, Comparer.compareWithin g fuel l target c = some out ∧
      ∃ new, out.2.calls = new ++ c.calls ∧ (new.map Prod.fst).Nodup

/-- Plain names let comparisons end. -/
theorem PlainNames.comparesOnce {g : ObjectGraph} (hnames : g.PlainNames) : g.ComparesOnce := by
  intro l target c hc
  cases hl : g.object? l with
  | none => exact ⟨1, (false, c), by rw [Comparer.compareWithin, hl], [], rfl, List.nodup_nil⟩
  | some left =>
    obtain ⟨same, d, hout, hchk⟩ :=
      Comparer.exists_compareWithin_root target hnames hl hc (Nat.lt_succ_self g.size)
    obtain ⟨reporter, hleave⟩ := d.leaveRoot_eq l left (g.resolve target)
    obtain ⟨new, hpairs, hcalls⟩ := hchk.continues.paired
    have hnodup := hchk.continues.distinct List.nodup_nil
    rw [hpairs, show (c.enterRoot left).pairs = [] from rfl, List.append_nil] at hnodup
    refine ⟨_, _, hout, new, ?_, hnodup⟩
    rw [hleave]
    exact hcalls

/-- An object that refers to one object twice under one name. -/
def twice (name : String) (target : ObjectRef) : DataObject :=
  ⟨"", .fielded 0 "Node" none
    [⟨name, .child (some target), .always⟩, ⟨name, .child (some target), .always⟩]⟩

/-- Two objects that refer to themselves twice. -/
def selfLoops (name : String) : ObjectGraph := ⟨#[twice name 0, twice name 1]⟩

namespace SelfLoops

open Comparer (compareFields compareChild compareMet compareWithin)

variable {name top : String} {fuel : Nat} {c : Comparer}

theorem object?_zero (name : String) : (selfLoops name).object? 0 = some (twice name 0) := rfl

theorem resolve_one (name : String) :
    (selfLoops name).resolve (some 1) = some (1, twice name 1) := rfl

/-- Under an indexed name the second of two fields finds the path empty. -/
theorem compareFields_eq_none (hname : Scope.isIndexed name = true)
    (hpolicy : c.settings.policy ≠ .reference) (hc : c.scope.segments = [top])
    (hp : c.partner? (instanceId 1) = some (instanceId 0))
    (hchild : ∀ d : Comparer, d.scope.segments = [] → d.settings.policy ≠ .reference →
      compareChild (compareWithin (selfLoops name) fuel) name (some 0) (some 1) d = none) :
    compareFields (compareChild (compareWithin (selfLoops name) fuel)) (twice name 0).fields
      (twice name 1).fields c = none := by
  have hdepth : c.scope.depth ≠ 0 := by
    rw [Scope.depth, hc]
    exact Nat.one_ne_zero
  show (compareChild (compareWithin (selfLoops name) fuel) name (some 0) (some 1) c).bind _ = none
  cases fuel with
  | zero => rw [Comparer.compareChild_of_ne Nat.zero_ne_one hpolicy]; rfl
  | succ fuel =>
    -- the first field finds its pair, and leaving its level empties the path
    rw [Comparer.compareChild_paired rfl rfl Nat.zero_ne_one hpolicy hdepth hp]
    have hup : (c.scope.down name).up.segments = [] :=
      Scope.segments_up_of_indexed (by rw [Scope.segments_down, hc]) hname
    have hsecond := hchild { c with scope := (c.scope.down name).up } hup hpolicy
    show (Option.bind (compareChild _ name (some 0) (some 1) _) _).bind _ = none
    rw [hsecond]
    rfl

theorem compareMet_eq_none (hname : Scope.isIndexed name = true)
    (hpolicy : c.settings.policy ≠ .reference) (hc : c.scope.segments = [top])
    (hp : c.partner? (instanceId 1) = none)
    (hchild : ∀ d : Comparer, d.scope.segments = [] → d.settings.policy ≠ .reference →
      compareChild (compareWithin (selfLoops name) fuel) name (some 0) (some 1) d = none) :
    compareMet (compareChild (compareWithin (selfLoops name) fuel)) 0 (twice name 0)
      (some (1, twice name 1)) c = none := by
  have hfields := compareFields_eq_none (c := (c.pair (instanceId 1) (instanceId 0)).call
    (instanceId 1) (instanceId 0)) hname hpolicy hc (c.partner?_call _ _) hchild
  simp only [compareMet, hp]
  rw [if_neg fun h => h.2 rfl]
  show (compareFields _ (twice name 0).fields (twice name 1).fields _).bind _ = none
  rw [hfields]
  rfl

/-- **Once the path is empty**, comparing the two objects goes on forever. -/
theorem compareChild_eq_none (hname : Scope.isIndexed name = true)
    (hpolicy : c.settings.policy ≠ .reference) (hc : c.scope.segments = []) (fuel : Nat) :
    compareChild (compareWithin (selfLoops name) fuel) name (some 0) (some 1) c = none := by
  -- the pairs are forgotten, and so the second field comes to the same place one level deeper
  induction fuel generalizing c with
  | zero => rw [Comparer.compareChild_of_ne Nat.zero_ne_one hpolicy]; rfl
  | succ fuel ih =>
    have hdepth : c.scope.depth = 0 := by
      rw [Scope.depth, hc]
      rfl
    have hdown : ({ c.start with scope := c.scope.down name } : Comparer).scope.depth ≠ 0 := by
      simp [Scope.depth]
    have hmet := compareMet_eq_none (c := { c.start with scope := c.scope.down name }) hname
      hpolicy (by rw [Scope.segments_down, hc]) rfl fun d hd hp => ih hp hd
    rw [Comparer.compareChild_of_ne Nat.zero_ne_one hpolicy, if_pos hdepth,
      Comparer.compareWithin_below (object?_zero name) hdown, resolve_one, hmet]
    rfl

theorem not_comparesOnce (hname : Scope.isIndexed name = true) :
    ¬ (selfLoops name).ComparesOnce := by
  intro h
  obtain ⟨fuel, out, hout, -⟩ := h 0 (some 1) {} rfl
  cases fuel with
  | zero => cases hout
  | succ fuel =>
    have hmet := compareMet_eq_none (c := Comparer.enterRoot {} (twice name 0)) hname nofun rfl rfl
      fun d hd hp => compareChild_eq_none hname hp hd fuel
    rw [Comparer.compareWithin_root (object?_zero name) rfl, resolve_one, hmet] at hout
    cases hout

end SelfLoops

/-- **Exactly the plain names let all comparisons end**, and compare no object twice. -/
theorem comparesOnce_iff_names (names : String → Prop) :
    (∀ g : ObjectGraph, (∀ r o, g.object? r = some o → ∀ f ∈ o.fields, names f.name) →
      g.ComparesOnce) ↔ ∀ name, names name → Scope.isIndexed name = false := by
  constructor
  · intro h name hname
    by_contra hindexed
    rw [Bool.not_eq_false] at hindexed
    refine SelfLoops.not_comparesOnce hindexed (h _ ?_)
    refine forall_object?_iff.2 fun o ho f hf => ?_
    obtain rfl | rfl : o = twice name 0 ∨ o = twice name 1 := by simpa [selfLoops] using ho
    all_goals
      obtain rfl : f = _ := by simpa [twice, DataObject.fields] using hf
      exact hname
  · intro h g hg
    exact PlainNames.comparesOnce fun r o ho f hf => h _ (hg r o ho f hf)

end ObjectGraph

end FieldAutomation
