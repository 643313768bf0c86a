import FieldAutomation.Proofs.Comparing.Checking

/-!
# Comparing is looking for a bisimulation

Under plain names a comparison at the top always ends.  It is true exactly if its two objects are
paired by some bisimulation: when it is true, its own pairs are one.  For this the objects of one
type are taken to have the same kinds of fields, as the hooks of a type compare them one by one.

Main statement: `ObjectGraph.exists_compare_iff_bisimulation`.
-/

namespace FieldAutomation

namespace ObjectGraph

variable {g : ObjectGraph} {c : Comparer} {l r : ObjectRef}

/-- **A comparison ends, and is true exactly if a bisimulation pairs its two objects.** -/
theorem exists_compare_iff_bisimulation (hnames : g.PlainNames) (hg : g.Faithful c.settings)
    (ht : g.Typed) (hc : c.scope.depth = 0) :
    ∃ out, g.compare? l (some r) c = some out ∧
      (out.1 = true ↔ ∃ m : Pairing, m r = some l ∧ Bisimulation c.settings g m) := by
  cases hl : g.object? l with
  | none =>
    refine ⟨(false, c), by rw [compare?, comparisonBound, Comparer.compareWithin, hl], ?_⟩
    constructor
    · intro hb
      cases hb
    · rintro ⟨m, hrl, hm⟩
      obtain ⟨left, -, hl', -⟩ := hm l r hrl
      cases hl.symm.trans hl'
  | some left =>
    have hbound : g.size < g.comparisonBound := by
      rw [comparisonBound, Nat.add_mul]
      omega
    obtain ⟨same, d, hout, hchk⟩ :=
      Comparer.exists_compareWithin_root (some r) hnames hl hc hbound
    refine ⟨_, hout, ?_⟩
    rw [Bool.and_eq_true, decide_eq_true_eq]
    constructor
    · -- all pairs are new, so that each has been checked
      rintro ⟨hresult, hsame⟩
      obtain ⟨⟨s, hs, hsl⟩, hpairs⟩ := hchk.sound hg ht hsame hresult
      cases hs
      refine ⟨d.pairing, hsl, fun x y hxy => ?_⟩
      rcases hpairs x y hxy with hold | hnew
      · cases hold
      · exact hnew
    · rintro ⟨m, hrl, hm⟩
      have hnone : (c.enterRoot left).Within m := by
        intro y x hyx
        cases hyx
      obtain ⟨hsame, hresult, -⟩ := hchk.complete hg m hm hnone rfl ⟨r, rfl, hrl⟩
      exact ⟨hresult, hsame⟩

/-- Objects of two types differ, also if these have the same name. -/
example :
    let g : ObjectGraph := ⟨#[⟨"a", .fielded 0 "Node" none []⟩, ⟨"b", .fielded 1 "Node" none []⟩]⟩
    (g.compare? 0 (some 1) {}).map Prod.fst = some false := by decide

/-- A ring of one object, and the same ring with two. -/
def unrolledRing : ObjectGraph where
  objects := #[
    ⟨"one", .fielded 0 "Node" none [⟨"value", .int 5 8 .hex, .always⟩,
      ⟨"next", .child (some 0), .always⟩]⟩,
    ⟨"odd", .fielded 0 "Node" none [⟨"value", .int 0x105 8 .hex, .always⟩,
      ⟨"next", .child (some 2), .always⟩]⟩,
    ⟨"even", .fielded 0 "Node" none [⟨"value", .int 5 8 .hex, .always⟩,
      ⟨"next", .child (some 1), .always⟩]⟩]

theorem plainNames_unrolledRing : unrolledRing.PlainNames :=
  forall_object?_iff.2 (by decide)

theorem faithful_unrolledRing : unrolledRing.Faithful {} where
  verdict := forall_object?_iff.2 (by decide)
  policy := by decide

/-- All objects are nodes, which have a value and a reference each. -/
theorem typed_unrolledRing : unrolledRing.Typed := by
  have hkinds : ∀ r o, unrolledRing.object? r = some o →
      o.fields.map (fun f => f.data.kind) = [.int, .child] := forall_object?_iff.2 (by decide)
  intro x left hl y right hr _
  rw [hkinds x left hl, hkinds y right hr]

/-- Each object of the longer ring is taken for the only one of the shorter ring. -/
theorem bisimulation_unrolledRing :
    Bisimulation {} unrolledRing fun y => if y = 1 ∨ y = 2 then some 0 else none := by
  intro x y hxy
  obtain ⟨hy, rfl⟩ : (y = 1 ∨ y = 2) ∧ 0 = x := by simpa using hxy
  rcases hy with rfl | rfl
  all_goals
    refine ⟨_, _, rfl, rfl, fun _ => rfl, .inr rfl, ?_⟩
    show ∀ x ∈ [(_, _), (_, _)], _
    rw [List.forall_mem_cons, List.forall_mem_singleton]
    refine ⟨fun _ => ?_, fun _ => Or.inr ⟨_, _, rfl, rfl, rfl⟩⟩
    show Bits.truncate _ _ = _
    decide

/-- The shorter ring is equal to the longer one, but not the other way round. -/
theorem compare_iff_bisimulation_unrolledRing :
    (unrolledRing.compare? 0 (some 1) {}).map Prod.fst = some true ∧
      (unrolledRing.compare? 1 (some 0) {}).map Prod.fst = some false := by
  have hcompare := fun l r => exists_compare_iff_bisimulation (l := l) (r := r) (c := {})
    plainNames_unrolledRing faithful_unrolledRing typed_unrolledRing rfl
  constructor
  · obtain ⟨out, hout, hiff⟩ := hcompare 0 1
    rw [hout, Option.map_some, hiff.2 ⟨_, rfl, bisimulation_unrolledRing⟩]
  · obtain ⟨out, hout, hiff⟩ := hcompare 1 0
    rw [hout, Option.map_some, Option.some.injEq, ← Bool.not_eq_true, hiff]
    rintro ⟨m, h0, hm⟩
    -- `next` of the short ring is its only object, which is paired already with another
    obtain ⟨left, right, hl, hr, hlr⟩ := hm 1 0 h0
    cases hl
    cases hr
    have hnext := hlr.fields _ (List.mem_cons_of_mem _ (List.mem_singleton.2 rfl)) rfl
    rcases hnext with heq | ⟨x, y, hx, hy, hyx⟩
    · cases heq
    · cases hx
      cases hy
      cases h0.symm.trans hyx

end ObjectGraph

end FieldAutomation
