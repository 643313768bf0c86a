import FieldAutomation.DataObject
import Mathlib.Data.Finset.Card
import Mathlib.Data.Finset.Range
import Mathlib.Logic.Relation

/-!
# Object graphs

What traversals of an object graph have in common.

* `ObjectGraph.field?`: the fields of a graph;
* `ObjectGraph.remaining`: how many objects a traversal has yet to mark, the measure by which it
  ends.

Main statements: `ObjectGraph.field?_setData`, `ObjectGraph.remaining_lt` and
`exists_child_of_reflTransGen` (paths around marked objects).
-/

namespace FieldAutomation

namespace ObjectGraph

variable {g : ObjectGraph} {r : ObjectRef} {index : Nat}

theorem lt_size_of_object? {o : DataObject} (h : g.object? r = some o) : r < g.size := by
  obtain ⟨hr, -⟩ := Array.getElem?_eq_some_iff.1 h
  exact hr

/-- What holds of all objects can be checked one by one. -/
theorem forall_object?_iff {P : DataObject → Prop} :
    (∀ r o, g.object? r = some o → P o) ↔ ∀ o ∈ g.objects.toList, P o := by
  constructor
  · intro h o ho
    obtain ⟨r, hr⟩ := List.mem_iff_getElem?.1 ho
    exact h r o (by rwa [object?, ← Array.getElem?_toList])
  · intro h r o ho
    exact h o (Array.mem_toList_iff.2 (Array.mem_of_getElem? ho))

theorem resolve_eq_some {target : Option ObjectRef} {o : DataObject} :
    g.resolve target = some (r, o) ↔ target = some r ∧ g.object? r = some o := by
  cases target with
  | none => simp [resolve]
  | some s =>
    cases hs : g.object? s with
    | none =>
      simp only [resolve, Option.bind_some, hs, Option.map_none, Option.some.injEq]
      constructor
      · rintro ⟨⟩
      · rintro ⟨rfl, h⟩
        rw [hs] at h
        cases h
    | some o' =>
      simp only [resolve, Option.bind_some, hs, Option.map_some, Option.some.injEq, Prod.mk.injEq]
      constructor
      · rintro ⟨rfl, rfl⟩
        exact ⟨rfl, hs⟩
      · rintro ⟨rfl, h⟩
        exact ⟨rfl, Option.some.inj (hs.symm.trans h)⟩

/-! ### Fields -/

/-- The field at `index` of an object. -/
def field? (g : ObjectGraph) (r : ObjectRef) (index : Nat) : Option Field :=
  (g.object? r).bind fun o => o.fields[index]?

theorem field?_of_object? {o : DataObject} (h : g.object? r = some o) (index : Nat) :
    g.field? r index = o.fields[index]? := by
  rw [field?, h, Option.bind_some]

theorem fields_mapFields_modify (o : DataObject) (index : Nat) (f : Field → Field) :
    (o.mapFields fun fields => fields.modify index f).fields = o.fields.modify index f := by
  unfold DataObject.mapFields
  split
  · next hb => simp [DataObject.fields, hb]
  · next hb => simp [DataObject.fields, hb]

theorem field?_setData (r' index' : Nat) (data : FieldData) :
    (g.setData r index data).field? r' index' =
      if r' = r ∧ index' = index then (g.field? r index).map fun f => { f with data }
      else g.field? r' index' := by
  by_cases hr : r' = r
  · subst hr
    have ho : (g.setData r' index data).object? r' = (g.object? r').map fun o =>
        o.mapFields fun fields => fields.modify index fun f => { f with data } := by
      simp [setData, object?, Array.getElem?_modify]
    cases hg : g.object? r' with
    | none => simp [field?, ho, hg]
    | some o =>
      simp only [field?, ho, hg, Option.map_some, Option.bind_some, fields_mapFields_modify,
        List.getElem?_modify]
      by_cases hi : index' = index
      · subst hi
        simp
      · simp [hi, Ne.symm hi]
  · rw [if_neg fun h => hr h.1, field?, object?_setData_of_ne _ _ hr, field?]

/-! ### Marking objects -/

variable {done done' : ObjectRef → Bool}

/-- The objects that are not marked. -/
def remainingRefs (g : ObjectGraph) (done : ObjectRef → Bool) : Finset ObjectRef :=
  (Finset.range g.size).filter fun r => done r = false

/-- How many objects are not marked. -/
def remaining (g : ObjectGraph) (done : ObjectRef → Bool) : Nat := (g.remainingRefs done).card

theorem mem_remainingRefs : r ∈ g.remainingRefs done ↔ r < g.size ∧ done r = false := by
  rw [remainingRefs, Finset.mem_filter, Finset.mem_range]

theorem remaining_le_size (g : ObjectGraph) (done : ObjectRef → Bool) :
    g.remaining done ≤ g.size := by
  have h := Finset.card_filter_le (Finset.range g.size) fun r => done r = false
  rwa [Finset.card_range] at h

theorem remainingRefs_subset (h : ∀ s, done s = true → done' s = true) :
    g.remainingRefs done' ⊆ g.remainingRefs done := by
  intro s hs
  obtain ⟨hlt, hs⟩ := mem_remainingRefs.1 hs
  refine mem_remainingRefs.2 ⟨hlt, ?_⟩
  rw [← Bool.not_eq_true] at hs ⊢
  exact fun hd => hs (h s hd)

theorem remaining_le (h : ∀ s, done s = true → done' s = true) :
    g.remaining done' ≤ g.remaining done :=
  Finset.card_le_card (remainingRefs_subset h)

/-- Marking an object leaves fewer. -/
theorem remaining_lt (h : ∀ s, done s = true → done' s = true) (hr : r < g.size)
    (hd : done r = false) (hd' : done' r = true) : g.remaining done' < g.remaining done := by
  refine Finset.card_lt_card (Finset.ssubset_iff_subset_ne.2 ⟨remainingRefs_subset h, ?_⟩)
  intro heq
  have hm := mem_remainingRefs.2 ⟨hr, hd⟩
  rw [← heq] at hm
  have hn := (mem_remainingRefs.1 hm).2
  rw [hd'] at hn
  cases hn

end ObjectGraph

/-! ### Paths -/

/-- Whatever is reached around some places is the start, or is reached from one of its successors
around the start as well. -/
theorem exists_child_of_reflTransGen {R : ObjectRef → ObjectRef → Prop} {P : ObjectRef → Prop}
    {a z : ObjectRef} (hz : Relation.ReflTransGen (fun b c => R b c ∧ P c) a z) :
    z = a ∨ ∃ c, R a c ∧ (P c ∧ c ≠ a) ∧
      Relation.ReflTransGen (fun b c => R b c ∧ (P c ∧ c ≠ a)) c z := by
  induction hz with
  | refl => exact Or.inl rfl
  | @tail b z _ hstep ih =>
    by_cases hza : z = a
    · exact Or.inl hza
    rcases ih with rfl | ⟨c, hc, hpc, hcb⟩
    · exact Or.inr ⟨z, hstep.1, ⟨hstep.2, hza⟩, .refl⟩
    · exact Or.inr ⟨c, hc, hpc, hcb.tail ⟨hstep.1, hstep.2, hza⟩⟩

end FieldAutomation
