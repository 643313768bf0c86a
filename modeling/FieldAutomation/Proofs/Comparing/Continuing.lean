import FieldAutomation.Comparer.Objects
import FieldAutomation.Proofs.Graph

/-!
# Going on with a comparison

What the steps of a comparison leave of a comparer as long as the path is not empty: they add
pairs and miscompares, and come back to the level they started from.  Leaving a level restores the
one above it only if its name is plain, so names that open with a bracket are excluded.

* `Comparer.Tallies`: a comparer before and after it kept miscompares;
* `Comparer.Continues`: a comparer before and after a part of a comparison;
* `ObjectGraph.PlainNames`: the graphs whose fields have plain names;
* `ObjectGraph.unpaired`: how many objects have not been paired, the measure.

Main statements: `Comparer.Continues.trans`, `Comparer.continues_tally`,
`Comparer.continues_call` and `ObjectGraph.unpaired_call`.
-/

namespace FieldAutomation

open ObjectGraph (instanceId)

/-- Leaving the level on top under a plain name restores the segments below it. -/
theorem Scope.segments_up_of_plain {s : Scope} {name : String} {rest : List String}
    (h : s.segments = name :: rest) (hname : isIndexed name = false) : s.up.segments = rest := by
  rw [segments_up, h, List.dropWhile_cons_of_neg (by simp [hname]), List.tail_cons]

theorem Scope.segments_upElement_of_element {s : Scope} {index : Nat} {rest : List String}
    (h : s.segments = element index :: rest) : s.upElement.segments = rest := by
  rw [upElement, h]
  simp [isElement_element]

namespace Comparer

/-- `d` is `c` after it kept the miscompares `new`: they are counted, and each has its line in the
text and its event. -/
structure Tallies (c : Comparer) (new : List Miscompare) (d : Comparer) : Prop where
  result : d.result = c.result + new.length
  text : d.text = c.text ++ String.join (new.map Miscompare.line)
  kept : d.kept = new.reverse ++ c.kept

/-- `d` is what a part of a comparison makes of `c`.  Each new pair has its call of a hook. -/
structure Continues (c d : Comparer) : Prop where
  settings : d.settings = c.settings
  segments : d.scope.segments = c.scope.segments
  partner : ∀ {right left}, c.partner? right = some left → d.partner? right = some left
  distinct : (c.pairs.map Prod.fst).Nodup → (d.pairs.map Prod.fst).Nodup
  paired : ∃ new, d.pairs = new ++ c.pairs ∧ d.calls = new ++ c.calls
  tallied : ∃ new, Tallies c new d

variable {c d e : Comparer} {new new' : List Miscompare}

namespace Tallies

theorem refl (c : Comparer) : Tallies c [] c := by
  constructor <;> simp

theorem trans (h : Tallies c new d) (h' : Tallies d new' e) : Tallies c (new ++ new') e where
  result := by rw [h'.result, h.result, List.length_append, Nat.add_assoc]
  text := by rw [h'.text, h.text, List.map_append, String.join_append, String.append_assoc]
  kept := by rw [h'.kept, h.kept, List.reverse_append, List.append_assoc]

end Tallies

namespace Continues

theorem refl (c : Comparer) : Continues c c :=
  ⟨rfl, rfl, id, id, ⟨[], rfl, rfl⟩, [], .refl c⟩

theorem trans (h : Continues c d) (h' : Continues d e) : Continues c e where
  settings := h'.settings.trans h.settings
  segments := h'.segments.trans h.segments
  partner := fun hp => h'.partner (h.partner hp)
  distinct := fun hn => h'.distinct (h.distinct hn)
  paired := by
    obtain ⟨l, hl, hc⟩ := h.paired
    obtain ⟨l', hl', hc'⟩ := h'.paired
    exact ⟨l' ++ l, by rw [hl', hl, List.append_assoc], by rw [hc', hc, List.append_assoc]⟩
  tallied := by
    obtain ⟨new, hnew⟩ := h.tallied
    obtain ⟨new', hnew'⟩ := h'.tallied
    exact ⟨new ++ new', hnew.trans hnew'⟩

/-- The level in between does not matter. -/
theorem rescope {σ τ : Scope} (h : Continues { c with scope := σ } d)
    (hτ : τ.segments = c.scope.segments) : Continues c { d with scope := τ } :=
  ⟨h.settings, hτ, h.partner, h.distinct, h.paired,
    h.tallied.imp fun _ hnew => ⟨hnew.result, hnew.text, hnew.kept⟩⟩

theorem depth_ne_zero (h : Continues c d) (hc : c.scope.depth ≠ 0) : d.scope.depth ≠ 0 := by
  rw [Scope.depth, h.segments]
  exact hc

/-- Miscompares are never forgotten. -/
theorem result_eq_zero (h : Continues c d) (hd : d.result = 0) : c.result = 0 := by
  obtain ⟨new, hnew⟩ := h.tallied
  have hresult := hnew.result
  omega

end Continues

theorem calls_tally (c : Comparer) (message : String) : (c.tally message).calls = c.calls := by
  simp [calls]

theorem kept_tally (c : Comparer) (message : String) :
    (c.tally message).kept = ⟨c.scope.path, message⟩ :: c.kept := by
  simp [kept]

theorem tallies_tally (c : Comparer) (message : String) :
    Tallies c [⟨c.scope.path, message⟩] (c.tally message) where
  result := c.result_tally message
  text := by simp
  kept := c.kept_tally message

theorem continues_tally (c : Comparer) (message : String) : Continues c (c.tally message) where
  settings := c.settings_tally message
  segments := by rw [scope_tally]
  partner := by
    intro right left hp
    rwa [partner?, pairs_tally]
  distinct := by
    rw [pairs_tally]
    exact id
  paired := ⟨[], c.pairs_tally message, c.calls_tally message⟩
  tallied := ⟨_, c.tallies_tally message⟩

/-- A miscompare of a field is named by the field. -/
theorem tallies_tallyField (c : Comparer) (name message : String) :
    Tallies c [⟨(c.scope.setPending name).path, message⟩] (c.tallyField name message) :=
  have h := tallies_tally { c with scope := c.scope.setPending name } message
  ⟨h.result, h.text, h.kept⟩

theorem continues_tallyField (c : Comparer) (name message : String) :
    Continues c (c.tallyField name message) := by
  refine (continues_tally { c with scope := c.scope.setPending name } message).rescope ?_
  rw [Scope.segments_unsetPending, scope_tally, Scope.segments_setPending]

theorem continues_tallyChild (c : Comparer) (name : String) (left right : Option ObjectRef) :
    Continues c (c.tallyChild name left right) := by
  refine (continues_tally { c with scope := c.scope.setPending name } _).rescope ?_
  rw [Scope.segments_unsetPending, tallyObjects, scope_tally, Scope.segments_setPending]

/-- Nothing depends on notes. -/
theorem continues_note (c : Comparer) (note : CompareNote) :
    Continues c { c with notes := c.notes ++ [note] } :=
  have h := Tallies.refl c
  ⟨rfl, rfl, id, id, ⟨[], rfl, rfl⟩, [], h.result, h.text, h.kept⟩

theorem partner?_call (c : Comparer) (right left : InstanceId) :
    ((c.pair right left).call right left).partner? right = some left := by
  simp [partner?, call, pair]

theorem partner?_call_of_ne {right right' left : InstanceId} (h : right' ≠ right) :
    ((c.pair right left).call right left).partner? right' = c.partner? right' := by
  rw [partner?, call, pair, List.lookup_cons, beq_eq_false_iff_ne.2 h]
  rfl

/-- Calling the hook of an object that was not paired before. -/
theorem continues_call {right : InstanceId} (left : InstanceId) (h : c.partner? right = none) :
    Continues c ((c.pair right left).call right left) where
  settings := rfl
  segments := rfl
  partner := by
    intro right' left' hp
    rwa [partner?_call_of_ne]
    rintro rfl
    rw [h] at hp
    cases hp
  distinct := by
    intro hn
    rw [call, pair, List.map_cons, List.nodup_cons]
    refine ⟨fun hm => ?_, hn⟩
    obtain ⟨⟨right', left'⟩, hmem, rfl⟩ := List.mem_map.1 hm
    rw [partner?, List.lookup_eq_none_iff] at h
    simpa using h _ hmem
  paired := ⟨[(right, left)], rfl, rfl⟩
  tallied := ⟨[], (Tallies.refl c).result, (Tallies.refl c).text, rfl⟩

end Comparer

namespace ObjectGraph

variable {g : ObjectGraph} {c d : Comparer}

/-- No field has a name that opens with a bracket. -/
def PlainNames (g : ObjectGraph) : Prop :=
  ∀ r o, g.object? r = some o → ∀ f ∈ o.fields, Scope.isIndexed f.name = false

/-- How many objects have not been paired. -/
def unpaired (g : ObjectGraph) (c : Comparer) : Nat :=
  g.remaining fun r => (c.partner? (instanceId r)).isSome

theorem unpaired_le (h : Comparer.Continues c d) : g.unpaired d ≤ g.unpaired c := by
  refine remaining_le fun s hs => ?_
  obtain ⟨left, hl⟩ := Option.isSome_iff_exists.1 hs
  rw [h.partner hl]
  rfl

/-- Each call of a hook leaves fewer objects that have not been paired. -/
theorem unpaired_call {r : ObjectRef} (left : InstanceId) (hr : r < g.size)
    (h : c.partner? (instanceId r) = none) :
    g.unpaired ((c.pair (instanceId r) left).call (instanceId r) left) < g.unpaired c := by
  refine remaining_lt (fun s hs => ?_) hr (by rw [h]; rfl) ?_
  · obtain ⟨left', hl⟩ := Option.isSome_iff_exists.1 hs
    rw [(Comparer.continues_call left h).partner hl]
    rfl
  · rw [Comparer.partner?_call]
    rfl

end ObjectGraph

end FieldAutomation
