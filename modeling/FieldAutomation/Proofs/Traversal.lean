import FieldAutomation.Proofs.Packing.Termination

/-!
# Traversals that keep a visit set

Packing, unpacking, recording and copying go through an object graph in the same manner.  A hook
goes through the fields of an object; at a field that refers to an object it makes a call; and the
call asks the visit set.  An object that is being visited is refused with a warning, any other one
is entered, gone through by its own hook, and left.

* `VisitEvent`, `VisitSet.replay?`: what happens to a visit set, and what it makes of the set;
* `Traversal`: the manner, with `Traversal.visit` for a call and `Traversal.steps` for a hook,
  which come with the history of the visit set;
* `Traversal.Lawful`: a traversal that touches its visit set, and warns of cycles, nowhere else;
* `Traversal.Tidy`: what a part of a traversal leaves behind.

Main statement: `Traversal.exists_visit` (a call ends, and leaves the visit set as it found it).
-/

namespace FieldAutomation

open ObjectGraph (instanceId)

/-! ### Histories of a visit set -/

/-- What happens to a visit set. -/
inductive VisitEvent where
  | entered (r : ObjectRef)
  | refused (r : ObjectRef)
  | left (r : ObjectRef)
  deriving DecidableEq, Repr

namespace VisitEvent

/-- The object that was refused. -/
def refused? : VisitEvent → Option ObjectRef
  | refused r => some r
  | entered _ | left _ => none

/-- The objects that were refused, in order. -/
def refusals (history : List VisitEvent) : List ObjectRef := history.filterMap refused?

theorem refusals_append (h h' : List VisitEvent) :
    refusals (h ++ h') = refusals h ++ refusals h' := List.filterMap_append ..

theorem refusals_visited (r : ObjectRef) (h : List VisitEvent) :
    refusals (.entered r :: h ++ [.left r]) = refusals h := by
  simp [refusals, List.filterMap_cons, refused?]

end VisitEvent

open VisitEvent (refusals refusals_append refusals_visited)

namespace VisitSet

/-- A visit set after something happened to it.  An object can be entered only while it is not
being visited, and refused only while it is; and the one that was entered last is left first. -/
def after? (s : VisitSet) : VisitEvent → Option VisitSet
  | .entered r => s.enter? (instanceId r)
  | .refused r => if s.contains (instanceId r) then some s else none
  | .left r =>
    if s.active.head? = some (instanceId r) then some (s.leave (instanceId r)) else none

/-- A visit set after a history; `none` when that cannot have happened. -/
def replay? (s : VisitSet) (history : List VisitEvent) : Option VisitSet :=
  history.foldlM after? s

variable {s t : VisitSet} {r : ObjectRef}

theorem replay?_append (s : VisitSet) (h h' : List VisitEvent) :
    s.replay? (h ++ h') = (s.replay? h).bind (·.replay? h') := List.foldlM_append

theorem replay?_entered (he : s.enter? (instanceId r) = some t) (h : List VisitEvent) :
    s.replay? (.entered r :: h) = t.replay? h := by
  simp [replay?, after?, he]

theorem replay?_left (he : s.enter? (instanceId r) = some t) :
    t.replay? [.left r] = some s := by
  have ht := enter?_eq_some he
  have hl := leave_of_enter? he
  subst ht
  simp [replay?, after?, hl]

theorem replay?_refused (hc : s.contains (instanceId r) = true) :
    s.replay? [.refused r] = some s := by
  simp [replay?, after?, hc]

/-- What comes before a point of a list that was put together. -/
theorem prefix_append_cases {α : Type} {l l' k : List α} (h : k <+: l ++ l') :
    k <+: l ∨ ∃ k', k = l ++ k' ∧ k' <+: l' := by
  rcases List.prefix_or_prefix_of_prefix h (List.prefix_append l l') with hk | ⟨k', rfl⟩
  · exact Or.inl hk
  · exact Or.inr ⟨k', rfl, (List.prefix_append_right_inj l).1 h⟩

/-- A history that ends with the visit set it starts with.  On the way no more than `bound`
objects are visited at a time, besides those that were visited before. -/
structure Returns (s : VisitSet) (bound : Nat) (history : List VisitEvent) : Prop where
  replay : s.replay? history = some s
  nesting : ∀ h, h <+: history → ∃ t, s.replay? h = some t ∧ t.size ≤ s.size + bound

namespace Returns

variable {bound bound' : Nat} {h h' : List VisitEvent}

theorem nil (s : VisitSet) (bound : Nat) : Returns s bound [] where
  replay := rfl
  nesting := by
    intro h hh
    obtain rfl := List.prefix_nil.1 hh
    exact ⟨s, rfl, Nat.le_add_right ..⟩

theorem mono (hr : Returns s bound h) (hb : bound ≤ bound') : Returns s bound' h where
  replay := hr.replay
  nesting := by
    intro h' hh
    obtain ⟨t, ht, hle⟩ := hr.nesting h' hh
    exact ⟨t, ht, by omega⟩

theorem append (hr : Returns s bound h) (hr' : Returns s bound h') :
    Returns s bound (h ++ h') where
  replay := by rw [replay?_append, hr.replay, Option.bind_some, hr'.replay]
  nesting := by
    intro k hk
    rcases prefix_append_cases hk with hk | ⟨k', rfl, hk'⟩
    · exact hr.nesting k hk
    · rw [replay?_append, hr.replay, Option.bind_some]
      exact hr'.nesting k' hk'

theorem refused (hc : s.contains (instanceId r) = true) : Returns s bound [.refused r] where
  replay := replay?_refused hc
  nesting := by
    intro h hh
    rcases List.prefix_cons_iff.1 hh with rfl | ⟨h', rfl, hh'⟩
    · exact ⟨s, rfl, Nat.le_add_right ..⟩
    · obtain rfl := List.prefix_nil.1 hh'
      exact ⟨s, replay?_refused hc, Nat.le_add_right ..⟩

/-- What happens while an object is visited, together with entering and leaving it. -/
theorem visited (he : s.enter? (instanceId r) = some t) (hr : Returns t bound h) :
    Returns s (bound + 1) (.entered r :: h ++ [.left r]) where
  replay := by
    rw [replay?_append, replay?_entered he, hr.replay, Option.bind_some, replay?_left he]
  nesting := by
    have hsize : t.size = s.size + 1 := by rw [enter?_eq_some he]; rfl
    intro k hk
    rw [List.cons_append] at hk
    rcases List.prefix_cons_iff.1 hk with rfl | ⟨k', rfl, hk'⟩
    · exact ⟨s, rfl, Nat.le_add_right ..⟩
    rw [replay?_entered he]
    rcases prefix_append_cases hk' with hk' | ⟨l, rfl, hl⟩
    · obtain ⟨u, hu, hle⟩ := hr.nesting k' hk'
      exact ⟨u, hu, by omega⟩
    rw [replay?_append, hr.replay, Option.bind_some]
    rcases List.prefix_cons_iff.1 hl with rfl | ⟨l', rfl, hl'⟩
    · exact ⟨t, rfl, by omega⟩
    · obtain rfl := List.prefix_nil.1 hl'
      exact ⟨s, replay?_left he, Nat.le_add_right ..⟩

end Returns

end VisitSet

/-- What a traversal has done that leaves nothing behind: the visit set is what it was, no more
than `bound` objects were visited at a time, and there is one warning for each object that was
refused. -/
structure CleanRun {ω : Type} (before after : VisitSet) (old new : List ω)
    (warning : ObjectRef → ω) (bound : Nat) (history : List VisitEvent) : Prop where
  restored : after = before
  returns : before.Returns bound history
  warned : new = old ++ (refusals history).map warning

namespace CleanRun

variable {ω : Type} {s t u : VisitSet} {l l' l'' : List ω} {warning : ObjectRef → ω}
  {bound bound' : Nat} {h h' : List VisitEvent}

/-- A traversal that does not ask the visit set. -/
theorem nil (ht : t = s) (hl : l' = l) : CleanRun s t l l' warning bound [] where
  restored := ht
  returns := .nil ..
  warned := by rw [hl]; simp [refusals]

theorem append (hr : CleanRun s t l l' warning bound h)
    (hr' : CleanRun t u l' l'' warning bound h') :
    CleanRun s u l l'' warning bound (h ++ h') where
  restored := hr'.restored.trans hr.restored
  returns := by
    obtain rfl := hr.restored
    exact hr.returns.append hr'.returns
  warned := by
    rw [hr'.warned, hr.warned, refusals_append, List.map_append, List.append_assoc]

theorem mono (hr : CleanRun s t l l' warning bound h) (hb : bound ≤ bound') :
    CleanRun s t l l' warning bound' h :=
  ⟨hr.restored, hr.returns.mono hb, hr.warned⟩

/-- An object that is being visited is refused, with a warning. -/
theorem refused {r : ObjectRef} (hc : s.contains (instanceId r) = true) (ht : t = s)
    (hl : l' = l ++ [warning r]) : CleanRun s t l l' warning bound [.refused r] where
  restored := ht
  returns := .refused hc
  warned := hl

/-- An object is entered before a traversal, and left afterwards. -/
theorem visited {r : ObjectRef} (he : s.enter? (instanceId r) = some t)
    (hr : CleanRun t u l l' warning bound h) :
    CleanRun s (u.leave (instanceId r)) l l' warning (bound + 1)
      (.entered r :: h ++ [.left r]) where
  restored := by rw [hr.restored, VisitSet.leave_of_enter? he]
  returns := hr.returns.visited he
  warned := by rw [hr.warned, refusals_visited]

end CleanRun

/-! ### Traversals -/

/-- What a hook does at one of its items. -/
inductive HookStep (σ κ : Type) where
  /-- Something of its own. -/
  | own (s : σ)
  /-- A call, which is made as things stand. -/
  | call (c : κ)

/-- What a call comes to before the visit set is asked. -/
inductive CallOpening (σ : Type) where
  /-- There is nothing to visit. -/
  | ended (s : σ)
  /-- An object is to be visited. -/
  | found (r : ObjectRef) (o : DataObject) (s : σ)

/-- How an object that was entered is gone through. -/
structure Descent (σ ι : Type) where
  items : List ι
  start : σ
  /-- What is done when the object is left. -/
  leave : σ → σ

/-- A traversal with states `σ`, calls `κ`, and hooks that go through items `ι`. -/
structure Traversal (σ κ ι : Type) where
  visits : σ → VisitSet
  step : ι → σ → HookStep σ κ
  opening : κ → σ → CallOpening σ
  /-- What is done about an object that is being visited. -/
  refuse : ObjectRef → σ → σ
  /-- What is done once an object was entered, with the visit set that has it. -/
  descent : κ → ObjectRef → DataObject → VisitSet → σ → Descent σ ι

namespace Traversal

variable {σ κ ι : Type} (T : Traversal σ κ ι)

/-- A hook goes through its items; `sub` answers its calls. -/
def steps (sub : κ → σ → Option (σ × List VisitEvent)) :
    List ι → σ → Option (σ × List VisitEvent)
  | [], s => some (s, [])
  | i :: rest, s =>
    match T.step i s with
    | .own t => steps sub rest t
    | .call c => do
      let (t, h) ← sub c s
      let (u, h') ← steps sub rest t
      return (u, h ++ h')

/-- A call, with the history of the visit set.  Calls are nested at most `fuel` deep. -/
def visit : Nat → κ → σ → Option (σ × List VisitEvent)
  | 0, _, _ => none
  | fuel + 1, c, s =>
    match T.opening c s with
    | .ended t => some (t, [])
    | .found r o t =>
      match (T.visits t).enter? (instanceId r) with
      | none => some (T.refuse r t, [.refused r])
      | some visits => do
        let d := T.descent c r o visits t
        let (u, h) ← steps T (visit fuel) d.items d.start
        return (d.leave u, .entered r :: h ++ [.left r])

/-- The hook of an object, whose calls are nested at most `fuel` deep. -/
def hook (fuel : Nat) (items : List ι) (s : σ) : Option (σ × List VisitEvent) :=
  T.steps (T.visit fuel) items s

/-! ### Without the history -/

section Forgetting

variable {T} {call : κ → σ → Option σ} {fuel : Nat} {c : κ} {s t : σ} {r : ObjectRef}
  {o : DataObject}

/-- What a hook does at an item when calls are answered by `call`. -/
def stepBy (T : Traversal σ κ ι) (call : κ → σ → Option σ) (i : ι) (s : σ) : Option σ :=
  match T.step i s with
  | .own t => some t
  | .call c => call c s

/-- A hook goes through its items one by one; the history need not be kept. -/
theorem map_fst_hook (h : ∀ c s, (T.visit fuel c s).map Prod.fst = call c s) (items : List ι)
    (s : σ) :
    (T.hook fuel items s).map Prod.fst = items.foldlM (fun s i => T.stepBy call i s) s := by
  induction items generalizing s with
  | nil => rfl
  | cons i rest ih =>
    rw [List.foldlM_cons, hook, steps, stepBy]
    cases T.step i s with
    | own t => exact ih t
    | call c =>
      dsimp only
      rw [← h]
      cases T.visit fuel c s with
      | none => rfl
      | some th =>
        obtain ⟨t, hist⟩ := th
        refine Eq.trans ?_ (ih t)
        simp only [hook]
        cases hrest : T.steps (T.visit fuel) rest t with
        | none => simp [hrest]
        | some uh => simp [hrest]

theorem visit_ended (ho : T.opening c s = .ended t) : T.visit (fuel + 1) c s = some (t, []) := by
  rw [visit, ho]

theorem visit_refused (ho : T.opening c s = .found r o t)
    (he : (T.visits t).enter? (instanceId r) = none) :
    T.visit (fuel + 1) c s = some (T.refuse r t, [.refused r]) := by
  simp only [visit, ho, he]

theorem visit_entered (ho : T.opening c s = .found r o t) {visits : VisitSet}
    (he : (T.visits t).enter? (instanceId r) = some visits) {d : Descent σ ι}
    (hd : T.descent c r o visits t = d) :
    T.visit (fuel + 1) c s = (T.hook fuel d.items d.start).map fun uh =>
      (d.leave uh.1, .entered r :: uh.2 ++ [.left r]) := by
  simp only [visit, ho, he, hd, hook]
  cases T.steps (T.visit fuel) d.items d.start <;> rfl

/-- What is left of a visit without its history. -/
theorem map_fst_visit_entered (h : ∀ c s, (T.visit fuel c s).map Prod.fst = call c s)
    (ho : T.opening c s = .found r o t) {visits : VisitSet}
    (he : (T.visits t).enter? (instanceId r) = some visits) {d : Descent σ ι}
    (hd : T.descent c r o visits t = d) :
    (T.visit (fuel + 1) c s).map Prod.fst =
      (d.items.foldlM (fun s i => T.stepBy call i s) d.start).map d.leave := by
  rw [visit_entered ho he hd, ← map_fst_hook h, Option.map_map, Option.map_map]
  rfl

end Forgetting

/-! ### Lawful traversals -/

variable {ω : Type}

/-- What decides whether a traversal is tidy: the visit set, the objects of the graph, and the
warnings about cycles. -/
structure Alike (graph : σ → ObjectGraph) (warnings : σ → List ω) (s t : σ) : Prop where
  visits : T.visits t = T.visits s
  size : (graph t).size = (graph s).size
  warnings : warnings t = warnings s

/-- The visit set is touched, and a cycle warned of, where an object is entered, refused or left,
and nowhere else. -/
structure Lawful (graph : σ → ObjectGraph) (warnings : σ → List ω) (warning : ObjectRef → ω) :
    Prop where
  own : ∀ {i s t}, T.step i s = .own t → T.Alike graph warnings s t
  ended : ∀ {c s t}, T.opening c s = .ended t → T.Alike graph warnings s t
  found : ∀ {c s r o t}, T.opening c s = .found r o t →
    T.Alike graph warnings s t ∧ r < (graph t).size
  refuse : ∀ r s, T.visits (T.refuse r s) = T.visits s ∧
    (graph (T.refuse r s)).size = (graph s).size ∧
    warnings (T.refuse r s) = warnings s ++ [warning r]
  enter : ∀ c r o visits s, T.visits (T.descent c r o visits s).start = visits ∧
    (graph (T.descent c r o visits s).start).size = (graph s).size ∧
    warnings (T.descent c r o visits s).start = warnings s
  leave : ∀ c r o visits s t,
    T.visits ((T.descent c r o visits s).leave t) = (T.visits t).leave (instanceId r) ∧
    (graph ((T.descent c r o visits s).leave t)).size = (graph t).size ∧
    warnings ((T.descent c r o visits s).leave t) = warnings t

/-- `t` is `s` after a part of a traversal, which left nothing behind. -/
structure Tidy (graph : σ → ObjectGraph) (warnings : σ → List ω) (warning : ObjectRef → ω)
    (s t : σ) (history : List VisitEvent) : Prop extends
    CleanRun (T.visits s) (T.visits t) (warnings s) (warnings t) warning
      ((graph s).unvisited (T.visits s)) history where
  size : (graph t).size = (graph s).size

section Tidy

variable {T} {graph : σ → ObjectGraph} {warnings : σ → List ω} {warning : ObjectRef → ω}
  {s t u : σ} {h h' : List VisitEvent}

theorem Alike.tidy (ha : T.Alike graph warnings s t) : T.Tidy graph warnings warning s t [] :=
  ⟨.nil ha.visits ha.warnings, ha.size⟩

theorem Tidy.trans (ht : T.Tidy graph warnings warning s t h)
    (ht' : T.Tidy graph warnings warning t u h') :
    T.Tidy graph warnings warning s u (h ++ h') := by
  have hr := ht'.toCleanRun
  rw [ObjectGraph.unvisited_eq_of_size_eq ht.size] at hr
  nth_rewrite 2 [ht.restored] at hr
  exact ⟨ht.toCleanRun.append hr, ht'.size.trans ht.size⟩

theorem Alike.trans_tidy (ha : T.Alike graph warnings s t)
    (ht : T.Tidy graph warnings warning t u h) : T.Tidy graph warnings warning s u h :=
  ha.tidy.trans ht

/-- A hook is tidy if the calls it makes are. -/
theorem exists_hook_of_visits (hT : T.Lawful graph warnings warning) {fuel size : Nat}
    {visits : VisitSet}
    (hvisit : ∀ c s, T.visits s = visits → (graph s).size = size →
      ∃ t h, T.visit fuel c s = some (t, h) ∧ T.Tidy graph warnings warning s t h)
    (items : List ι) (hv : T.visits s = visits) (hs : (graph s).size = size) :
    ∃ t h, T.hook fuel items s = some (t, h) ∧ T.Tidy graph warnings warning s t h := by
  induction items generalizing s with
  | nil => exact ⟨s, [], rfl, Alike.tidy ⟨rfl, rfl, rfl⟩⟩
  | cons i rest ih =>
    rw [hook, steps]
    cases hstep : T.step i s with
    | own t =>
      have ha := hT.own hstep
      obtain ⟨u, h, hu, htu⟩ := ih (ha.visits.trans hv) (ha.size.trans hs)
      exact ⟨u, h, hu, ha.trans_tidy htu⟩
    | call c =>
      obtain ⟨t, h, ht, hst⟩ := hvisit c s hv hs
      obtain ⟨u, h', hu, htu⟩ := ih (hst.restored.trans hv) (hst.size.trans hs)
      rw [hook] at hu
      exact ⟨u, h ++ h', by simp [ht, hu], hst.trans htu⟩

/-- **A call ends** within as many levels as there are objects to enter.  It leaves the visit set
as it was, with one warning for each object that was refused. -/
theorem exists_visit (hT : T.Lawful graph warnings warning) (fuel : Nat) (c : κ)
    (hf : (graph s).unvisited (T.visits s) < fuel) :
    ∃ t h, T.visit fuel c s = some (t, h) ∧ T.Tidy graph warnings warning s t h := by
  induction fuel generalizing c s with
  | zero => omega
  | succ fuel ih =>
    cases ho : T.opening c s with
    | ended t => exact ⟨t, [], visit_ended ho, (hT.ended ho).tidy⟩
    | found r o t =>
      obtain ⟨ha, hr⟩ := hT.found ho
      cases he : (T.visits t).enter? (instanceId r) with
      | none =>
        obtain ⟨hv, hs, hw⟩ := hT.refuse r t
        exact ⟨T.refuse r t, [.refused r], visit_refused ho he,
          ha.trans_tidy ⟨.refused (VisitSet.enter?_eq_none_iff.1 he) hv hw, hs⟩⟩
      | some visits =>
        -- entering leaves fewer objects to enter
        obtain ⟨hv, hs, hw⟩ := hT.enter c r o visits t
        have hlt := ObjectGraph.unvisited_enter? hr he
        have hle : (graph t).unvisited (T.visits t) = (graph s).unvisited (T.visits s) := by
          rw [ha.visits, ObjectGraph.unvisited_eq_of_size_eq ha.size]
        obtain ⟨u, h, hu, htidy⟩ := exists_hook_of_visits hT
          (fun c w hw hsize => ih c (by
            rw [hw, ObjectGraph.unvisited_eq_of_size_eq (hsize.trans hs)]
            omega)) (T.descent c r o visits t).items hv rfl
        obtain ⟨hv', hs', hw'⟩ := hT.leave c r o visits t u
        refine ⟨(T.descent c r o visits t).leave u, .entered r :: h ++ [.left r], ?_, ?_⟩
        · rw [visit_entered ho he rfl, hu, Option.map_some]
        have hrun := htidy.toCleanRun
        rw [hv, hw, ObjectGraph.unvisited_eq_of_size_eq hs] at hrun
        refine ha.trans_tidy ⟨?_, hs'.trans (htidy.size.trans hs)⟩
        rw [hv', hw']
        exact (hrun.visited he).mono hlt

/-- A hook ends as well. -/
theorem exists_hook (hT : T.Lawful graph warnings warning) {fuel : Nat} (items : List ι)
    (hf : (graph s).unvisited (T.visits s) < fuel) :
    ∃ t h, T.hook fuel items s = some (t, h) ∧ T.Tidy graph warnings warning s t h :=
  exists_hook_of_visits hT (fun c w hv hs => exists_visit hT fuel c (by
    rwa [hv, ObjectGraph.unvisited_eq_of_size_eq hs])) items rfl rfl

end Tidy

end Traversal

end FieldAutomation
