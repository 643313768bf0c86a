import FieldAutomation.Proofs.Traversal.Ending

/-!
# Hooks that are entered again

While the hook of an object is being called the object should not be met again: a field that leads
back to it is a cycle, to be warned of and not followed.  The visit set sees to that for the objects
that are entered.  A root that is packed is entered as well, but a root that is recorded is not.  So
the hook of a recorded root is called once more, from within, by a field that leads back to the
root, and only the next time is it refused.

* `HookEvent`, `hookEvents`: when hooks are called, and when they come to their end;
* `NeverReentered`: no hook is called while it is being called already;
* `ObjectGraph.RecordedChild`, `ObjectGraph.Opens`: the references that recording follows;
* `Recording.SameReach`: two recorders that follow the same references.

Main statements: `neverReentered_of_replay?` (what is entered is never entered again),
`Recording.entered_mem_visit` (what a call enters), `ObjectGraph.neverReentered_pack` and
`ObjectGraph.neverReentered_record_iff` (recording enters the root again if and only if it is on a
cycle).
-/

namespace FieldAutomation

open ObjectGraph (instanceId)
open VisitEvent (refusals)

/-! ### Calls of hooks -/

/-- When the hook of an object is called. -/
inductive HookEvent where
  | began (r : ObjectRef)
  | ended (r : ObjectRef)
  deriving DecidableEq, Repr

/-- The hook of an object is called when it is entered, and comes to its end when it is left. -/
def VisitEvent.hookEvent? : VisitEvent → Option HookEvent
  | entered r => some (.began r)
  | left r => some (.ended r)
  | refused _ => none

/-- When hooks are called in the course of a history. -/
def hookEvents (history : List VisitEvent) : List HookEvent :=
  history.filterMap VisitEvent.hookEvent?

/-- The hook of an object has been called, and has not come to its end. -/
def Underway (events : List HookEvent) (r : ObjectRef) : Prop :=
  events.count (.ended r) < events.count (.began r)

instance (events : List HookEvent) (r : ObjectRef) : Decidable (Underway events r) :=
  inferInstanceAs (Decidable (_ < _))

/-- No hook is called while it is being called already. -/
def NeverReentered (events : List HookEvent) : Prop :=
  ∀ before r after, events = before ++ .began r :: after → ¬Underway before r

theorem hookEvents_entered (x : ObjectRef) (h : List VisitEvent) :
    hookEvents (.entered x :: h) = .began x :: hookEvents h := rfl

theorem hookEvents_left (x : ObjectRef) (h : List VisitEvent) :
    hookEvents (.left x :: h) = .ended x :: hookEvents h := rfl

theorem hookEvents_append (h h' : List VisitEvent) :
    hookEvents (h ++ h') = hookEvents h ++ hookEvents h' := List.filterMap_append ..

/-- The calls underway are those of the objects that are being visited, but for those that were
visited before. -/
theorem count_hookEvents {s t : VisitSet} {history : List VisitEvent}
    (h : s.replay? history = some t) (r : ObjectRef) :
    s.active.count (instanceId r) + (hookEvents history).count (.began r) =
      t.active.count (instanceId r) + (hookEvents history).count (.ended r) := by
  induction history generalizing s with
  | nil =>
    cases h
    rfl
  | cons e rest ih =>
    obtain ⟨s', hs', hrest⟩ := Option.bind_eq_some_iff.1 h
    have hcount := ih hrest
    cases e with
    | entered x =>
      rw [VisitSet.enter?_eq_some hs', List.count_cons] at hcount
      rw [hookEvents_entered, List.count_cons, List.count_cons]
      simp only [instanceId, beq_iff_eq, Nat.add_right_cancel_iff, HookEvent.began.injEq,
        reduceCtorEq, if_false] at hcount ⊢
      omega
    | refused x =>
      have hkept : s' = s := by
        rw [VisitSet.after?] at hs'
        split at hs'
        · exact (Option.some.inj hs').symm
        · cases hs'
      rw [hkept] at hcount
      exact hcount
    | left x =>
      rw [VisitSet.after?] at hs'
      split at hs'
      case isFalse => cases hs'
      case isTrue htop =>
        obtain ⟨below, hactive⟩ := List.head?_eq_some_iff.1 htop
        rw [← Option.some.inj hs', VisitSet.leave, hactive, List.erase_cons_head] at hcount
        rw [hookEvents_left, hactive, List.count_cons, List.count_cons, List.count_cons]
        simp only [instanceId, beq_iff_eq, Nat.add_right_cancel_iff, HookEvent.ended.injEq,
          reduceCtorEq, if_false] at hcount ⊢
        omega

/-- An event of hooks comes from what happens to a visit set. -/
theorem exists_of_hookEvents_eq {history : List VisitEvent} {before after : List HookEvent}
    {r : ObjectRef} (h : hookEvents history = before ++ .began r :: after) :
    ∃ k k', history = k ++ .entered r :: k' ∧ hookEvents k = before := by
  obtain ⟨k, rest, rfl, hk, hrest⟩ := List.filterMap_eq_append_iff.1 h
  obtain ⟨skipped, e, k', rfl, hskipped, he, -⟩ := List.filterMap_eq_cons_iff.1 hrest
  cases e with
  | entered x =>
    cases he
    refine ⟨k ++ skipped, k', by simp, ?_⟩
    have hnone : hookEvents skipped = [] := List.filterMap_eq_nil_iff.2 hskipped
    rw [hookEvents_append, hnone, List.append_nil]
    exact hk
  | refused x => cases he
  | left x => cases he

theorem count_eq_zero_iff {s : VisitSet} {r : ObjectRef} :
    s.active.count (instanceId r) = 0 ↔ s.contains (instanceId r) = false := by
  rw [List.count_eq_zero, ← Bool.not_eq_true, VisitSet.contains, List.contains_iff_mem]

/-- When an object is entered, all calls of its hook have come to their end. -/
theorem count_eq_of_entered {s t : VisitSet} {k k' : List VisitEvent} {r : ObjectRef}
    (h : s.replay? (k ++ .entered r :: k') = some t) :
    s.active.count (instanceId r) + (hookEvents k).count (.began r) =
      (hookEvents k).count (.ended r) := by
  rw [VisitSet.replay?_append] at h
  obtain ⟨u, hu, hrest⟩ := Option.bind_eq_some_iff.1 h
  obtain ⟨u', hu', -⟩ := Option.bind_eq_some_iff.1 hrest
  have hfree : u.active.count (instanceId r) = 0 := by
    rw [count_eq_zero_iff, ← Bool.not_eq_true, ← VisitSet.enter?_eq_none_iff]
    intro hnone
    rw [VisitSet.after?, hnone] at hu'
    cases hu'
  rw [count_hookEvents hu r, hfree, Nat.zero_add]

/-- **What is entered is never entered again** while it is being visited. -/
theorem neverReentered_of_replay? {s t : VisitSet} {history : List VisitEvent}
    (h : s.replay? history = some t) : NeverReentered (hookEvents history) := by
  intro before r after hevents
  obtain ⟨k, k', rfl, rfl⟩ := exists_of_hookEvents_eq hevents
  have hcount := count_eq_of_entered h
  rw [Underway]
  omega

theorem began_mem_hookEvents {h : List VisitEvent} {r : ObjectRef} :
    .began r ∈ hookEvents h ↔ .entered r ∈ h := by
  constructor
  · intro hr
    obtain ⟨e, he, heq⟩ := List.mem_filterMap.1 hr
    cases e with
    | entered x => cases heq; exact he
    | refused x => cases heq
    | left x => cases heq
  · exact fun hr => List.mem_filterMap.2 ⟨.entered r, hr, rfl⟩

/-- A root whose hook is called around a history is entered again if the history enters it, and
nothing else is. -/
theorem neverReentered_around_iff {s t : VisitSet} {h : List VisitEvent} {root : ObjectRef}
    (hreplay : s.replay? h = some t)
    (hfree : .entered root ∈ h → s.contains (instanceId root) = false) :
    NeverReentered (.began root :: hookEvents h ++ [.ended root]) ↔ .entered root ∉ h := by
  constructor
  · intro hnever hmem
    obtain ⟨k, k', rfl⟩ := List.append_of_mem hmem
    -- all other calls of the hook have come to their end, but not the one around
    have hdone := hnever (.began root :: hookEvents k) root (hookEvents k' ++ [.ended root])
      (by simp [hookEvents_append, hookEvents_entered])
    have hcount := count_eq_of_entered hreplay
    rw [count_eq_zero_iff.2 (hfree hmem)] at hcount
    simp [Underway] at hdone
    omega
  · intro hnot before r after hevents
    cases before with
    | nil => simp [Underway]
    | cons e before =>
      rw [List.cons_append, List.cons_append] at hevents
      injection hevents with he hrest
      cases after using List.reverseRecOn with
      | nil =>
        obtain ⟨-, hlast⟩ := List.append_inj' hrest rfl
        cases hlast
      | append_singleton after last _ =>
        rw [← List.cons_append, ← List.append_assoc] at hrest
        obtain ⟨hinner, -⟩ := List.append_inj' hrest rfl
        have hr : root ≠ r := by
          rintro rfl
          exact hnot (began_mem_hookEvents.1 (hinner ▸ by simp))
        have hnever := neverReentered_of_replay? hreplay _ _ _ hinner
        subst he
        simpa [Underway, List.count_cons, hr] using hnever

/-! ### What recording follows -/

namespace ObjectGraph

/-- A field that is recorded refers to an object. -/
def LeadsTo (g : ObjectGraph) (settings : RecorderSettings) (f : Field) (c : ObjectRef) : Prop :=
  f.visibility.holds settings.physicalFields settings.abstractFields = true ∧
    f.data = .child (some c) ∧ (g.object? c).isSome = true

/-- A field of `b` that is recorded refers to `c`. -/
def RecordedChild (g : ObjectGraph) (settings : RecorderSettings) (b c : ObjectRef) : Prop :=
  ∃ o f, g.object? b = some o ∧ f ∈ o.fields ∧ g.LeadsTo settings f c

/-- Recording goes on from `b` to `c`, which is not among the objects being visited. -/
def Opens (g : ObjectGraph) (settings : RecorderSettings) (visits : VisitSet) (b c : ObjectRef) :
    Prop :=
  g.RecordedChild settings b c ∧ visits.contains (instanceId c) = false

end ObjectGraph

namespace Recording

variable {g : ObjectGraph} {s t u : Recording} {fuel : Nat} {h : List VisitEvent}

/-- Two recorders that follow the same references. -/
structure SameReach (s t : Recording) : Prop where
  settings : t.recorder.settings = s.recorder.settings
  backend : t.recorder.backend = s.recorder.backend
  visits : t.recorder.visits = s.recorder.visits

theorem SameReach.refl (s : Recording) : SameReach s s := ⟨rfl, rfl, rfl⟩

theorem SameReach.trans (h : SameReach s t) (h' : SameReach t u) : SameReach s u :=
  ⟨h'.settings.trans h.settings, h'.backend.trans h.backend, h'.visits.trans h.visits⟩

theorem Onward.sameReach (h : Onward s t) : SameReach s t :=
  ⟨by rw [h.recorder], by rw [h.recorder], h.visits⟩

/-- An object is entered from the recorder at hand by way of `c`. -/
def Enters (g : ObjectGraph) (s : Recording) (c z : ObjectRef) : Prop :=
  s.recorder.visits.contains (instanceId c) = false ∧
    Relation.ReflTransGen (g.Opens s.recorder.settings s.recorder.visits) c z

theorem SameReach.enters_iff (h : SameReach s t) {c z : ObjectRef} :
    Enters g t c z ↔ Enters g s c z := by
  rw [Enters, Enters, h.settings, h.visits]

/-- Once an object was entered, it is visited besides those that were visited before. -/
theorem contains_enter?_eq_false_iff {visits visits' : VisitSet} {c d : ObjectRef}
    (he : visits.enter? (instanceId c) = some visits') :
    visits'.contains (instanceId d) = false ↔
      visits.contains (instanceId d) = false ∧ d ≠ c := by
  rw [VisitSet.enter?_eq_some he]
  simp [VisitSet.contains, instanceId, and_comm]

/-- What is entered by way of an object is itself, and what its fields lead to from there. -/
theorem enters_iff {c z : ObjectRef} {o : DataObject} (hc : g.object? c = some o)
    (he : s.recorder.visits.enter? (instanceId c) = some t.recorder.visits)
    (hs : t.recorder.settings = s.recorder.settings) :
    Enters g s c z ↔
      z = c ∨ ∃ f ∈ o.fields, ∃ d, g.LeadsTo t.recorder.settings f d ∧ Enters g t d z := by
  have hfree : ∀ d, t.recorder.visits.contains (instanceId d) = false ↔
      s.recorder.visits.contains (instanceId d) = false ∧ d ≠ c := fun d =>
    contains_enter?_eq_false_iff he
  constructor
  · rintro ⟨-, hpath⟩
    rcases exists_child_of_reflTransGen hpath with rfl | ⟨d, ⟨o', f, ho', hf, hd⟩, hdc, hdz⟩
    · exact Or.inl rfl
    · obtain rfl := Option.some.inj (hc.symm.trans ho')
      refine Or.inr ⟨f, hf, d, hs ▸ hd, (hfree d).2 hdc, Relation.ReflTransGen.mono ?_ _ _ hdz⟩
      rintro a b ⟨hab, hb⟩
      exact ⟨hs ▸ hab, (hfree b).2 hb⟩
  · have hcfree : s.recorder.visits.contains (instanceId c) = false := by
      rw [← Bool.not_eq_true, ← VisitSet.enter?_eq_none_iff, he]
      simp
    rintro (rfl | ⟨f, hf, d, hd, hdfree, hdz⟩)
    · exact ⟨hcfree, .refl⟩
    · refine ⟨hcfree, .head ⟨⟨o, f, hc, hf, hs ▸ hd⟩, ((hfree d).1 hdfree).1⟩ ?_⟩
      refine Relation.ReflTransGen.mono ?_ _ _ hdz
      rintro a b ⟨hab, hb⟩
      exact ⟨hs ▸ hab, ((hfree b).1 hb).1⟩

/-- A call is made by a field that is recorded and refers to an object, or to none. -/
theorem step_recording (f : Field) (s : Recording) :
    (∃ t, (recording g).step f s = .own t ∧ Onward s t ∧
      ∀ c, ¬g.LeadsTo s.recorder.settings f c) ∨
    ∃ target, (recording g).step f s = .call (f.name, target) ∧
      ∀ c, g.LeadsTo s.recorder.settings f c ↔ target = some c ∧ (g.object? c).isSome = true := by
  by_cases hi : s.includes f = true
  · cases hd : f.data with
    | child target =>
      refine Or.inr ⟨target, by simp only [recording, hd, hi, if_true], fun c => ?_⟩
      simp only [ObjectGraph.LeadsTo, hd, FieldData.child.injEq]
      exact ⟨fun h => h.2, fun h => ⟨hi, h⟩⟩
    | _ =>
      refine Or.inl ⟨recordData f s, by simp only [recording, hd], onward_recordData f s, ?_⟩
      rintro c ⟨-, hc, -⟩
      rw [hd] at hc
      cases hc
  · have hsame : recordData f s = s := by simp [recordData, recordField, hi]
    refine Or.inl ⟨s, ?_, .refl s, fun c hc => hi hc.1⟩
    cases hd : f.data <;> simp [recording, hd, hi, hsame]

/-- What the hook of an object enters, if the calls are known. -/
theorem entered_mem_hook
    (hvisit : ∀ name target s t h, (recording g).visit fuel (name, target) s = some (t, h) →
      s.recorder.backend ≠ none → s.recorder.settings.policy ≠ .reference →
      SameReach s t ∧ ∀ z, .entered z ∈ h ↔
        ∃ c, target = some c ∧ (g.object? c).isSome = true ∧ Enters g s c z)
    {fields : List Field} (hrun : (recording g).hook fuel fields s = some (t, h))
    (hb : s.recorder.backend ≠ none) (hp : s.recorder.settings.policy ≠ .reference) :
    SameReach s t ∧ ∀ z, .entered z ∈ h ↔
      ∃ f ∈ fields, ∃ c, g.LeadsTo s.recorder.settings f c ∧ Enters g s c z := by
  induction fields generalizing s h with
  | nil =>
    cases hrun
    exact ⟨.refl _, by simp⟩
  | cons f rest ih =>
    rw [Traversal.hook, Traversal.steps] at hrun
    rcases step_recording (g := g) f s with ⟨s', hstep, honward, hnone⟩ | ⟨target, hstep, hlead⟩
    · rw [hstep] at hrun
      have hsame := honward.sameReach
      obtain ⟨hrest, hiff⟩ := ih hrun (hsame.backend ▸ hb) (hsame.settings ▸ hp)
      refine ⟨hsame.trans hrest, fun z => ?_⟩
      simp only [hiff, hsame.settings, hsame.enters_iff, List.mem_cons, exists_eq_or_imp]
      refine ⟨Or.inr, fun h => h.resolve_left ?_⟩
      rintro ⟨c, hc, -⟩
      exact hnone c hc
    · rw [hstep] at hrun
      obtain ⟨⟨s', k⟩, hcall, hafter⟩ := Option.bind_eq_some_iff.1 hrun
      obtain ⟨⟨t', k'⟩, hsteps, hend⟩ := Option.bind_eq_some_iff.1 hafter
      cases hend
      obtain ⟨hsame, hfirst⟩ := hvisit _ _ _ _ _ hcall hb hp
      obtain ⟨hrest, hiff⟩ := ih hsteps (hsame.backend ▸ hb) (hsame.settings ▸ hp)
      refine ⟨hsame.trans hrest, fun z => ?_⟩
      simp only [List.mem_append, hfirst, hiff, hsame.settings, hsame.enters_iff, List.mem_cons,
        exists_eq_or_imp, hlead, and_assoc]

/-- **What a call enters**: everything that can be reached around the objects being visited. -/
theorem entered_mem_visit {name : String} {target : Option ObjectRef}
    (hrun : (recording g).visit fuel (name, target) s = some (t, h))
    (hb : s.recorder.backend ≠ none) (hp : s.recorder.settings.policy ≠ .reference) :
    SameReach s t ∧ ∀ z, .entered z ∈ h ↔
      ∃ c, target = some c ∧ (g.object? c).isSome = true ∧ Enters g s c z := by
  induction fuel generalizing name target s t h with
  | zero => cases hrun
  | succ fuel ih =>
    have hid := (onward_recordId g name target s).sameReach
    cases hres : g.resolve target with
    | none =>
      have ho : (recording g).opening (name, target) s = .ended (recordId g name target s) := by
        simp only [recording, if_neg hb, hres]
      rw [Traversal.visit_ended ho] at hrun
      cases hrun
      refine ⟨hid, fun z => ⟨by simp, ?_⟩⟩
      rintro ⟨c, rfl, hc, -⟩
      obtain ⟨o, hc⟩ := Option.isSome_iff_exists.1 hc
      rw [ObjectGraph.resolve_eq_some.2 ⟨rfl, hc⟩] at hres
      cases hres
    | some found =>
      obtain ⟨r, o⟩ := found
      obtain ⟨rfl, hr⟩ := ObjectGraph.resolve_eq_some.1 hres
      have hp' : (recordId g name (some r) s).recorder.settings.policy ≠ .reference :=
        hid.settings ▸ hp
      have ho : (recording g).opening (name, some r) s =
          .found r o (recordId g name (some r) s) := by
        simp only [recording, if_neg hb, hres, if_neg hp']
      cases he : (recordId g name (some r) s).recorder.visits.enter? (instanceId r) with
      | none =>
        rw [Traversal.visit_refused ho he] at hrun
        cases hrun
        refine ⟨hid.trans ⟨rfl, rfl, rfl⟩, fun z => ⟨by simp, ?_⟩⟩
        rintro ⟨c, hc, -, hfree, -⟩
        cases hc
        rw [VisitSet.enter?_eq_none_iff, hid.visits] at he
        rw [he] at hfree
        cases hfree
      | some visits =>
        have hd : (recording g).descent (name, some r) r o visits (recordId g name (some r) s) =
            recordDescent name r o visits (recordId g name (some r) s) := rfl
        rw [Traversal.visit_entered ho he hd] at hrun
        obtain ⟨⟨t', k⟩, hhook, hend⟩ := Option.map_eq_some_iff.1 hrun
        cases hend
        obtain ⟨hinner, hiff⟩ := entered_mem_hook (fun _ _ _ _ _ => ih) hhook
          (hid.backend ▸ hb) hp'
        have hrest : SameReach s ((recordDescent name r o visits
            (recordId g name (some r) s)).leave t') := by
          refine hid.trans ⟨hinner.settings, hinner.backend, ?_⟩
          exact (congrArg (VisitSet.leave · (instanceId r)) hinner.visits).trans
            (VisitSet.leave_of_enter? he)
        refine ⟨hrest, fun z => ?_⟩
        have hreach := (hid.enters_iff (c := r) (z := z)).symm.trans
          (enters_iff (t := (recordDescent name r o visits (recordId g name (some r) s)).start)
            hr he rfl)
        simp only [List.cons_append, List.mem_cons, List.mem_append, List.not_mem_nil,
          reduceCtorEq, or_false, VisitEvent.entered.injEq, hiff]
        simp only [Option.some.injEq, exists_eq_left', hr, Option.isSome_some, true_and]
        exact hreach.symm

end Recording

namespace ObjectGraph

variable {g : ObjectGraph} {root : ObjectRef} {o : DataObject}

/-- **Packing enters no object again**, the root included. -/
theorem neverReentered_pack {p : Packer} (ho : g.object? root = some o)
    (hp : p.visits.contains (instanceId root) = false) :
    ∃ h, g.packTraced? (g.size + 1) root p =
        some (g.pack root p, .entered root :: h ++ [.left root]) ∧
      NeverReentered (.began root :: hookEvents h ++ [.ended root]) := by
  obtain ⟨h, hrun, hclean⟩ := exists_packTraced g root p
  have hnever := neverReentered_of_replay? hclean.returns.replay
  have htraced := hrun
  simp only [packTraced?, ho] at htraced
  obtain ⟨⟨q, k⟩, -, hend⟩ := Option.map_eq_some_iff.1 htraced
  have hk : .entered root :: k ++ [.left root] = h := by
    obtain rfl := congrArg Prod.snd hend
    rw [Prod.map_snd, rootHistory, if_neg (by simp [hp])]
  rw [← hk, hookEvents_append] at hnever
  exact ⟨k, hk ▸ hrun, hnever⟩

/-- **Recording enters the root again if and only if the root is on a cycle** of the references that
are recorded.  No other object is entered again, and the root only once more: from then on it is
refused like any other object, with a warning for each time. -/
theorem neverReentered_record_iff {s : Recording} (ho : g.object? root = some o)
    (hb : s.recorder.backend ≠ none) (hp : s.recorder.settings.policy ≠ .reference) :
    ∃ h, g.recordTraced? (g.size + 1) root s = some (g.record root s, h) ∧
      NeverReentered (hookEvents h) ∧
      (g.record root s).cycles = s.cycles ++ (refusals h).map Recording.cycleReport ∧
      (NeverReentered (.began root :: hookEvents h ++ [.ended root]) ↔
        ¬Relation.TransGen (g.Opens s.recorder.settings s.recorder.visits) root root) := by
  obtain ⟨h, hrun, hclean⟩ := exists_recordTraced g root s
  have hreplay := hclean.returns.replay
  refine ⟨h, hrun, neverReentered_of_replay? hreplay, hclean.warned, ?_⟩
  have hentered : .entered root ∈ h ↔
      Relation.TransGen (g.Opens s.recorder.settings s.recorder.visits) root root := by
    simp only [recordTraced?, ho] at hrun
    obtain ⟨⟨t, k⟩, hhook, hend⟩ := Option.map_eq_some_iff.1 hrun
    obtain rfl : k = h := congrArg Prod.snd hend
    have hmem := (Recording.entered_mem_hook
      (fun _ _ _ _ _ => Recording.entered_mem_visit) hhook hb hp).2 root
    rw [hmem, Relation.TransGen.head'_iff]
    constructor
    · rintro ⟨f, hf, c, hc, hfree, hpath⟩
      exact ⟨c, ⟨⟨o, f, ho, hf, hc⟩, hfree⟩, hpath⟩
    · rintro ⟨c, ⟨⟨o', f, ho', hf, hc⟩, hfree⟩, hpath⟩
      obtain rfl := Option.some.inj (ho.symm.trans ho')
      exact ⟨f, hf, c, hc, hfree, hpath⟩
  rw [neverReentered_around_iff hreplay, hentered]
  intro hmem
  obtain ⟨b, -, hb⟩ := Relation.TransGen.tail'_iff.1 (hentered.1 hmem)
  exact hb.2

/-- An object that refers to itself. -/
def selfRing : ObjectGraph where
  objects := #[⟨"ring", .fielded 0 "Ring" none [⟨"next", .child (some 0), .always⟩]⟩]

/-- The hook of an object that refers to itself is called while it is being called. -/
theorem neverReentered_record_selfRing :
    let s : Recording :=
      { recorder := { serial := 1, name := "r", backend := some (.memory 7) }, media := {} }
    ∃ h, selfRing.recordTraced? 2 0 s = some (selfRing.record 0 s, h) ∧
      ¬NeverReentered (.began 0 :: hookEvents h ++ [.ended 0]) := by
  intro s
  obtain ⟨h, hrun, -, -, hiff⟩ :=
    neverReentered_record_iff (s := s) (show selfRing.object? 0 = some _ from rfl) (by decide)
      (by decide)
  have hring : selfRing.Opens s.recorder.settings s.recorder.visits 0 0 :=
    ⟨⟨_, _, rfl, List.mem_singleton.2 rfl, rfl, rfl, rfl⟩, rfl⟩
  exact ⟨h, hrun, fun hnever => hiff.1 hnever (.single hring)⟩

end ObjectGraph

end FieldAutomation
