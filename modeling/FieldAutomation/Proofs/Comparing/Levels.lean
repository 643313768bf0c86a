import FieldAutomation.Proofs.Comparing.Hooks

/-!
# The levels of a comparison

Which levels a comparison is at after any of its steps.  Under plain names it comes back to the
level that it began at.  Under a name that opens with a bracket it may leave more levels than it
entered, but never fewer.  Both are laws about the comparer before and after a step, and such a law
holds of whole comparisons if it holds of entering and leaving one level.

* `Comparer.SameLevel`: a step comes back to the same level;
* `Comparer.Recedes`: a step comes back to the same level or to one above it;
* `Comparer.LevelLaw`: what it takes for such a law to hold of all steps.

Main statements: `Comparer.LevelLaw.compareBy`, `Comparer.sameLevel_compareBy`,
`Comparer.recedes_compareBy` and `Comparer.scope_of_compareBy_root` (no path is left of a comparison
at the top).
-/

namespace FieldAutomation

open ObjectGraph (instanceId)

namespace Scope

variable {s : Scope} {name : String} {rest : List String}

theorem segments_up_suffix (s : Scope) : s.up.segments <:+ s.segments :=
  (List.tail_suffix _).trans (List.dropWhile_suffix isIndexed)

/-- Leaving a level leaves what was on top at least. -/
theorem segments_up_suffix_of_cons (h : s.segments <:+ name :: rest) : s.up.segments <:+ rest := by
  obtain htop | hbelow := List.suffix_cons_iff.1 h
  · rw [segments_up, htop]
    cases hname : isIndexed name with
    | true =>
      rw [List.dropWhile_cons_of_pos hname]
      exact (List.tail_suffix _).trans (List.dropWhile_suffix isIndexed)
    | false =>
      rw [List.dropWhile_cons_of_neg (by simp [hname])]
      exact List.suffix_rfl
  · exact s.segments_up_suffix.trans hbelow

/-- Leaving an element leaves it at least. -/
theorem segments_upElement_suffix_of_cons {index : Nat} (h : s.segments <:+ element index :: rest) :
    s.upElement.segments <:+ rest := by
  obtain htop | hbelow := List.suffix_cons_iff.1 h
  · rw [segments_upElement_of_element htop]
  · refine List.IsSuffix.trans ?_ hbelow
    unfold upElement
    split
    next top below hs =>
      split
      next => exact hs ▸ List.suffix_cons top below
      next => exact List.suffix_rfl
    next => exact List.suffix_rfl

end Scope

/-- Some names are used for levels, or none. -/
theorem CompareHook.levelsIn_true (hook : CompareHook) : hook.LevelsIn fun _ => True := by
  induction hook with
  | done => trivial
  | look next ih | note next ih => exact ih
  | number _ _ _ _ _ next ih | real _ _ _ next ih | string _ _ _ next ih | compare _ _ next ih =>
    exact ih
  | object _ _ _ next ih => exact ⟨trivial, ih⟩
  | level _ inner next ihi ih => exact ⟨trivial, ihi, ih⟩
  | element _ inner next ihi ih => exact ⟨ihi, ih⟩

namespace Comparer

variable {g : ObjectGraph} {hooks : ObjectRef → ObjectRef → CompareHook} {names : String → Prop}
  {R : Comparer → Comparer → Prop} {c d e : Comparer} {l : ObjectRef} {left : DataObject}
  {within : ObjectRef → Option ObjectRef → Comparer → Option Outcome}

/-! ### Steps that stay -/

/-- A step comes back to the level that it began at, and its reporter has the same threshold. -/
structure SameLevel (c d : Comparer) : Prop where
  segments : d.scope.segments = c.scope.segments
  threshold : d.reporter.maxVerbosity = c.reporter.maxVerbosity

theorem SameLevel.refl (c : Comparer) : SameLevel c c := ⟨rfl, rfl⟩

theorem SameLevel.trans (h : SameLevel c d) (h' : SameLevel d e) : SameLevel c e :=
  ⟨h'.segments.trans h.segments, h'.threshold.trans h.threshold⟩

theorem maxVerbosity_report (c : Comparer) (message : String) :
    (c.report message).reporter.maxVerbosity = c.reporter.maxVerbosity :=
  Reporter.maxVerbosity_report _

theorem sameLevel_tally (c : Comparer) (message : String) : SameLevel c (c.tally message) := by
  refine ⟨by rw [scope_tally], ?_⟩
  unfold tally
  dsimp only
  split
  · rw [maxVerbosity_report]
  · rfl

theorem sameLevel_tallyField (c : Comparer) (name message : String) :
    SameLevel c (c.tallyField name message) :=
  ⟨(continues_tallyField c name message).segments,
    (sameLevel_tally { c with scope := c.scope.setPending name } message).threshold⟩

theorem sameLevel_tallyChild (c : Comparer) (name : String) (left right : Option ObjectRef) :
    SameLevel c (c.tallyChild name left right) :=
  sameLevel_tallyField c name (sides (handleText left) (handleText right))

theorem sameLevel_compareNumber (c : Comparer) (name : String) (left right size : Nat)
    (radix : Radix) : SameLevel c (c.compareNumber name left right size radix).2 := by
  rw [compareNumber_eq]
  split
  · exact .refl c
  · exact sameLevel_tallyField ..

theorem sameLevel_compareReal (c : Comparer) (name : String) (left right : Binary64) :
    SameLevel c (c.compareReal name left right).2 := by
  unfold compareReal
  split
  · exact .refl c
  · exact sameLevel_tallyField ..

theorem sameLevel_compareString (c : Comparer) (name left right : String) :
    SameLevel c (c.compareString name left right).2 := by
  unfold compareString
  split
  · exact .refl c
  · exact sameLevel_tallyField ..

theorem maxVerbosity_leaveRoot (d : Comparer) (l : ObjectRef) (left : DataObject)
    (right : Option (ObjectRef × DataObject)) :
    (d.leaveRoot l left right).reporter.maxVerbosity = d.reporter.maxVerbosity := by
  unfold leaveRoot report
  cases right <;> dsimp only <;> split <;> simp [Reporter.info]

/-! ### Laws about levels -/

/-- A law about the comparer before and after a step that holds of all steps, if the names of levels
are among `names`. -/
structure LevelLaw (names : String → Prop) (R : Comparer → Comparer → Prop) : Prop where
  stay : ∀ {c d}, SameLevel c d → R c d
  trans : ∀ {c d e}, R c d → R d e → R c e
  level : ∀ {c d name}, names name → R { c with scope := c.scope.down name } d →
    R c { d with scope := d.scope.up }
  element : ∀ {c d index}, R { c with scope := c.scope.downElement index } d →
    R c { d with scope := d.scope.upElement }
  root : ∀ {c d left}, c.scope.depth = 0 → R (c.enterRoot left) d →
    ∀ l right, R c (d.leaveRoot l left right)

/-- A step obeys a law if it ends. -/
def Obeys (R : Comparer → Comparer → Prop) (c : Comparer) (out : Option Outcome) : Prop :=
  ∀ same d, out = some (same, d) → R c d

theorem obeys_some {same : Bool} (h : R c d) : Obeys R c (some (same, d)) := by
  intro _ _ hout
  cases hout
  exact h

namespace LevelLaw

theorem obeys_of (hR : LevelLaw names R) {out : Option Outcome} (hd : R c d) (h : Obeys R d out) :
    Obeys R c out :=
  fun same e he => hR.trans hd (h same e he)

/-- A step is followed by another, after what is done in between. -/
theorem bind (hR : LevelLaw names R) {out : Option Outcome} {f : Comparer → Comparer}
    {k : Bool → Comparer → Option Outcome} (h : Obeys R d out) (hf : ∀ {e}, R d e → R c (f e))
    (hk : ∀ same e, Obeys R e (k same e)) : Obeys R c (out.bind fun o => k o.1 (f o.2)) := by
  cases out with
  | none => exact fun _ _ => nofun
  | some out => exact hR.obeys_of (hf (h _ _ rfl)) (hk out.1 (f out.2))

theorem compareChild (hR : LevelLaw names R) (hwithin : ∀ l target c, Obeys R c (within l target c))
    {name : String} (hname : names name) (left right : Option ObjectRef) (c : Comparer) :
    Obeys R c (compareChild within name left right c) := by
  have hstart : R c (if c.scope.depth = 0 then c.start else c) := by
    split
    · exact hR.stay ⟨rfl, rfl⟩
    · exact hR.stay (.refl c)
  unfold Comparer.compareChild
  generalize (if c.scope.depth = 0 then c.start else c) = d at hstart
  have htally : Obeys R c (some (false, d.tallyChild name left right)) :=
    obeys_some (hR.trans hstart (hR.stay (sameLevel_tallyChild ..)))
  split
  next => exact obeys_some hstart
  next l r =>
    split
    next => exact obeys_some hstart
    next =>
      dsimp only
      split
      next => exact htally
      next =>
        exact hR.obeys_of hstart (hR.bind (k := fun same e => some (same, e))
          (hwithin l (some r) { d with scope := d.scope.down name }) (hR.level hname)
          fun same e => obeys_some (hR.stay (.refl e)))
  next => exact htally

/-- **Every hook obeys the law**, whatever it does, if it uses only those names for levels. -/
theorem run (hR : LevelLaw names R) (hwithin : ∀ l target c, Obeys R c (within l target c))
    {hook : CompareHook} (hlevels : hook.LevelsIn names) (c : Comparer) :
    Obeys R c (hook.run within c) := by
  induction hook generalizing c with
  | done verdict => exact obeys_some (hR.stay (.refl c))
  | look next ih => exact ih c (hlevels c) c
  | number name l r size radix next ih =>
    exact hR.obeys_of (hR.stay (sameLevel_compareNumber ..)) (ih _ (hlevels _) _)
  | real name l r next ih =>
    exact hR.obeys_of (hR.stay (sameLevel_compareReal ..)) (ih _ (hlevels _) _)
  | string name l r next ih =>
    exact hR.obeys_of (hR.stay (sameLevel_compareString ..)) (ih _ (hlevels _) _)
  | object name l r next ih =>
    exact hR.bind (f := id) (hR.compareChild hwithin hlevels.1 l r c) id
      fun same => ih same (hlevels.2 same)
  | compare l r next ih =>
    exact hR.bind (f := id) (hwithin l r c) id fun same => ih same (hlevels same)
  | level name inner next ihi ih =>
    exact hR.bind (ihi hlevels.2.1 { c with scope := c.scope.down name }) (hR.level hlevels.1)
      fun same => ih same (hlevels.2.2 same)
  | element index inner next ihi ih =>
    exact hR.bind (ihi hlevels.1 { c with scope := c.scope.downElement index }) hR.element
      fun same => ih same (hlevels.2 same)
  | note next ih =>
    have hnote : SameLevel c
        { c with notes := c.notes ++ [⟨c.scope.path, c.result, c.pairs.length⟩] } := ⟨rfl, rfl⟩
    exact hR.obeys_of (hR.stay hnote) (ih hlevels _)

theorem compareMetBy (hR : LevelLaw names R) {hook : ObjectRef → Comparer → Option Outcome}
    (hhook : ∀ r c, Obeys R c (hook r c)) (l : ObjectRef) (left : DataObject)
    (right : Option (ObjectRef × DataObject)) (c : Comparer) :
    Obeys R c (compareMetBy hook l left right c) := by
  have htally : ∀ message, Obeys R c (some (false, c.tally message)) :=
    fun message => obeys_some (hR.stay (sameLevel_tally c message))
  unfold Comparer.compareMetBy
  split
  next => exact htally _
  next r o =>
    split
    next =>
      split
      next => exact obeys_some (hR.stay (.refl c))
      next => exact htally _
    next =>
      split
      next => exact htally _
      next =>
        have hcall : SameLevel c ((c.pair (instanceId r) (instanceId l)).call (instanceId r)
            (instanceId l)) := ⟨rfl, rfl⟩
        exact hR.obeys_of (hR.stay hcall) (hhook r _)

/-- **Every comparison obeys the law**, at the top and below. -/
theorem compareBy (hR : LevelLaw names R) (hlevels : ∀ l r, (hooks l r).LevelsIn names) (fuel : Nat)
    (l : ObjectRef) (target : Option ObjectRef) (c : Comparer) :
    Obeys R c (compareBy g hooks fuel l target c) := by
  induction fuel generalizing l target c with
  | zero => exact fun _ _ => nofun
  | succ fuel ih =>
    cases hl : g.object? l with
    | none =>
      rw [Comparer.compareBy, hl]
      exact obeys_some (hR.stay (.refl c))
    | some left =>
      have hmet := hR.compareMetBy (fun r => hR.run ih (hlevels l r)) l left (g.resolve target)
      by_cases hc : c.scope.depth = 0
      · rw [compareBy_root hl hc]
        intro same d hout
        obtain ⟨⟨same', e⟩, he, hrest⟩ := Option.bind_eq_some_iff.1 hout
        cases hrest
        exact hR.root hc (hmet _ same' e he) ..
      · rw [compareBy_below hl hc]
        intro same d hout
        obtain ⟨⟨same', e⟩, he, hrest⟩ := Option.bind_eq_some_iff.1 hout
        cases hrest
        exact hmet c same' e he

end LevelLaw

/-! ### Two laws -/

/-- A step comes back to the level that it began at, or to one above it, and its reporter has the
same threshold. -/
structure Recedes (c d : Comparer) : Prop where
  segments : d.scope.segments <:+ c.scope.segments
  threshold : d.reporter.maxVerbosity = c.reporter.maxVerbosity

/-- Leaving the top leaves all levels. -/
theorem scope_leaveRoot (hd : d.scope.segments <:+ (c.enterRoot left).scope.segments)
    (hc : c.scope.depth = 0) (l : ObjectRef) (right : Option (ObjectRef × DataObject)) :
    (d.leaveRoot l left right).scope = {} := by
  have hroot : c.scope.segments = [] := List.eq_nil_of_length_eq_zero hc
  have hup : d.scope.up.segments <:+ c.scope.segments := Scope.segments_up_suffix_of_cons hd
  obtain ⟨reporter, hleave⟩ := leaveRoot_eq d l left right
  rw [hleave]
  rw [hroot, List.suffix_nil] at hup
  exact congrArg₂ Scope.mk hup d.scope.pending_up

theorem levelLaw_recedes : LevelLaw (fun _ => True) Recedes where
  stay h := ⟨by rw [h.segments], h.threshold⟩
  trans h h' := ⟨h'.segments.trans h.segments, h'.threshold.trans h.threshold⟩
  level _ h := ⟨Scope.segments_up_suffix_of_cons h.segments, h.threshold⟩
  element h := ⟨Scope.segments_upElement_suffix_of_cons h.segments, h.threshold⟩
  root hc h l right := ⟨by rw [scope_leaveRoot h.segments hc]; exact List.nil_suffix,
    (maxVerbosity_leaveRoot ..).trans h.threshold⟩

theorem levelLaw_sameLevel : LevelLaw (Scope.isIndexed · = false) SameLevel where
  stay := id
  trans := SameLevel.trans
  level hname h := ⟨Scope.segments_up_of_plain h.segments hname, h.threshold⟩
  element h := ⟨Scope.segments_upElement_of_element h.segments, h.threshold⟩
  root {c _ _} hc h l right := by
    refine ⟨?_, (maxVerbosity_leaveRoot ..).trans h.threshold⟩
    rw [scope_leaveRoot (by rw [h.segments]) hc]
    exact (List.eq_nil_of_length_eq_zero hc).symm

/-- **Every comparison recedes**, under any names. -/
theorem recedes_compareBy (fuel : Nat) (l : ObjectRef) (target : Option ObjectRef) (c : Comparer) :
    Obeys Recedes c (compareBy g hooks fuel l target c) :=
  levelLaw_recedes.compareBy (fun l r => (hooks l r).levelsIn_true) fuel l target c

/-- **Under plain names** a comparison comes back to the level that it began at. -/
theorem sameLevel_compareBy (hlevels : ∀ l r, (hooks l r).LevelsIn (Scope.isIndexed · = false))
    (fuel : Nat) (l : ObjectRef) (target : Option ObjectRef) (c : Comparer) :
    Obeys SameLevel c (compareBy g hooks fuel l target c) :=
  levelLaw_sameLevel.compareBy hlevels fuel l target c

/-- No path is left of a comparison at the top. -/
theorem scope_of_compareBy_root {fuel : Nat} {target : Option ObjectRef} {out : Outcome}
    (hl : g.object? l = some left) (hc : c.scope.depth = 0)
    (hout : compareBy g hooks fuel l target c = some out) : out.2.scope = {} := by
  cases fuel with
  | zero => cases hout
  | succ fuel =>
    rw [compareBy_root hl hc] at hout
    obtain ⟨⟨same, e⟩, he, hrest⟩ := Option.bind_eq_some_iff.1 hout
    cases hrest
    have hrun : ∀ r c, Obeys Recedes c ((hooks l r).run (compareBy g hooks fuel) c) := fun r =>
      levelLaw_recedes.run (recedes_compareBy fuel) (hooks l r).levelsIn_true
    exact scope_leaveRoot (levelLaw_recedes.compareMetBy hrun l left _ _ same e he).segments hc ..

end Comparer

end FieldAutomation
