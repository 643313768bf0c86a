import FieldAutomation.Proofs.Comparing.Agreement

/-!
# What a comparison finds out

Below the top, a comparison of two objects ends, and what it tells is right for the pairs it has
made: it is true only if the objects are paired and all new pairs agree, and it is true whenever a
bisimulation has the pairs that were there and the one that is asked for.

* `Comparer.pairing`: the pairs of a comparer;
* `Comparer.Checks`: a part of a comparison finds out whether something holds, and
  `Comparer.ChildChecks`, that comparing references does;
* `ObjectGraph.Faithful`: the graphs and settings for which the outcome is that of the fields;
* `ObjectGraph.Typed`: the graphs in which each type says which fields its objects have.

Main statements: `Comparer.exists_compareWithin` and `Comparer.exists_compareWithin_root`.
-/

namespace FieldAutomation

open ObjectGraph (instanceId)

/-- No object overrides the outcome of comparing its fields, and references are followed. -/
structure ObjectGraph.Faithful (g : ObjectGraph) (s : ComparerSettings) : Prop where
  verdict : ∀ r o, g.object? r = some o → o.verdict = none
  policy : s.policy ≠ .reference

/-- Objects of one type have fields of the same kinds. -/
def ObjectGraph.Typed (g : ObjectGraph) : Prop :=
  ∀ x left, g.object? x = some left → ∀ y right, g.object? y = some right →
    left.concreteType = right.concreteType →
    left.fields.map (fun f => f.data.kind) = right.fields.map fun f => f.data.kind

theorem ObjectGraph.Typed.kind_eq {g : ObjectGraph} {x y : ObjectRef} {left right : DataObject}
    (hg : g.Typed) (hl : g.object? x = some left) (hr : g.object? y = some right)
    (htype : left.concreteType = right.concreteType) {f k : Field}
    (hfk : (f, k) ∈ left.fields.zip right.fields) : f.data.kind = k.data.kind := by
  have hkinds := hg x left hl y right hr htype
  obtain ⟨index, hindex⟩ := List.mem_iff_getElem?.1 hfk
  obtain ⟨hf, hk⟩ := List.getElem?_zip_eq_some.1 hindex
  have h := congrArg (fun kinds => kinds[index]?) hkinds
  simpa [List.getElem?_map, hf, hk] using h

namespace Comparer

/-- The pairs of a comparer. -/
def pairing (c : Comparer) : Pairing := fun y =>
  (c.partner? (instanceId y)).bind fun
    | 0 => none
    | x + 1 => some x

/-- All pairs of a comparer are pairs of `m`. -/
def Within (c : Comparer) (m : Pairing) : Prop :=
  ∀ y left, c.partner? (instanceId y) = some left → ∃ x, m y = some x ∧ left = instanceId x

/-- A part of a comparison finds out whether `A` holds of its pairs: it is true only if `A` holds
and all new pairs agree, and it is true whenever there is a bisimulation for which `A` holds. -/
structure Checks (g : ObjectGraph) (A : Pairing → Prop) (c : Comparer) (out : Outcome) : Prop where
  continues : Continues c out.2
  sound : g.Faithful c.settings → g.Typed → out.1 = true → out.2.result = 0 →
    A out.2.pairing ∧ ∀ x y, out.2.pairing y = some x →
      c.pairing y = some x ∨ PairAgrees c.settings g out.2.pairing x y
  complete : g.Faithful c.settings → ∀ m, Bisimulation c.settings g m → c.Within m →
    c.result = 0 → A m → out.1 = true ∧ out.2.result = 0 ∧ out.2.Within m

variable {g : ObjectGraph} {c d : Comparer} {out out' : Outcome} {A B : Pairing → Prop}
  {x y : ObjectRef}

theorem pairing_eq_some :
    c.pairing y = some x ↔ c.partner? (instanceId y) = some (instanceId x) := by
  unfold pairing
  cases c.partner? (instanceId y) with
  | none => simp
  | some left =>
    cases left with
    | zero => simp [instanceId]
    | succ left => simp [instanceId]

theorem pairing_of_pairs_eq (h : d.pairs = c.pairs) : d.pairing = c.pairing := by
  funext y
  rw [pairing, pairing, partner?, partner?, h]

theorem Within.of_pairs_eq {m : Pairing} (h : d.pairs = c.pairs) (hc : c.Within m) :
    d.Within m := by
  intro y left hy
  rw [partner?, h] at hy
  exact hc y left hy

/-- Pairs stay. -/
theorem Continues.pairing_mono (h : Continues c d) (y x : ObjectRef) (hc : c.pairing y = some x) :
    d.pairing y = some x :=
  pairing_eq_some.2 (h.partner (pairing_eq_some.1 hc))

/-! ### Checks one after the other -/

namespace Checks

theorem of_decides {P : Prop} (h : Decides P c out) : Checks g (fun _ => P) c out where
  continues := h.continues
  sound := by
    intro _ _ hb _
    refine ⟨h.eq_true_iff.1 hb, fun x y hxy => Or.inl ?_⟩
    rwa [pairing_of_pairs_eq h.pairs] at hxy
  complete := by
    intro _ m _ hm hf hP
    have hb := h.eq_true_iff.2 hP
    exact ⟨hb, (h.result hb).trans hf, hm.of_pairs_eq h.pairs⟩

theorem of_fail (h : Continues c d)
    (hA : g.Faithful c.settings → ∀ m, Bisimulation c.settings g m → c.Within m → ¬ A m) :
    Checks g A c (false, d) where
  continues := h
  sound := by
    intro _ _ hb
    cases hb
  complete := fun hf m hm hw _ ha => absurd ha (hA hf m hm hw)

theorem of_pass (hA : A c.pairing) : Checks g A c (true, c) :=
  ⟨.refl c, fun _ _ _ _ => ⟨hA, fun _ _ hxy => Or.inl hxy⟩, fun _ _ _ hw hn _ => ⟨rfl, hn, hw⟩⟩

/-- A step that tells nothing under settings that follow references, without overrides. -/
theorem of_not_faithful (h : Continues c out.2) (hn : ¬ g.Faithful c.settings) :
    Checks g A c out :=
  ⟨h, fun hf => absurd hf hn, fun hf => absurd hf hn⟩

theorem congr (h : Checks g A c out) (hAB : ∀ m, A m ↔ B m) : Checks g B c out where
  continues := h.continues
  sound := fun hf ht hb hn => ⟨(hAB _).1 (h.sound hf ht hb hn).1, (h.sound hf ht hb hn).2⟩
  complete := fun hf m hm hw hn hB => h.complete hf m hm hw hn ((hAB m).2 hB)

theorem rescope {σ τ : Scope} (h : Checks g A { c with scope := σ } out)
    (hτ : τ.segments = c.scope.segments) : Checks g A c (out.1, { out.2 with scope := τ }) :=
  ⟨h.continues.rescope hτ, h.sound, h.complete⟩

theorem and (h : Checks g A c out) (h' : Checks g B out.2 out')
    (hA : ∀ m m' : Pairing, (∀ y x, m y = some x → m' y = some x) → A m → A m') :
    Checks g (fun m => A m ∧ B m) c (out.1 && out'.1, out'.2) where
  continues := h.continues.trans h'.continues
  sound := by
    intro hf ht hb hn
    obtain ⟨hb, hb'⟩ := Bool.and_eq_true_iff.1 hb
    have hmono := h'.continues.pairing_mono
    obtain ⟨ha, hpairs⟩ := h.sound hf ht hb (h'.continues.result_eq_zero hn)
    obtain ⟨hb, hpairs'⟩ := h'.sound (h.continues.settings ▸ hf) ht hb' hn
    refine ⟨⟨hA _ _ hmono ha, hb⟩, fun x y hxy => ?_⟩
    rw [h.continues.settings] at hpairs'
    -- a pair was there before, or is new to the first part or to the second
    rcases hpairs' x y hxy with hold | hnew
    · rcases hpairs x y hold with hold | hnew
      · exact Or.inl hold
      · exact Or.inr (hnew.mono hmono)
    · exact Or.inr hnew
  complete := by
    intro hf m hm hw hn hAB
    obtain ⟨hb, hn, hw⟩ := h.complete hf m hm hw hn hAB.1
    rw [← h.continues.settings] at hf hm
    obtain ⟨hb', hn', hw'⟩ := h'.complete hf m hm hw hn hAB.2
    exact ⟨by rw [hb, hb', Bool.true_and], hn', hw'⟩

/-- Asking for miscompares as well changes nothing. -/
theorem and_result (h : Checks g A c (b, d)) : Checks g A c (d.result = 0 && b, d) where
  continues := h.continues
  sound := fun hf ht hb => h.sound hf ht (Bool.and_eq_true_iff.1 hb).2
  complete := by
    intro hf m hm hw hn ha
    obtain ⟨hb, hn, hw⟩ := h.complete hf m hm hw hn ha
    simp only at hb hn
    exact ⟨by simp [hn, hb], hn, hw⟩

end Checks

/-! ### Fields -/

section Fields

/-- Comparing two references at a level below the top ends and checks whether they agree, as long
as fewer than `n` objects have not been paired. -/
def ChildChecks (g : ObjectGraph) (n : Nat)
    (child : String → Option ObjectRef → Option ObjectRef → Comparer → Option Outcome) : Prop :=
  ∀ name l r c, Scope.isIndexed name = false → c.scope.depth ≠ 0 → g.unpaired c < n →
    ∃ out, child name l r c = some out ∧
      Checks g (fun m => (FieldData.child l).Agrees m (.child r)) c out

variable {n : Nat} {left : Field} {ls : List Field}
  {child : String → Option ObjectRef → Option ObjectRef → Comparer → Option Outcome}

theorem exists_compareField (right : Field) (hchild : ChildChecks g n child)
    (hname : Scope.isIndexed left.name = false) (hc : c.scope.depth ≠ 0)
    (hn : g.unpaired c < n) :
    ∃ out, compareField child left right c = some out ∧
      Checks g (fun m => left.data.kind = right.data.kind → FieldsAgree c.settings m left right)
        c out := by
  cases hinc : c.includes left with
  | false =>
    refine ⟨(true, c), by rw [compareField, if_neg (by simp [hinc])], ?_⟩
    refine (Checks.of_decides (.pass trivial c)).congr fun m =>
      ⟨fun _ _ hcmp => ?_, fun _ => trivial⟩
    rw [← includes_eq, hinc] at hcmp
    cases hcmp
  | true =>
    have hcmp : ∀ m : Pairing, FieldsAgree c.settings m left right ↔
        left.data.Agrees m right.data := fun m => ⟨fun h => h hinc, fun h _ => h⟩
    by_cases hch : ∃ l r, left.data = .child l ∧ right.data = .child r
    · obtain ⟨l, r, hl, hr⟩ := hch
      obtain ⟨out, hout, hchk⟩ := hchild left.name l r c hname hc hn
      refine ⟨out, ?_, hchk.congr fun m => ?_⟩
      · rw [compareField, if_pos hinc, hl, hr]
        exact hout
      · rw [hcmp, hl, hr]
        exact ⟨fun h _ => h, fun h => h rfl⟩
    · have hne : ∀ l r, left.data = .child l → right.data ≠ .child r :=
        fun l r hl hr => hch ⟨l, r, hl, hr⟩
      obtain ⟨out, hout, hdec⟩ := decides_compareField (c := c) child hname hinc hne
      refine ⟨out, hout, (Checks.of_decides hdec).congr fun m => ?_⟩
      rw [hcmp, FieldData.agrees_of_ne_child hne]

/-- All fields are compared, and checked together. -/
theorem exists_compareFields (rs : List Field) (hchild : ChildChecks g n child)
    (hname : ∀ f ∈ ls, Scope.isIndexed f.name = false) (hc : c.scope.depth ≠ 0)
    (hn : g.unpaired c < n) :
    ∃ out, compareFields child ls rs c = some out ∧
      Checks g (fun m => ∀ x ∈ ls.zip rs, x.1.data.kind = x.2.data.kind →
        FieldsAgree c.settings m x.1 x.2) c out := by
  induction ls generalizing rs c with
  | nil => exact ⟨(true, c), rfl, (Checks.of_decides (.pass trivial c)).congr (by simp)⟩
  | cons l ls ih =>
    cases rs with
    | nil => exact ⟨(true, c), rfl, (Checks.of_decides (.pass trivial c)).congr (by simp)⟩
    | cons r rs =>
      obtain ⟨first, hfirst, hchk⟩ :=
        exists_compareField r hchild (hname l (by simp)) hc hn
      have hcont := hchk.continues
      obtain ⟨rest, hrest, hchk'⟩ := ih rs (fun f hf => hname f (by simp [hf]))
        (hcont.depth_ne_zero hc) ((ObjectGraph.unpaired_le hcont).trans_lt hn)
      rw [hcont.settings] at hchk'
      refine ⟨(first.1 && rest.1, rest.2), ?_, ?_⟩
      · rw [compareFields_cons, hfirst, Option.bind_some, hrest, Option.bind_some]
      · refine (hchk.and hchk' fun m m' hm h hkind => (h hkind).mono hm).congr fun m => ?_
        rw [List.zip_cons_cons, List.forall_mem_cons]

end Fields

/-! ### Objects -/

section Objects

variable {n fuel : Nat} {l r : ObjectRef} {left right : DataObject}
  {child : String → Option ObjectRef → Option ObjectRef → Comparer → Option Outcome}

/-- The bodies of two objects are compared as far as their types allow. -/
theorem exists_compareBodies (right : DataObject) (hchild : ChildChecks g n child)
    (hnames : g.PlainNames) (hl : g.object? l = some left) (hc : c.scope.depth ≠ 0)
    (hn : g.unpaired c < n) :
    ∃ out, compareBodies child left right c = some out ∧
      Checks g (fun m => (left.isBare = true ∨ left.concreteType = right.concreteType) ∧
        ∀ x ∈ left.fields.zip right.fields, x.1.data.kind = x.2.data.kind →
          FieldsAgree c.settings m x.1 x.2) c out := by
  have hname : ∀ f ∈ left.fields, Scope.isIndexed f.name = false := hnames l left hl
  unfold compareBodies
  split
  case h_1 hbody =>
    -- a bare object has no fields to differ in
    refine ⟨_, rfl, (Checks.of_decides (.pass trivial c)).congr fun m => ?_⟩
    simp [DataObject.isBare, DataObject.fields, hbody]
  case h_2 type typeName verdict ls hbody =>
    have hls : left.fields = ls := by simp [DataObject.fields, hbody]
    have hbare : left.isBare = false := by simp [DataObject.isBare, hbody]
    have htype : left.concreteType = some type := by simp [DataObject.concreteType, hbody]
    split
    case isFalse hne =>
      refine ⟨_, rfl, .of_fail (.refl c) ?_⟩
      rintro - m - - ⟨hb | heq, -⟩
      · rw [hbare] at hb
        cases hb
      · exact hne (heq.symm.trans htype)
    case isTrue heq =>
      obtain ⟨out, hout, hchk⟩ := exists_compareFields right.fields hchild (hls ▸ hname) hc hn
      refine ⟨(verdict.getD out.1, out.2), by rw [hout]; rfl, ?_⟩
      cases verdict with
      | some b =>
        refine .of_not_faithful hchk.continues fun hf => ?_
        have hnone := hf.verdict _ _ hl
        simp [DataObject.verdict, hbody] at hnone
      | none =>
        refine hchk.congr fun m => ?_
        rw [hls]
        exact ⟨fun h => ⟨.inr (htype.trans heq.symm), h⟩, fun h => h.2⟩

/-- Two objects met for the first time are paired, and agree as their bodies do. -/
theorem Checks.of_call (hl : g.object? l = some left) (hr : g.object? r = some right)
    (hp : c.partner? (instanceId r) = none)
    (htype : c.settings.checkType = true → left.typeName = right.typeName)
    (h : Checks g (fun m => (left.isBare = true ∨ left.concreteType = right.concreteType) ∧
        ∀ x ∈ left.fields.zip right.fields, x.1.data.kind = x.2.data.kind →
          FieldsAgree c.settings m x.1 x.2)
      ((c.pair (instanceId r) (instanceId l)).call (instanceId r) (instanceId l)) out) :
    Checks g (fun m => m r = some l) c out where
  continues := (continues_call _ hp).trans h.continues
  sound := by
    intro hf ht hb hn
    obtain ⟨⟨hsame, hfields⟩, hpairs⟩ := h.sound hf ht hb hn
    have hrl := h.continues.pairing_mono r l (pairing_eq_some.2 (c.partner?_call _ _))
    refine ⟨hrl, fun x y hxy => ?_⟩
    -- the pair itself agrees by its fields, and the later ones have been checked below it
    by_cases hyr : y = r
    · subst hyr
      rw [hrl] at hxy
      cases hxy
      refine Or.inr ⟨left, right, hl, hr, htype, hsame, fun x hx => ?_⟩
      rcases hsame with hbare | hsame
      · rw [DataObject.fields_of_isBare hbare] at hx
        cases hx
      · exact hfields x hx (ht.kind_eq hl hr hsame hx)
    · rcases hpairs x y hxy with hold | hnew
      · have hne := mt ObjectGraph.instanceId_injective hyr
        rw [pairing_eq_some, partner?_call_of_ne hne] at hold
        exact Or.inl (pairing_eq_some.2 hold)
      · exact Or.inr hnew
  complete := by
    intro hf m hm hw hn hrl
    -- the bisimulation has the pair, so that its fields agree and it may be assumed below
    have hlr := hm.objectsAgree hrl hl hr
    refine h.complete hf m hm (fun y x hyx => ?_) hn
      ⟨hlr.type, fun x hx _ => hlr.fields x hx⟩
    by_cases hyr : y = r
    · subst hyr
      rw [partner?_call] at hyx
      exact ⟨l, hrl, (Option.some.inj hyx).symm⟩
    · rw [partner?_call_of_ne (mt ObjectGraph.instanceId_injective hyr)] at hyx
      exact hw y x hyx

/-- An object that is met is checked by the pairing, or else by its body. -/
theorem exists_compareMet (target : Option ObjectRef) (hchild : ChildChecks g n child)
    (hnames : g.PlainNames) (hl : g.object? l = some left) (hc : c.scope.depth ≠ 0)
    (hn : g.unpaired c ≤ n) :
    ∃ out, compareMet child l left (g.resolve target) c = some out ∧
      Checks g (fun m => ∃ r, target = some r ∧ m r = some l) c out := by
  unfold compareMet
  cases hres : g.resolve target with
  | none =>
    refine ⟨_, rfl, .of_fail (continues_tally ..) ?_⟩
    rintro _ m hm _ ⟨r, rfl, hrl⟩
    obtain ⟨-, right, -, hr, -⟩ := hm l r hrl
    rw [ObjectGraph.resolve_eq_some.2 ⟨rfl, hr⟩] at hres
    cases hres
  | some met =>
    obtain ⟨r, right⟩ := met
    obtain ⟨rfl, hr⟩ := ObjectGraph.resolve_eq_some.1 hres
    have hasked : ∀ m : Pairing, m r = some l ↔ ∃ s, some r = some s ∧ m s = some l := by
      simp
    cases hp : c.partner? (instanceId r) with
    | some partner =>
      simp only [hp]
      split
      case isTrue heq =>
        subst heq
        exact ⟨_, rfl, (Checks.of_pass (pairing_eq_some.2 hp)).congr hasked⟩
      case isFalse hne =>
        -- an object can be paired with one other only
        refine ⟨_, rfl, Checks.congr (.of_fail (continues_tally ..) fun _ m _ hw hrl => ?_) hasked⟩
        obtain ⟨x, hx, rfl⟩ := hw r partner hp
        cases hrl.symm.trans hx
        exact hne rfl
    | none =>
      simp only [hp]
      split
      case isTrue hne =>
        refine ⟨_, rfl, Checks.congr (.of_fail (continues_tally ..) fun _ m hm _ hrl => ?_) hasked⟩
        exact hne.2 ((hm.objectsAgree hrl hl hr).typeName hne.1)
      case isFalse htype =>
        have hcall := continues_call (instanceId l) hp
        have hlt := ObjectGraph.unpaired_call (instanceId l)
          (ObjectGraph.lt_size_of_object? hr) hp
        obtain ⟨out, hout, hchk⟩ := exists_compareBodies right hchild hnames hl
          (hcall.depth_ne_zero hc) (hlt.trans_le hn)
        refine ⟨out, hout, (Checks.of_call hl hr hp (fun ht => ?_) hchk).congr hasked⟩
        by_contra hne
        exact htype ⟨ht, hne⟩

/-- Two references at a level below the top. -/
theorem exists_compareChild {within : ObjectRef → Option ObjectRef → Comparer → Option Outcome}
    (hwithin : ∀ l target c, c.scope.depth ≠ 0 → g.unpaired c < n →
      ∃ out, within l target c = some out ∧
        Checks g (fun m => ∃ r, target = some r ∧ m r = some l) c out) :
    ChildChecks g n (compareChild within) := by
  intro name l r c hname hc hn
  have hnull : ∀ {l r : Option ObjectRef}, l ≠ r → (∀ x y, l = some x → r ≠ some y) →
      ∃ out, some (false, c.tallyChild name l r) = some out ∧
        Checks g (fun m => (FieldData.child l).Agrees m (.child r)) c out := by
    intro l r hne hsome
    refine ⟨_, rfl, .of_fail (continues_tallyChild ..) ?_⟩
    rintro - m - - (heq | ⟨x, y, hx, hy, -⟩)
    · exact hne heq
    · exact hsome x y hx hy
  unfold compareChild
  rw [if_neg hc]
  cases l with
  | none =>
    cases r with
    | none => exact ⟨_, rfl, .of_pass (Or.inl rfl)⟩
    | some r => exact hnull (by simp) (by simp)
  | some l =>
    cases r with
    | none => exact hnull (by simp) (by simp)
    | some r =>
      simp only
      split
      case isTrue heq => exact ⟨_, rfl, .of_pass (Or.inl (congrArg some heq))⟩
      case isFalse hne =>
        split
        case isTrue hpolicy =>
          refine ⟨_, rfl, .of_not_faithful (continues_tallyChild ..) fun hf => ?_⟩
          exact hf.policy hpolicy
        case isFalse =>
          obtain ⟨out, hout, hchk⟩ := hwithin l (some r)
            { c with scope := c.scope.down name } (by simp [Scope.depth]) hn
          have hscope := Scope.segments_up_of_plain hchk.continues.segments hname
          refine ⟨(out.1, { out.2 with scope := out.2.scope.up }), by rw [hout]; rfl, ?_⟩
          refine (hchk.rescope hscope).congr fun m => ?_
          simp [FieldData.Agrees, hne]

/-- **A comparison below the top** ends when `fuel` goes beyond the objects that have not been
paired, and checks whether its two objects are paired. -/
theorem exists_compareWithin (l : ObjectRef) (target : Option ObjectRef) (c : Comparer)
    (hnames : g.PlainNames) (hc : c.scope.depth ≠ 0)
    (hfuel : g.unpaired c < fuel) :
    ∃ out, compareWithin g fuel l target c = some out ∧
      Checks g (fun m => ∃ r, target = some r ∧ m r = some l) c out := by
  -- each level that is entered pairs another object
  induction fuel generalizing l target c with
  | zero => exact absurd hfuel (Nat.not_lt_zero _)
  | succ fuel ih =>
    cases hl : g.object? l with
    | none =>
      refine ⟨(false, c), by rw [compareWithin, hl], .of_fail (.refl c) ?_⟩
      rintro _ m hm _ ⟨r, -, hrl⟩
      obtain ⟨left, -, hl', -⟩ := hm l r hrl
      cases hl.symm.trans hl'
    | some left =>
      have hchild : ChildChecks g fuel (compareChild (compareWithin g fuel)) :=
        exists_compareChild ih
      obtain ⟨⟨same, d⟩, hout, hchk⟩ :=
        exists_compareMet target hchild hnames hl hc (Nat.le_of_lt_succ hfuel)
      refine ⟨(d.result = 0 && same, d), ?_, hchk.and_result⟩
      rw [compareWithin_below hl hc, hout, Option.bind_some]

theorem unpaired_enterRoot_le (g : ObjectGraph) (c : Comparer) (left : DataObject) :
    g.unpaired (c.enterRoot left) ≤ g.size :=
  g.remaining_le_size _

theorem depth_enterRoot (c : Comparer) (left : DataObject) :
    (c.enterRoot left).scope.depth ≠ 0 := by
  simp [enterRoot, Scope.depth]

/-- **A comparison at the top** ends when `fuel` goes beyond the number of objects, and checks
whether its two objects are paired. -/
theorem exists_compareWithin_root (target : Option ObjectRef) (hnames : g.PlainNames)
    (hl : g.object? l = some left) (hc : c.scope.depth = 0) (hfuel : g.size < fuel) :
    ∃ same d, compareWithin g fuel l target c =
        some (d.result = 0 && same, d.leaveRoot l left (g.resolve target)) ∧
      Checks g (fun m => ∃ r, target = some r ∧ m r = some l) (c.enterRoot left) (same, d) := by
  obtain ⟨fuel, rfl⟩ := Nat.exists_eq_add_one_of_ne_zero (Nat.ne_zero_of_lt hfuel)
  have hchild : ChildChecks g fuel (compareChild (compareWithin g fuel)) :=
    exists_compareChild fun l target c => exists_compareWithin l target c hnames
  obtain ⟨⟨same, d⟩, hout, hchk⟩ := exists_compareMet target hchild hnames hl
    (c.depth_enterRoot left) ((unpaired_enterRoot_le g c left).trans (Nat.le_of_lt_succ hfuel))
  obtain ⟨reporter, hleave⟩ := leaveRoot_eq d l left (g.resolve target)
  refine ⟨same, d, ?_, hchk⟩
  rw [compareWithin_root hl hc, hout, Option.bind_some, hleave]

end Objects

end Comparer

end FieldAutomation
