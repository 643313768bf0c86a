import FieldAutomation.Proofs.Packing.Matching
import FieldAutomation.Proofs.Packing.Termination

/-!
# Unpacking keeps in step with packing

Packing goes through one graph and unpacking through a matching one.  At each reference both have
to decide alike whether to follow it: packing by its visit set, and unpacking by the mark in the
stream or, without metadata, by a visit set of its own.  As the two sets hold matched objects all
along, unpacking reads exactly the bits that packing wrote, whatever lies behind them.

* `Aligned`: packing and unpacking at matched places;
* `Followed`: what unpacking has done after it followed a part of the packing;
* `Covered`: the objects that are restored once a reference was unpacked;
* `InStep`: unpacking of references follows packing.

Main statements: `followed_field` (one field), `followed_fields` (the fields of an object) and
`inStep_packObject` (whole graphs).
-/

namespace FieldAutomation

open ObjectGraph (instanceId)

namespace Packer

variable {p q r : Packer}

/-- `q` is `p` but for warnings about cycles. -/
def Warned (p q : Packer) : Prop :=
  ∃ l : List Report,
    q.reporter = { p.reporter with reports := p.reporter.reports ++ l } ∧
      ∀ w ∈ l, w.severity = .warning ∧ w.id = "CYCFND"

namespace Warned

theorem of_reporter_eq (h : q.reporter = p.reporter) : Warned p q := ⟨[], by simp [h], by simp⟩

theorem cycle {message : String} (h : q.reporter = p.reporter.warning "CYCFND" message) :
    Warned p q :=
  ⟨[⟨.warning, .none, "CYCFND", message⟩], h, by simp⟩

theorem trans (h : Warned p q) (h' : Warned q r) : Warned p r := by
  obtain ⟨l, hl, hw⟩ := h
  obtain ⟨l', hl', hw'⟩ := h'
  refine ⟨l ++ l', by rw [hl', hl, List.append_assoc], fun w hm => ?_⟩
  rcases List.mem_append.1 hm with hm | hm
  · exact hw w hm
  · exact hw' w hm

/-- Warnings about cycles are all that is new. -/
theorem withId_eq {id : String} (h : Warned p q) (hid : id ≠ "CYCFND") :
    q.reporter.withId id = p.reporter.withId id := by
  obtain ⟨l, hl, hw⟩ := h
  have hnil : l.filter (fun w => decide (w.id = id)) = [] := by
    refine List.filter_eq_nil_iff.2 fun w hm => ?_
    rw [(hw w hm).2]
    simpa using hid.symm
  rw [Reporter.withId, hl, List.filter_append, hnil, List.append_nil]
  rfl

end Warned

/-! ### One reference -/

variable {g : ObjectGraph} {fuel : Nat} {target : Option ObjectRef} {x : ObjectRef}
  {o : DataObject}

theorem packObject_of_resolve_eq_none (h : g.resolve target = none) :
    packObject g (fuel + 1) target p = some (p.packMarker false) := by
  rw [packObject, h]

theorem packObject_of_visited (h : g.resolve target = some (x, o))
    (hv : p.visits.contains (instanceId x) = true) :
    packObject g (fuel + 1) target p =
      some ({ p with
        reporter := p.reporter.warning "CYCFND" (cycleMessage x "pack") }.packMarker false) := by
  simp only [packObject, h, VisitSet.enter?_eq_none_iff.2 hv]

theorem packObject_of_not_visited (h : g.resolve target = some (x, o)) {visits : VisitSet}
    (hv : p.visits.enter? (instanceId x) = some visits) (hp : p.settings.policy ≠ .reference) :
    packObject g (fuel + 1) target p =
      (packFields (packObject g fuel) o.fields
        { ({ p with visits }.packMarker true) with
          scope := ({ p with visits }.packMarker true).scope.down o.name }).bind fun q =>
        some { q with scope := q.scope.up, visits := q.visits.leave (instanceId x) } := by
  simp only [packObject, h, hv, if_neg hp]
  rfl

variable {u : Unpacking} {q : Packer}

theorem unpackObject_of_not_follows (h : u.packer.unpackMarker = (false, q)) :
    unpackObject (fuel + 1) target u = some { u with packer := q } := by
  simp [unpackObject, h]

theorem unpackObject_of_visited (h : u.packer.unpackMarker = (true, q))
    (hp : q.settings.policy ≠ .reference) (ht : u.graph.resolve target = some (x, o))
    (hv : q.visits.contains (instanceId x) = true) :
    unpackObject (fuel + 1) target u =
      some { u with packer := { q with
        reporter := q.reporter.warning "CYCFND" (cycleMessage x "unpack") } } := by
  simp [unpackObject, h, hp, ht, VisitSet.enter?_eq_none_iff.2 hv]

theorem unpackObject_of_not_visited (h : u.packer.unpackMarker = (true, q))
    (hp : q.settings.policy ≠ .reference) (ht : u.graph.resolve target = some (x, o))
    {visits : VisitSet} (hv : q.visits.enter? (instanceId x) = some visits) :
    unpackObject (fuel + 1) target u =
      (unpackFields (unpackObject fuel) x 0 o.fields
        { u with packer := { q with visits, scope := q.scope.down o.name } }).bind fun v =>
        some { v with packer := { v.packer with
          scope := v.packer.scope.up, visits := v.packer.visits.leave (instanceId x) } } := by
  simp [unpackObject, h, hp, ht, hv]

/-! ### One field -/

variable {f : Field}

theorem packField_of_not_includes {sub : Option ObjectRef → Packer → Option Packer}
    (h : p.includes f = false) : packField sub f p = some p := by
  rw [packField, if_neg (by simp [h])]

theorem packField_of_child {sub : Option ObjectRef → Packer → Option Packer}
    (h : p.includes f = true) (hd : f.data = .child target) :
    packField sub f p = sub target p := by
  rw [packField, if_pos h]
  simp only [hd]

theorem packField_of_ne_child {sub : Option ObjectRef → Packer → Option Packer}
    (h : p.includes f = true) (hd : ∀ target, f.data ≠ .child target) :
    packField sub f p = some (packData f.data p) := by
  rw [packField, if_pos h]
  split
  · next target heq => exact absurd heq (hd target)
  · rfl

theorem unpackField_of_not_includes {sub : Option ObjectRef → Unpacking → Option Unpacking}
    {index : Nat} (h : u.packer.includes f = false) :
    unpackField sub x index f u = some u := by
  rw [unpackField, if_neg (by simp [h])]

theorem unpackField_of_child {sub : Option ObjectRef → Unpacking → Option Unpacking}
    {index : Nat} (h : u.packer.includes f = true) (hd : f.data = .child target) :
    unpackField sub x index f u = sub target u := by
  rw [unpackField, if_pos h]
  simp only [hd]

theorem unpackField_of_ne_child {sub : Option ObjectRef → Unpacking → Option Unpacking}
    {index : Nat} (h : u.packer.includes f = true) (hd : ∀ target, f.data ≠ .child target) :
    unpackField sub x index f u =
      some { graph := u.graph.setData x index (unpackData f.data u.packer).1
             packer := (unpackData f.data u.packer).2 } := by
  rw [unpackField, if_pos h]
  split
  · next target heq => exact absurd heq (hd target)
  · rfl

/-- What was written is known from the stream. -/
theorem Wrote.eq_of_written {l bits : List Bool} (h : Wrote p q l)
    (hw : q.written = p.written ++ bits) : bits = l := by
  rw [h.written, List.append_cancel_left_eq] at hw
  exact hw.symm

theorem remaining_of_scanned {bits rest : List Bool} (h : Scanned p q)
    (hc : q.cursor = p.cursor + bits.length) (hr : p.remaining = bits ++ rest) :
    q.remaining = rest := by
  rw [← remaining_advance hr]
  simp only [remaining, available, advance, h.store, h.size, hc]

end Packer

/-! ### Following a packing -/

open Packer

section Following

variable (s : PackerSettings) (g h : ObjectGraph) (m : ObjectRef → ObjectRef → Prop)

/-- Packing and unpacking at matched places, with `V` and `W` being visited. -/
structure Aligned (V W : VisitSet) (p : Packer) (u : Unpacking) : Prop where
  packing : p.settings = s
  unpacking : u.packer.settings = s
  packVisits : p.visits = V
  unpackVisits : u.packer.visits = W
  towards : Towards s g h m h u.graph

/-- While packing went from `p` to `q`, unpacking went from `u` to `v` and read `count` bits: it
noted no misuse, and took fields to their packed values. -/
structure Followed (p q : Packer) (u v : Unpacking) (count : Nat) : Prop where
  packErrors : q.errors = p.errors
  errors : v.packer.errors = u.packer.errors
  scanned : Scanned u.packer v.packer
  cursor : v.packer.cursor = u.packer.cursor + count
  warned : Warned u.packer v.packer
  towards : Towards s g h m u.graph v.graph

/-- All that is reached from a reference around visited objects is restored. -/
def Covered (W : VisitSet) (target : Option ObjectRef) (h' : ObjectGraph) : Prop :=
  ∀ ⦃y o⦄, h.resolve target = some (y, o) → W.contains (instanceId y) = false →
    ∀ ⦃z⦄, Relation.ReflTransGen
      (fun b c => ObjectGraph.PackedChild s h b c ∧ W.contains (instanceId c) = false) y z →
    ObjectRestored s g h m h' z

/-- Unpacking a reference follows packing a matched one. -/
def InStep (V W : VisitSet) (pack : Option ObjectRef → Packer → Option Packer)
    (unpack : Option ObjectRef → Unpacking → Option Unpacking) : Prop :=
  ∀ ⦃a b p q u v bits rest⦄, TargetsMatch s g h m a b → pack a p = some q →
    unpack b u = some v → Aligned s g h m V W p u → q.written = p.written ++ bits →
    u.packer.remaining = bits ++ rest →
    Followed s g h m p q u v bits.length ∧ Covered s g h m W b v.graph

/-- Visit sets that hold matched objects. -/
def SameVisits (V W : VisitSet) : Prop :=
  ∀ ⦃x y⦄, m x y → V.contains (instanceId x) = W.contains (instanceId y)

end Following

variable {s : PackerSettings} {g h : ObjectGraph} {m : ObjectRef → ObjectRef → Prop}
  {V W : VisitSet} {p q r : Packer} {u v w : Unpacking} {x y : ObjectRef}
  {bits rest : List Bool}

namespace Followed

theorem refl (p : Packer) (u : Unpacking) : Followed s g h m p p u u 0 :=
  ⟨rfl, rfl, .refl _, rfl, .of_reporter_eq rfl, .refl _⟩

theorem trans {k n : Nat} (hf : Followed s g h m p q u v k) (hf' : Followed s g h m q r v w n) :
    Followed s g h m p r u w (k + n) where
  packErrors := hf'.packErrors.trans hf.packErrors
  errors := hf'.errors.trans hf.errors
  scanned := hf.scanned.trans hf'.scanned
  cursor := by rw [hf'.cursor, hf.cursor, Nat.add_assoc]
  warned := hf.warned.trans hf'.warned
  towards := hf.towards.trans hf'.towards

theorem remaining (hf : Followed s g h m p q u v bits.length)
    (hr : u.packer.remaining = bits ++ rest) : v.packer.remaining = rest :=
  remaining_of_scanned hf.scanned hf.cursor hr

/-- Writing bits and reading them is a step that leaves the graph alone. -/
theorem of_wrote (hw : Wrote p q bits) {q' : Packer} (hs : Skipped u.packer q' bits.length) :
    Followed s g h m p q u { u with packer := q' } bits.length where
  packErrors := hw.errors
  errors := hs.errors
  scanned := ⟨hs.settings, hs.visits, hs.size, by rw [hs]; rfl⟩
  cursor := hs.cursor
  warned := .of_reporter_eq hs.reporter
  towards := .refl _

end Followed

theorem Aligned.followed {n : Nat} (ha : Aligned s g h m V W p u) (hp : Appended p q)
    (hf : Followed s g h m p q u v n) : Aligned s g h m V W q v where
  packing := hp.settings.trans ha.packing
  unpacking := hf.scanned.settings.trans ha.unpacking
  packVisits := hp.visits.trans ha.packVisits
  unpackVisits := hf.scanned.visits.trans ha.unpackVisits
  towards := ha.towards.trans hf.towards

theorem Covered.towards {target : Option ObjectRef} {h₁ h₂ : ObjectGraph}
    (hc : Covered s g h m W target h₁) (ht : Towards s g h m h₁ h₂) :
    Covered s g h m W target h₂ :=
  fun _ _ hres hy _ hz => (hc hres hy hz).towards ht

/-- Entering matched objects leaves visit sets that hold matched objects. -/
theorem SameVisits.enter? {V' W' : VisitSet} (hv : SameVisits m V W) (hm : Matching s g h m)
    (hxy : m x y) (hV : V.enter? (instanceId x) = some V')
    (hW : W.enter? (instanceId y) = some W') : SameVisits m V' W' := by
  have hV' := VisitSet.enter?_eq_some hV
  have hW' := VisitSet.enter?_eq_some hW
  subst hV' hW'
  intro x' y' hxy'
  have heq : instanceId x' = instanceId x ↔ instanceId y' = instanceId y := by
    constructor
    · intro hx
      obtain rfl := ObjectGraph.instanceId_injective hx
      rw [hm.functional hxy hxy']
    · intro hy
      obtain rfl := ObjectGraph.instanceId_injective hy
      rw [hm.injective hxy hxy']
  have hrest : V.active.contains (instanceId x') = W.active.contains (instanceId y') := hv hxy'
  simp only [VisitSet.contains, List.contains_cons, hrest]
  rw [Bool.eq_iff_iff]
  simp only [Bool.or_eq_true, beq_iff_eq, heq]

/-! ### Fields -/

section Fields

variable {pack : Option ObjectRef → Packer → Option Packer}
  {unpack : Option ObjectRef → Unpacking → Option Unpacking} {index : Nat}

/-- Unpacking a field follows packing the field that it is matched with. -/
theorem followed_field {f k k₁ : Field} (hm : Matching s g h m)
    (hin : InStep s g h m V W pack unpack) (hxy : m x y) (hf : g.field? x index = some f)
    (hk : h.field? y index = some k) (hfk : FieldsMatch s g h m f k)
    (hfk₁ : FieldsMatch s g h m f k₁)
    (hk₁ : f.carried s.bigEndian k₁ = f.carried s.bigEndian k) (hp : packField pack f p = some q)
    (hu : unpackField unpack y index k₁ u = some v) (ha : Aligned s g h m V W p u)
    (hw : q.written = p.written ++ bits) (hr : u.packer.remaining = bits ++ rest) :
    Followed s g h m p q u v bits.length ∧
      (f.isPacked s → FieldRestored s g h m v.graph y index ∧
        ∀ b, k.data = .child b → Covered s g h m W b v.graph) := by
  have hinc : p.includes f = f.isPacked s := by rw [includes_eq, ha.packing]
  have hinc₁ : u.packer.includes k₁ = f.isPacked s := by
    rw [includes_eq, ha.unpacking, hfk₁.isPacked_eq]
  cases hpk : f.isPacked s with
  | false =>
    rw [hpk] at hinc hinc₁
    rw [packField_of_not_includes hinc] at hp
    rw [unpackField_of_not_includes hinc₁] at hu
    cases hp
    cases hu
    rw [List.self_eq_append_right] at hw
    subst hw
    exact ⟨.refl .., nofun⟩
  | true =>
    rw [hpk] at hinc hinc₁
    have hd := hfk.data hpk
    have hd₁ := hfk₁.data hpk
    by_cases hc : ∃ a, f.data = .child a
    · obtain ⟨a, hfa⟩ := hc
      obtain ⟨b, hkb, hab⟩ := hd.exists_child hfa
      -- a reference stays what it is
      have hkk : f.carried s.bigEndian k = k := by
        rw [Field.carried, hfa, hkb]
        exact congrArg (fun d => { k with data := d }) hkb.symm
      have hkb₁ : k₁.data = .child b := by
        obtain ⟨b₁, hkb₁, -⟩ := hd₁.exists_child hfa
        have hdata := congrArg Field.data hk₁
        simp only [Field.carried, hfa, hkb, hkb₁, FieldData.carried] at hdata
        rw [hkb₁, hdata]
      rw [packField_of_child hinc hfa] at hp
      rw [unpackField_of_child hinc₁ hkb₁] at hu
      obtain ⟨hfol, hcov⟩ := hin hab hp hu ha hw hr
      refine ⟨hfol, fun _ => ⟨⟨x, f, k, hxy, hf, hpk, hk, ?_⟩, fun b' hb' => ?_⟩⟩
      · rcases (ha.towards.trans hfol.towards).eq_or_eq_carried hm hxy hf hk with heq | ⟨-, heq⟩
        · rw [heq, hkk]
        · exact heq
      · rw [hkb] at hb'
        cases hb'
        exact hcov
    · have hfc : ∀ a, f.data ≠ .child a := fun a h => hc ⟨a, h⟩
      have hkc := hd.fits.ne_child hfc
      rw [packField_of_ne_child hinc hfc] at hp
      rw [unpackField_of_ne_child hinc₁ (hd₁.fits.ne_child hfc)] at hu
      cases hp
      cases hu
      -- the bits that were written are the layout of the field, and so is what is read
      obtain ⟨hl, hfits, hend⟩ := hd₁.of_ne_child hfc
      have hwrote := wrote_packData p hl
      rw [ha.packing] at hwrote
      obtain rfl := hwrote.eq_of_written hw
      obtain ⟨hvalue, hskip⟩ := unpackData_of_remaining hl hfits
        (fun hre => textEnds_terminator_append (Or.inl (ha.unpacking ▸ hend hre)))
        (by rwa [ha.unpacking])
      rw [ha.unpacking] at hvalue hskip
      obtain ⟨ht, hres⟩ := towards_setData ha.towards hm hxy hf hpk hk hk₁
      have hfol : Followed s g h m p _ u { u with packer := (unpackData k₁.data u.packer).2 } _ :=
        .of_wrote hwrote hskip
      rw [hvalue]
      exact ⟨{ hfol with towards := ht }, fun _ => ⟨hres, fun b hb => absurd hb (hkc b)⟩⟩

/-- Unpacking the fields of an object follows packing those of the object it is matched with.
The fields `ks` are those that it held when it was entered. -/
theorem followed_fields {h₀ : ObjectGraph} {fs ks : List Field} (index : Nat)
    (hm : Matching s g h m) (hin : InStep s g h m V W pack unpack)
    (happ : ∀ target p, p.visits = V → ∃ q, pack target p = some q ∧ Appended p q)
    (hxy : m x y) (ht : Towards s g h m h h₀) (hfs : ∀ j, fs[j]? = g.field? x (index + j))
    (hks : ∀ j, ks[j]? = h₀.field? y (index + j)) (hp : packFields pack fs p = some q)
    (hu : unpackFields unpack y index ks u = some v) (ha : Aligned s g h m V W p u)
    (hw : q.written = p.written ++ bits) (hr : u.packer.remaining = bits ++ rest) :
    Followed s g h m p q u v bits.length ∧
      ∀ j f k, fs[j]? = some f → h.field? y (index + j) = some k → f.isPacked s →
        FieldRestored s g h m v.graph y (index + j) ∧
          ∀ b, k.data = .child b → Covered s g h m W b v.graph := by
  -- along the fields that are left; the graph in between is on its way to the packed values
  induction fs generalizing index ks p u bits with
  | nil =>
    have hx : g.field? x index = none := (hfs 0).symm
    have hks0 : ks[0]? = none := by
      rw [hks]
      rcases hm.fields hxy index with ⟨-, hk⟩ | ⟨f, k, hf, -⟩
      · exact ht.field?_eq_none hk
      · rw [hx] at hf
        cases hf
    obtain rfl : ks = [] := List.eq_nil_of_length_eq_zero (by simpa using hks0)
    cases hp
    cases hu
    rw [List.self_eq_append_right] at hw
    subst hw
    refine ⟨.refl .., fun j f k hf => ?_⟩
    rw [List.getElem?_nil] at hf
    cases hf
  | cons f fs ih =>
    have hf : g.field? x index = some f := (hfs 0).symm
    obtain ⟨k, hk, hfk⟩ := hm.exists_right hxy hf
    obtain ⟨k₁, hk₁, hfk₁, hcar⟩ := ht.exists_field hm hxy hf hk hfk
    obtain ⟨ks, rfl⟩ : ∃ ks', ks = k₁ :: ks' :=
      List.head?_eq_some_iff.1 (by rw [List.head?_eq_getElem?, hks, Nat.add_zero, hk₁])
    rw [packFields_cons, Option.bind_eq_some_iff] at hp
    rw [unpackFields_cons, Option.bind_eq_some_iff] at hu
    obtain ⟨p₁, hp₁, hp⟩ := hp
    obtain ⟨u₁, hu₁, hu⟩ := hu
    -- the bits of this field, and those of the others
    obtain ⟨p₁', hp₁', happ₁⟩ := exists_packField happ f ha.packVisits
    rw [hp₁] at hp₁'
    cases hp₁'
    obtain ⟨q', hq', happ₂⟩ := exists_packFields happ fs (happ₁.visits.trans ha.packVisits)
    rw [hp] at hq'
    cases hq'
    obtain ⟨b₁, hb₁⟩ := happ₁.written
    obtain ⟨b₂, hb₂⟩ := happ₂.written
    obtain rfl : bits = b₁ ++ b₂ := by
      rw [← hb₂, ← hb₁, List.append_assoc, List.append_cancel_left_eq] at hw
      exact hw.symm
    rw [List.append_assoc] at hr
    obtain ⟨hfol₁, hres₁⟩ :=
      followed_field hm hin hxy hf hk hfk hfk₁ hcar hp₁ hu₁ ha hb₁.symm hr
    have hnext : ∀ j, index + (j + 1) = index + 1 + j := fun j => by omega
    obtain ⟨hfol₂, hres₂⟩ := ih (index + 1) (fun j => hnext j ▸ hfs (j + 1))
      (fun j => hnext j ▸ hks (j + 1)) hp hu (ha.followed happ₁ hfol₁) hb₂.symm (hfol₁.remaining hr)
    refine ⟨by rw [List.length_append]; exact hfol₁.trans hfol₂, fun j f' k' hf' hk' hpk => ?_⟩
    -- what this field restored the later ones leave restored
    cases j with
    | zero =>
      cases hf'
      rw [Nat.add_zero, hk] at hk'
      cases hk'
      obtain ⟨hres, hcov⟩ := hres₁ hpk
      exact ⟨hres.towards hfol₂.towards, fun b hb => (hcov b hb).towards hfol₂.towards⟩
    | succ j =>
      rw [hnext] at hk' ⊢
      exact hres₂ j f' k' hf' hk' hpk

end Fields

/-! ### References -/

theorem wrote_mark (hp : p.settings = s) (follows : Bool) :
    Wrote p (p.packMarker follows) (s.mark follows) := by
  rw [← hp]
  exact wrote_packMarker p follows

/-- Reading a mark follows writing it. -/
theorem followed_mark {follows : Bool} (ha : Aligned s g h m V W p u)
    (hr : u.packer.remaining = s.mark follows ++ rest) :
    u.packer.unpackMarker =
        (follows || !s.useMetadata, u.packer.advance (s.mark follows).length) ∧
      Followed s g h m p (p.packMarker follows) u
        { u with packer := u.packer.advance (s.mark follows).length }
        (s.mark follows).length := by
  have hread := unpackMarker_of_remaining (p := u.packer) (by rwa [ha.unpacking])
  rw [ha.unpacking] at hread
  exact ⟨hread, .of_wrote (wrote_mark ha.packing follows) rfl⟩

section Objects

variable {n k : Nat} {b : Option ObjectRef} {o o' : DataObject}

/-- Nothing follows a null mark. -/
theorem followed_null (hmeta : s.useMetadata = true) (hu : unpackObject (k + 1) b u = some v)
    (ha : Aligned s g h m V W p u) (hr : u.packer.remaining = s.mark false ++ rest) :
    Followed s g h m p (p.packMarker false) u v (s.mark false).length := by
  obtain ⟨hread, hfol⟩ := followed_mark ha hr
  rw [hmeta] at hread
  rw [unpackObject_of_not_follows hread] at hu
  cases hu
  exact hfol

/-- An object that is being visited is not followed: its mark says so or, without metadata, it is
found among those that are visited by unpacking. -/
theorem followed_visited (hpol : s.policy ≠ .reference)
    (hy : u.graph.resolve b = some (y, o')) (hW : W.contains (instanceId y) = true)
    (hu : unpackObject (k + 1) b u = some v) (ha : Aligned s g h m V W p u)
    (hr : u.packer.remaining = s.mark false ++ rest) :
    Followed s g h m p (p.packMarker false) u v (s.mark false).length := by
  cases hmeta : s.useMetadata with
  | true => exact followed_null hmeta hu ha hr
  | false =>
    obtain ⟨hread, hfol⟩ := followed_mark ha hr
    rw [hmeta] at hread
    rw [unpackObject_of_visited hread (ha.unpacking ▸ hpol) hy
      (by rw [← ha.unpackVisits] at hW; exact hW)] at hu
    cases hu
    have hscan := hfol.scanned
    exact { hfol with
      scanned := ⟨hscan.settings, hscan.visits, hscan.size, hscan.store⟩
      warned := hfol.warned.trans (.cycle rfl) }

/-- An object that is not visited is gone through with its fields, and all that is reached from it
around visited objects is restored. -/
theorem followed_object {V' W' : VisitSet} (hm : Matching s g h m) (hxy : m x y)
    (hgx : g.object? x = some o) (huy : u.graph.object? y = some o')
    (hW' : W.enter? (instanceId y) = some W')
    (hin : InStep s g h m V' W' (packObject g n) (unpackObject k))
    (happ : ∀ target p, p.visits = V' → ∃ q, packObject g n target p = some q ∧ Appended p q)
    (hp : packFields (packObject g n) o.fields p = some q)
    (hu : unpackFields (unpackObject k) y 0 o'.fields u = some v)
    (ha : Aligned s g h m V' W' p u) (hw : q.written = p.written ++ bits)
    (hr : u.packer.remaining = bits ++ rest) :
    Followed s g h m p q u v bits.length ∧
      ∀ z, Relation.ReflTransGen
        (fun b c => ObjectGraph.PackedChild s h b c ∧ W.contains (instanceId c) = false) y z →
        ObjectRestored s g h m v.graph z := by
  obtain ⟨hfol, hres⟩ := followed_fields 0 hm hin happ hxy ha.towards
    (fun j => by rw [Nat.zero_add, ObjectGraph.field?_of_object? hgx])
    (fun j => by rw [Nat.zero_add, ObjectGraph.field?_of_object? huy]) hp hu ha hw hr
  have hfield : ∀ j, o.fields[j]? = g.field? x j := fun j =>
    (ObjectGraph.field?_of_object? hgx j).symm
  refine ⟨hfol, fun z hz => ?_⟩
  -- either `y` itself, or something reached from one of its fields without coming back to it
  rcases exists_child_of_reflTransGen hz with rfl | ⟨c, ⟨j, k, b, oc, hk, hpk, hb, hc⟩, hcW, hcz⟩
  · intro x' j f hx' hf hpk
    obtain rfl := hm.injective hxy hx'
    obtain ⟨k, hk, -⟩ := hm.exists_right hxy hf
    have := (hres j f k ((hfield j).trans hf) (by rwa [Nat.zero_add]) hpk).1
    rwa [Nat.zero_add] at this
  · obtain ⟨f, hf, hfk⟩ := hm.exists_left hxy hk
    have hcov := (hres j f k ((hfield j).trans hf) (by rwa [Nat.zero_add])
      (hfk.isPacked_eq ▸ hpk)).2 b hb
    -- around the visited objects and `y` is around the objects that are now visited
    have haround : ∀ d, W.contains (instanceId d) = false ∧ d ≠ y →
        W'.contains (instanceId d) = false := by
      rintro d ⟨hd, hne⟩
      rw [VisitSet.enter?_eq_some hW', VisitSet.contains, List.contains_cons,
        Bool.or_eq_false_iff]
      exact ⟨beq_eq_false_iff_ne.2 fun h => hne (ObjectGraph.instanceId_injective h), hd⟩
    refine hcov hc (haround c hcW) (Relation.ReflTransGen.mono ?_ _ _ hcz)
    rintro d e ⟨hde, he⟩
    exact ⟨hde, haround e he⟩

/-- An object that is entered is gone through behind its mark, and left again. -/
theorem followed_entered {a : Option ObjectRef} {V' W' : VisitSet} (hm : Matching s g h m)
    (hpol : s.policy ≠ .reference) (hxy : m x y) (hga : g.resolve a = some (x, o))
    (huy : u.graph.resolve b = some (y, o')) (hV' : V.enter? (instanceId x) = some V')
    (hW' : W.enter? (instanceId y) = some W')
    (hin : InStep s g h m V' W' (packObject g n) (unpackObject k)) (hn : g.unvisited V' < n)
    (hp : packObject g (n + 1) a p = some q) (hu : unpackObject (k + 1) b u = some v)
    (ha : Aligned s g h m V W p u) (hw : q.written = p.written ++ bits)
    (hr : u.packer.remaining = bits ++ rest) :
    Followed s g h m p q u v bits.length ∧
      ∀ z, Relation.ReflTransGen
        (fun b c => ObjectGraph.PackedChild s h b c ∧ W.contains (instanceId c) = false) y z →
        ObjectRestored s g h m v.graph z := by
  have happ : ∀ target p, p.visits = V' →
      ∃ q, packObject g n target p = some q ∧ Appended p q :=
    fun target p h => exists_packObject g n target (by rw [h]; exact hn)
  rw [packObject_of_not_visited hga (ha.packVisits ▸ hV') (ha.packing ▸ hpol),
    Option.bind_eq_some_iff] at hp
  obtain ⟨q₀, hq₀, hq⟩ := hp
  cases hq
  -- the stream: first the mark, then what the fields wrote
  have hwrote := wrote_mark (p := { p with visits := V' }) ha.packing true
  obtain ⟨q₀', hq₀', happ₀⟩ := exists_packFields happ o.fields
    (p := { ({ p with visits := V' }.packMarker true) with
      scope := ({ p with visits := V' }.packMarker true).scope.down o.name }) hwrote.visits
  rw [hq₀] at hq₀'
  cases hq₀'
  obtain ⟨b₂, hb₂⟩ := happ₀.written
  obtain rfl : bits = s.mark true ++ b₂ := by
    have hw₁ : ({ p with visits := V' }.packMarker true).written ++ b₂ =
        p.written ++ bits := hb₂.trans hw
    rw [hwrote.written, List.append_assoc] at hw₁
    exact (List.append_cancel_left hw₁).symm
  rw [List.append_assoc] at hr
  -- unpacking reads the mark and enters the matched object
  obtain ⟨hread, hmark⟩ := followed_mark ha hr
  rw [Bool.true_or] at hread
  rw [unpackObject_of_not_visited hread (ha.unpacking ▸ hpol) huy (ha.unpackVisits ▸ hW'),
    Option.bind_eq_some_iff] at hu
  obtain ⟨v₀, hv₀, hv₁⟩ := hu
  cases hv₁
  obtain ⟨hfol, hres⟩ := followed_object
    (u := { u with packer := { u.packer.advance (s.mark true).length with
      visits := W'
      scope := (u.packer.advance (s.mark true).length).scope.down o'.name } })
    hm hxy (ObjectGraph.resolve_eq_some.1 hga).2
    (ObjectGraph.resolve_eq_some.1 huy).2 hW' hin happ hq₀ hv₀
    ⟨hwrote.settings.trans ha.packing, ha.unpacking, hwrote.visits, rfl, ha.towards⟩
    hb₂.symm (hmark.remaining hr)
  have hleave : v₀.packer.visits.leave (instanceId y) = u.packer.visits := by
    rw [show v₀.packer.visits = W' from hfol.scanned.visits, VisitSet.leave_of_enter? hW',
      ha.unpackVisits]
  refine ⟨?_, hres⟩
  rw [List.length_append]
  exact {
    packErrors := hfol.packErrors.trans hwrote.errors
    errors := hfol.errors
    scanned := ⟨hfol.scanned.settings, hleave, hfol.scanned.size, hfol.scanned.store⟩
    cursor := hfol.cursor.trans (Nat.add_assoc ..)
    warned := hfol.warned
    towards := hfol.towards }

/-- **Unpacking follows packing through whole graphs**, whatever is being visited already. -/
theorem inStep_packObject (hm : Matching s g h m) (hpol : s.policy ≠ .reference)
    (hv : SameVisits m V W) (hn : g.unvisited V < n) :
    InStep s g h m V W (packObject g n) (unpackObject k) := by
  -- on the depth of packing; that unpacking has depth enough is seen from its coming to an end
  induction n generalizing k V W with
  | zero => omega
  | succ n ih =>
    intro a b p q u v bits rest hab hp hu ha hw hr
    cases k with
    | zero => cases hu
    | succ k =>
    unfold TargetsMatch at hab
    split at hab
    case h_3 => exact hab.elim
    case h_2 hga hhb =>
      rw [packObject_of_resolve_eq_none hga] at hp
      cases hp
      obtain rfl := (wrote_mark ha.packing false).eq_of_written hw
      refine ⟨followed_null hab hu ha hr, ?_⟩
      intro y o hy
      rw [hhb] at hy
      cases hy
    case h_1 x o y oy hga hhb =>
      obtain ⟨o', huy⟩ := ha.towards.exists_resolve hhb
      cases hV : V.contains (instanceId x) with
      | true =>
        have hW := (hv hab).symm.trans hV
        rw [packObject_of_visited hga (ha.packVisits ▸ hV)] at hp
        cases hp
        have hwrote := wrote_mark (p := { p with
          reporter := p.reporter.warning "CYCFND" (cycleMessage x "pack") }) ha.packing false
        obtain rfl := hwrote.eq_of_written hw
        refine ⟨?_, ?_⟩
        · have hfol := followed_visited hpol huy hW hu ha hr
          exact { hfol with packErrors := hwrote.errors }
        · intro y' o'' hy hW'
          rw [hhb] at hy
          cases hy
          rw [hW] at hW'
          cases hW'
      | false =>
        have hW := (hv hab).symm.trans hV
        have hV' := VisitSet.enter?_of_not_contains hV
        have hW' := VisitSet.enter?_of_not_contains hW
        generalize (⟨instanceId x :: V.active⟩ : VisitSet) = V' at hV'
        generalize (⟨instanceId y :: W.active⟩ : VisitSet) = W' at hW'
        have hlt := ObjectGraph.unvisited_enter?
          (ObjectGraph.lt_size_of_object? (ObjectGraph.resolve_eq_some.1 hga).2) hV'
        obtain ⟨hfol, hres⟩ := followed_entered hm hpol hab hga huy hV' hW'
          (ih (hv.enter? hm hab hV' hW') (by omega)) (by omega) hp hu ha hw hr
        refine ⟨hfol, ?_⟩
        intro y' o'' hy _ z hz
        rw [hhb] at hy
        cases hy
        exact hres z hz

end Objects

end FieldAutomation
