import FieldAutomation.Proofs.Comparing.Continuing

/-!
# Agreement of fields and objects

What it means that two objects agree, given which objects are taken to be equal.  They are of one
type, and their fields agree.  Fields without parts do by their values.  References agree if both
are null, or mean the same object, or objects that are paired.  A bisimulation pairs objects that
agree by the pairs it has itself.

A comparison does not look at the kinds of the fields that it compares: objects of one type have
fields of the same kinds.

* `FieldData.AgreesPlain`, `FieldData.Agrees`, `ObjectsAgree`: agreement;
* `Bisimulation`: a set of pairs that bears itself out, one left object for each right one;
* `Comparer.Decides`: a step that tells whether something holds, and pairs nothing.

Main statements: `ObjectsAgree.mono` and `Comparer.decides_compareField` (a field without parts
is compared by its value).
-/

namespace FieldAutomation

open ObjectGraph (instanceId)

/-- Which left object each right object is taken to be equal to. -/
abbrev Pairing := ObjectRef → Option ObjectRef

/-- Whether fields without parts agree: numbers by their low bits, lists as far as both go.
Fields of different kinds do not. -/
def FieldData.AgreesPlain : FieldData → FieldData → Prop
  | int l size _, int r _ _ | wide l size _, wide r _ _ =>
    Bits.truncate l size = Bits.truncate r size
  | real l, real r => l.agrees r = true
  | str l _, str r _ | generic l _, generic r _ => l = r
  | time l _, time r _ => Bits.truncate l 64 = Bits.truncate r 64
  | array .bytes l _ _, array .bytes r _ _ => Hex.encode l = Hex.encode r
  | array .words l _ _, array .words r _ _ =>
    ∀ x ∈ l.zip r, Bits.truncate x.1 32 = Bits.truncate x.2 32
  | elements l size _, elements r _ _ =>
    ∀ x ∈ l.zip r, Bits.truncate x.1 size = Bits.truncate x.2 size
  | probe, probe => True
  | _, _ => False

/-- Whether fields agree.  References do if they are the same, or mean paired objects. -/
def FieldData.Agrees (m : Pairing) (left right : FieldData) : Prop :=
  match left, right with
  | child l, child r => l = r ∨ ∃ x y, l = some x ∧ r = some y ∧ m y = some x
  | left, right => left.AgreesPlain right

/-- Whether a field is compared. -/
def Field.isCompared (s : ComparerSettings) (f : Field) : Bool :=
  f.visibility.holds s.physicalFields s.abstractFields

/-- Whether fields agree, as far as they are compared. -/
def FieldsAgree (s : ComparerSettings) (m : Pairing) (left right : Field) : Prop :=
  left.isCompared s = true → left.data.Agrees m right.data

/-- Whether objects agree: by the names of their types, if these count, by their types, which a bare
left object does not ask for, and field by field. -/
structure ObjectsAgree (s : ComparerSettings) (m : Pairing) (left right : DataObject) : Prop where
  typeName : s.checkType = true → left.typeName = right.typeName
  type : left.isBare = true ∨ left.concreteType = right.concreteType
  fields : ∀ x ∈ left.fields.zip right.fields, FieldsAgree s m x.1 x.2

/-- Whether two objects of a graph agree. -/
def PairAgrees (s : ComparerSettings) (g : ObjectGraph) (m : Pairing) (x y : ObjectRef) : Prop :=
  ∃ left right, g.object? x = some left ∧ g.object? y = some right ∧ ObjectsAgree s m left right

/-- All objects that are paired agree, by the pairs themselves. -/
def Bisimulation (s : ComparerSettings) (g : ObjectGraph) (m : Pairing) : Prop :=
  ∀ x y, m y = some x → PairAgrees s g m x y

theorem Bisimulation.objectsAgree {s : ComparerSettings} {g : ObjectGraph} {m : Pairing}
    {x y : ObjectRef} {left right : DataObject} (hm : Bisimulation s g m) (hxy : m y = some x)
    (hl : g.object? x = some left) (hr : g.object? y = some right) :
    ObjectsAgree s m left right := by
  obtain ⟨left', right', hl', hr', hlr⟩ := hm x y hxy
  cases hl.symm.trans hl'
  cases hr.symm.trans hr'
  exact hlr

theorem FieldData.eq_probe {data : FieldData} (h : data.kind = .probe) : data = .probe := by
  cases data <;> first | rfl | cases h

theorem FieldData.agrees_of_ne_child {m : Pairing} {left right : FieldData}
    (h : ∀ l r, left = .child l → right ≠ .child r) :
    left.Agrees m right ↔ left.AgreesPlain right := by
  unfold Agrees
  split
  · next l r => exact absurd rfl (h l r rfl)
  · exact Iff.rfl

/-! ### More pairs -/

section Mono

variable {s : ComparerSettings} {g : ObjectGraph} {m m' : Pairing}

theorem FieldData.Agrees.mono {left right : FieldData} (h : left.Agrees m right)
    (hm : ∀ y x, m y = some x → m' y = some x) : left.Agrees m' right := by
  unfold Agrees at h ⊢
  split at h
  · rcases h with rfl | ⟨x, y, hx, hy, hxy⟩
    · exact Or.inl rfl
    · exact Or.inr ⟨x, y, hx, hy, hm y x hxy⟩
  · exact h

theorem FieldsAgree.mono {left right : Field} (h : FieldsAgree s m left right)
    (hm : ∀ y x, m y = some x → m' y = some x) : FieldsAgree s m' left right :=
  fun hc => (h hc).mono hm

/-- Objects that agree still do when more objects are paired. -/
theorem ObjectsAgree.mono {left right : DataObject} (h : ObjectsAgree s m left right)
    (hm : ∀ y x, m y = some x → m' y = some x) : ObjectsAgree s m' left right where
  typeName := h.typeName
  type := h.type
  fields := fun x hx => (h.fields x hx).mono hm

theorem PairAgrees.mono {x y : ObjectRef} (h : PairAgrees s g m x y)
    (hm : ∀ y x, m y = some x → m' y = some x) : PairAgrees s g m' x y := by
  obtain ⟨left, right, hl, hr, hlr⟩ := h
  exact ⟨left, right, hl, hr, hlr.mono hm⟩

end Mono

namespace Comparer

variable {c d : Comparer} {out out' : Outcome} {P Q : Prop}

theorem includes_eq (c : Comparer) (f : Field) : c.includes f = f.isCompared c.settings := rfl

/-- A step that tells whether `P` holds.  It pairs nothing, and keeps no miscompare if it does. -/
structure Decides (P : Prop) (c : Comparer) (out : Outcome) : Prop where
  continues : Continues c out.2
  eq_true_iff : out.1 = true ↔ P
  pairs : out.2.pairs = c.pairs
  result : out.1 = true → out.2.result = c.result

namespace Decides

theorem pass (hP : P) (c : Comparer) : Decides P c (true, c) :=
  ⟨.refl c, ⟨fun _ => hP, fun _ => rfl⟩, rfl, fun _ => rfl⟩

theorem fail (hP : ¬ P) (h : Continues c d) (hd : d.pairs = c.pairs) :
    Decides P c (false, d) := by
  refine ⟨h, ⟨fun hf => ?_, fun hp => absurd hp hP⟩, hd, fun hf => ?_⟩
  · cases hf
  · cases hf

theorem and (h : Decides P c out) (h' : Decides Q out.2 out') :
    Decides (P ∧ Q) c (out.1 && out'.1, out'.2) where
  continues := h.continues.trans h'.continues
  eq_true_iff := by rw [Bool.and_eq_true, h.eq_true_iff, h'.eq_true_iff]
  pairs := h'.pairs.trans h.pairs
  result := by
    intro hb
    obtain ⟨hb, hb'⟩ := Bool.and_eq_true_iff.1 hb
    exact (h'.result hb').trans (h.result hb)

theorem rescope {σ τ : Scope} (h : Decides P { c with scope := σ } out)
    (hτ : τ.segments = c.scope.segments) : Decides P c (out.1, { out.2 with scope := τ }) :=
  ⟨h.continues.rescope hτ, h.eq_true_iff, h.pairs, h.result⟩

theorem congr (h : Decides P c out) (hPQ : P ↔ Q) : Decides Q c out :=
  ⟨h.continues, h.eq_true_iff.trans hPQ, h.pairs, h.result⟩

theorem given (h : Decides P c out) (hQ : Q) : Decides (Q → P) c out :=
  h.congr ⟨fun hP _ => hP, fun hP => hP hQ⟩

end Decides

theorem pairs_tallyField (c : Comparer) (name message : String) :
    (c.tallyField name message).pairs = c.pairs :=
  pairs_tally ..

theorem decides_compareNumber (c : Comparer) (name : String) (l r size : Nat) (radix : Radix) :
    Decides (Bits.truncate l size = Bits.truncate r size) c
      (c.compareNumber name l r size radix) := by
  rw [compareNumber_eq]
  split
  case isTrue h => exact .pass h c
  case isFalse h => exact .fail h (continues_tallyField ..) (pairs_tallyField ..)

theorem decides_compareReal (c : Comparer) (name : String) (l r : Binary64) :
    Decides (l.agrees r = true) c (c.compareReal name l r) := by
  unfold compareReal
  split
  case isTrue h => exact .pass h c
  case isFalse h => exact .fail h (continues_tallyField ..) (pairs_tallyField ..)

theorem decides_compareString (c : Comparer) (name l r : String) :
    Decides (l = r) c (c.compareString name l r) := by
  unfold compareString
  split
  case isTrue h => exact .pass h c
  case isFalse h => exact .fail h (continues_tallyField ..) (pairs_tallyField ..)

theorem decides_compareWords (c : Comparer) (name : String) (radix : Radix) (index : Nat)
    (l r : List Nat) :
    Decides (∀ x ∈ l.zip r, Bits.truncate x.1 32 = Bits.truncate x.2 32) c
      (compareWords name radix index l r c) := by
  induction l generalizing r index c with
  | nil => exact .pass (by simp) c
  | cons a l ih =>
    cases r with
    | nil => exact .pass (by simp) c
    | cons b r =>
      exact ((decides_compareNumber c _ a b 32 radix).and (ih _ (index + 1) r)).congr
        (by rw [List.zip_cons_cons, List.forall_mem_cons])

theorem decides_compareElements (c : Comparer) (size : Nat) (radix : Radix) (index : Nat)
    (l r : List Nat) :
    Decides (∀ x ∈ l.zip r, Bits.truncate x.1 size = Bits.truncate x.2 size) c
      (compareElements size radix index l r c) := by
  induction l generalizing r index c with
  | nil => exact .pass (by simp) c
  | cons a l ih =>
    cases r with
    | nil => exact .pass (by simp) c
    | cons b r =>
      have hfirst := decides_compareNumber { c with scope := c.scope.downElement index } "" a b
        size radix
      have hscope := Scope.segments_upElement_of_element hfirst.continues.segments
      exact ((hfirst.rescope hscope).and (ih _ (index + 1) r)).congr
        (by rw [List.zip_cons_cons, List.forall_mem_cons])

/-- A field without parts is compared by its value, with one of its kind. -/
theorem decides_compareField
    (child : String → Option ObjectRef → Option ObjectRef → Comparer → Option Outcome)
    {left right : Field} (hname : Scope.isIndexed left.name = false)
    (hinc : c.includes left = true)
    (hchild : ∀ l r, left.data = .child l → right.data ≠ .child r) :
    ∃ out, compareField child left right c = some out ∧
      Decides (left.data.kind = right.data.kind → left.data.AgreesPlain right.data) c out := by
  -- the cases of the comparer: kinds in common, two references, a probe, and different kinds
  rw [compareField, if_pos hinc]
  split
  case h_1 hl hr => rw [hl, hr]; exact ⟨_, rfl, (decides_compareNumber ..).given rfl⟩
  case h_2 hl hr => rw [hl, hr]; exact ⟨_, rfl, (decides_compareNumber ..).given rfl⟩
  case h_3 hl hr => rw [hl, hr]; exact ⟨_, rfl, (decides_compareReal ..).given rfl⟩
  case h_4 hl hr => rw [hl, hr]; exact ⟨_, rfl, (decides_compareString ..).given rfl⟩
  case h_5 hl hr => rw [hl, hr]; exact ⟨_, rfl, (decides_compareNumber ..).given rfl⟩
  case h_6 hl hr => rw [hl, hr]; exact ⟨_, rfl, (decides_compareString ..).given rfl⟩
  case h_7 hl hr => rw [hl, hr]; exact ⟨_, rfl, (decides_compareWords ..).given rfl⟩
  case h_8 l size radix r _ _ hl hr =>
    rw [hl, hr]
    have h := decides_compareElements { c with scope := c.scope.down left.name } size radix 0 l r
    have hscope := Scope.segments_up_of_plain h.continues.segments hname
    exact ⟨_, rfl, (h.rescope hscope).given rfl⟩
  case h_9 hl hr => rw [hl, hr]; exact ⟨_, rfl, (decides_compareString ..).given rfl⟩
  case h_10 l r hl hr => exact absurd hr (hchild l r hl)
  case h_11 hl =>
    -- a probe adds a note, on which nothing depends
    refine ⟨_, rfl, continues_note c _, ⟨fun _ hkind => ?_, fun _ => rfl⟩, rfl, fun _ => rfl⟩
    rw [hl] at hkind ⊢
    rw [FieldData.eq_probe hkind.symm]
    exact trivial
  case h_12 =>
    refine ⟨_, rfl, .pass (fun hkind => ?_) c⟩
    -- what is left has no kind in common
    cases hl : left.data <;> cases hr : right.data
    case array.array kind _ _ _ kind' _ _ _ => cases kind <;> cases kind' <;> grind [FieldData.kind]
    all_goals grind [FieldData.kind]

end Comparer

end FieldAutomation
