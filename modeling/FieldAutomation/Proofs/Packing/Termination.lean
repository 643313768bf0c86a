import FieldAutomation.Proofs.Graph
import FieldAutomation.Proofs.Stream.Layout

/-!
# Packing and unpacking end

Whatever a graph looks like and whatever a stream holds, packing and unpacking come to an end
within the depth they are given: each level enters an object that was not being visited, and
leaves it again.

* `ObjectGraph.unvisited`: how many objects are not being visited, the measure;
* `Packer.Appended`, `Packer.Scanned`: what packing and unpacking leave of a packer.

Main statements: `ObjectGraph.pack?_eq_some` and `ObjectGraph.unpackLoaded?_eq_some`.
-/

namespace FieldAutomation

open ObjectGraph (instanceId)

namespace ObjectGraph

variable {g : ObjectGraph} {visits visits' : VisitSet} {r : ObjectRef}

/-- How many objects are not being visited. -/
def unvisited (g : ObjectGraph) (visits : VisitSet) : Nat :=
  g.remaining fun r => visits.contains (instanceId r)

theorem unvisited_eq_of_size_eq {h : ObjectGraph} (hs : h.size = g.size) :
    h.unvisited visits = g.unvisited visits := by
  rw [unvisited, unvisited, remaining, remaining, remainingRefs, remainingRefs, hs]

theorem unvisited_lt_depthBound (g : ObjectGraph) (visits : VisitSet) :
    g.unvisited visits < g.depthBound :=
  Nat.lt_succ_of_le (g.remaining_le_size _)

/-- Entering an object leaves fewer that are not being visited. -/
theorem unvisited_enter? (hr : r < g.size) (h : visits.enter? (instanceId r) = some visits') :
    g.unvisited visits' < g.unvisited visits := by
  have hc : visits.contains (instanceId r) = false := by
    rw [← Bool.not_eq_true, ← VisitSet.enter?_eq_none_iff, h]
    simp
  have hv := VisitSet.enter?_eq_some h
  subst hv
  refine remaining_lt (fun s hs => ?_) hr hc ?_
  · rw [VisitSet.contains, List.contains_cons, Bool.or_eq_true]
    exact Or.inr hs
  · rw [VisitSet.contains, List.contains_cons, beq_self_eq_true, Bool.true_or]

end ObjectGraph

namespace Packer

variable {p q r : Packer}

/-! ### What packing leaves of a packer -/

/-- `q` is what packing may leave of `p`: the stream goes on, and nothing else that decides about
later fields has changed. -/
structure Appended (p q : Packer) : Prop where
  settings : q.settings = p.settings
  visits : q.visits = p.visits
  size : q.size = p.size
  written : p.written <+: q.written

namespace Appended

theorem refl (p : Packer) : Appended p p := ⟨rfl, rfl, rfl, List.prefix_rfl⟩

theorem trans (h : Appended p q) (h' : Appended q r) : Appended p r where
  settings := h'.settings.trans h.settings
  visits := h'.visits.trans h.visits
  size := h'.size.trans h.size
  written := h.written.trans h'.written

theorem fail (p : Packer) (e : PackError) : Appended p (p.fail e) :=
  ⟨rfl, rfl, rfl, List.prefix_rfl⟩

end Appended

theorem Wrote.appended {l : List Bool} (h : Wrote p q l) : Appended p q where
  settings := h.settings
  visits := h.visits
  size := by rw [h.unchanged]
  written := ⟨l, h.written.symm⟩

theorem appended_packInt (p : Packer) (v size : Nat) : Appended p (p.packInt v size) := by
  unfold packInt
  split
  · exact .fail ..
  · exact (wrote_writeField ..).appended

theorem appended_packWide (p : Packer) (v size : Nat) : Appended p (p.packWide v size) := by
  rw [packWide_eq]
  split
  · exact appended_packInt ..
  · split
    · exact .fail ..
    · exact (wrote_writeField ..).appended

theorem appended_packInts (p : Packer) (values : List Nat) (size : Nat) :
    Appended p (values.foldl (fun p v => p.packInt v size) p) := by
  induction values generalizing p with
  | nil => exact .refl p
  | cons v rest ih => exact (appended_packInt p v size).trans (ih _)

theorem appended_packArray (p : Packer) (kind : ArrayKind) (values : List Nat)
    (size : Option Nat) : Appended p (p.packArray kind values size) := by
  unfold packArray
  dsimp only
  split
  · exact .fail ..
  · exact (wrote_writeElements ..).appended

/-- Packing a field never takes back a bit. -/
theorem appended_packData (data : FieldData) (p : Packer) : Appended p (packData data p) := by
  cases data with
  | int v size radix => exact appended_packInt ..
  | wide v size radix => exact appended_packWide ..
  | real x => exact (wrote_writeField ..).appended
  | str text length => exact (wrote_packString ..).appended
  | time t radix => exact (wrote_writeField ..).appended
  | array kind values size radix => exact appended_packArray ..
  | elements values size radix => exact appended_packInts ..
  | generic text typeName => exact .refl p
  | child target => exact .refl p
  | probe => exact ⟨rfl, rfl, rfl, List.prefix_rfl⟩

theorem appended_packMarker (p : Packer) (follows : Bool) : Appended p (p.packMarker follows) :=
  (wrote_packMarker p follows).appended

section Fields

variable {sub : Option ObjectRef → Packer → Option Packer} {visits : VisitSet}

theorem exists_packField
    (hsub : ∀ target p, p.visits = visits → ∃ q, sub target p = some q ∧ Appended p q)
    (f : Field) (hp : p.visits = visits) : ∃ q, packField sub f p = some q ∧ Appended p q := by
  unfold packField
  split
  · split
    · exact hsub _ p hp
    · exact ⟨_, rfl, appended_packData ..⟩
  · exact ⟨p, rfl, .refl p⟩

/-- Packing fields ends if packing the objects that they refer to does. -/
theorem exists_packFields
    (hsub : ∀ target p, p.visits = visits → ∃ q, sub target p = some q ∧ Appended p q)
    (fields : List Field) (hp : p.visits = visits) :
    ∃ q, packFields sub fields p = some q ∧ Appended p q := by
  induction fields generalizing p with
  | nil => exact ⟨p, rfl, .refl p⟩
  | cons f rest ih =>
    obtain ⟨q, hq, hpq⟩ := exists_packField hsub f hp
    obtain ⟨r, hr, hqr⟩ := ih (hpq.visits.trans hp)
    refine ⟨r, ?_, hpq.trans hqr⟩
    rw [packFields_cons, hq, Option.bind_some, hr]

end Fields

/-- Packing an object ends within as many levels as there are objects to enter. -/
theorem exists_packObject (g : ObjectGraph) (fuel : Nat) (target : Option ObjectRef)
    (hp : g.unvisited p.visits < fuel) :
    ∃ q, packObject g fuel target p = some q ∧ Appended p q := by
  induction fuel generalizing target p with
  | zero => omega
  | succ fuel ih =>
    rw [packObject]
    split
    case h_1 => exact ⟨_, rfl, appended_packMarker ..⟩
    case h_2 r o hres =>
      have hr := ObjectGraph.lt_size_of_object? (ObjectGraph.resolve_eq_some.1 hres).2
      split
      case h_1 =>
        have hm := appended_packMarker
          { p with reporter := p.reporter.warning "CYCFND" (cycleMessage r "pack") } false
        exact ⟨_, rfl, hm.settings, hm.visits, hm.size, hm.written⟩
      case h_2 visits henter =>
        split
        case isTrue => exact ⟨_, rfl, appended_packMarker ..⟩
        case isFalse =>
          -- entering makes the measure smaller, and leaving gives the visit set back
          have hlt := ObjectGraph.unvisited_enter? hr henter
          have hm := appended_packMarker { p with visits } true
          obtain ⟨q, hq, hpq⟩ := exists_packFields
            (fun target p (h : p.visits = visits) => ih target (by rw [h]; omega)) o.fields
            (p := { ({ p with visits }.packMarker true) with
              scope := ({ p with visits }.packMarker true).scope.down o.name }) hm.visits
          simp only [hq]
          refine ⟨_, rfl, ?_⟩
          exact {
            settings := hpq.settings.trans hm.settings
            visits := by
              have hv : q.visits = visits := hpq.visits.trans hm.visits
              rw [hv]
              exact VisitSet.leave_of_enter? henter
            size := hpq.size.trans hm.size
            written := hm.written.trans hpq.written }

/-! ### What unpacking leaves of a packer -/

/-- `q` is what unpacking may leave of `p`: the stream is as it was, and so is all else that
decides about later fields. -/
structure Scanned (p q : Packer) : Prop where
  settings : q.settings = p.settings
  visits : q.visits = p.visits
  size : q.size = p.size
  store : q.store = p.store

namespace Scanned

theorem refl (p : Packer) : Scanned p p := ⟨rfl, rfl, rfl, rfl⟩

theorem trans (h : Scanned p q) (h' : Scanned q r) : Scanned p r where
  settings := h'.settings.trans h.settings
  visits := h'.visits.trans h.visits
  size := h'.size.trans h.size
  store := h'.store.trans h.store

end Scanned

theorem scanned_unpackInt (p : Packer) (size : Nat) : Scanned p (p.unpackInt size).2 := by
  unfold unpackInt
  split
  · exact ⟨rfl, rfl, rfl, rfl⟩
  · split <;> exact ⟨rfl, rfl, rfl, rfl⟩

theorem scanned_unpackWide (p : Packer) (size : Nat) : Scanned p (p.unpackWide size).2 := by
  unfold unpackWide
  split
  · exact scanned_unpackInt ..
  · split
    · exact ⟨rfl, rfl, rfl, rfl⟩
    · split <;> exact ⟨rfl, rfl, rfl, rfl⟩

theorem scanned_unpackElements (size count : Nat) (p : Packer) :
    Scanned p (unpackElements size count p).2 := by
  induction count generalizing p with
  | zero => exact .refl p
  | succ count ih => exact (scanned_unpackInt p size).trans (ih _)

theorem scanned_readElements (unit count remaining : Nat) (p : Packer) :
    Scanned p (readElements unit count remaining p).2 := by
  induction count generalizing remaining p with
  | zero => exact .refl p
  | succ count ih =>
    exact Scanned.trans (q := p.advance (min remaining unit)) ⟨rfl, rfl, rfl, rfl⟩ (ih ..)

theorem scanned_unpackArray (p : Packer) (kind : ArrayKind) (count : Nat) (size : Option Nat) :
    Scanned p (p.unpackArray kind count size).2 := by
  unfold unpackArray
  dsimp only
  split
  · exact ⟨rfl, rfl, rfl, rfl⟩
  · split
    · exact ⟨rfl, rfl, rfl, rfl⟩
    · exact scanned_readElements ..

theorem scanned_unpackString (p : Packer) (length : Option Nat) :
    Scanned p (p.unpackString length).2 := by
  unfold unpackString
  extract_lets count
  split
  next text q hq =>
    have h : Scanned p q := by
      split at hq
      · cases hq
        exact .refl p
      · split at hq <;> cases hq <;> exact ⟨rfl, rfl, rfl, rfl⟩
    split
    · split <;> exact h.trans ⟨rfl, rfl, rfl, rfl⟩
    · exact h

/-- Unpacking a field never changes the stream. -/
theorem scanned_unpackData (data : FieldData) (p : Packer) :
    Scanned p (unpackData data p).2 := by
  cases data with
  | int v size radix => exact scanned_unpackInt ..
  | wide v size radix => exact scanned_unpackWide ..
  | real x => exact scanned_unpackInt p 64
  | str text length => exact scanned_unpackString ..
  | time t radix => exact scanned_unpackInt p 64
  | array kind values size radix => exact scanned_unpackArray ..
  | elements values size radix => exact scanned_unpackElements ..
  | generic text typeName => exact .refl p
  | child target => exact .refl p
  | probe => exact ⟨rfl, rfl, rfl, rfl⟩

theorem scanned_unpackMarker (p : Packer) : Scanned p p.unpackMarker.2 := by
  unfold unpackMarker
  split
  · exact scanned_unpackInt ..
  · exact .refl p

variable {u v : Unpacking}

section Fields

variable {sub : Option ObjectRef → Unpacking → Option Unpacking} {visits : VisitSet} {size : Nat}

theorem exists_unpackField
    (hsub : ∀ target u, u.packer.visits = visits → u.graph.size = size →
      ∃ v, sub target u = some v ∧ Scanned u.packer v.packer ∧ v.graph.size = u.graph.size)
    (r : ObjectRef) (index : Nat) (f : Field) (hu : u.packer.visits = visits)
    (hs : u.graph.size = size) :
    ∃ v, unpackField sub r index f u = some v ∧ Scanned u.packer v.packer ∧
      v.graph.size = u.graph.size := by
  unfold unpackField
  split
  · split
    · exact hsub _ u hu hs
    · exact ⟨_, rfl, scanned_unpackData .., ObjectGraph.size_setData ..⟩
  · exact ⟨u, rfl, .refl _, rfl⟩

/-- Unpacking fields ends if unpacking the objects that they refer to does. -/
theorem exists_unpackFields
    (hsub : ∀ target u, u.packer.visits = visits → u.graph.size = size →
      ∃ v, sub target u = some v ∧ Scanned u.packer v.packer ∧ v.graph.size = u.graph.size)
    (r : ObjectRef) (index : Nat) (fields : List Field) (hu : u.packer.visits = visits)
    (hs : u.graph.size = size) :
    ∃ v, unpackFields sub r index fields u = some v ∧ Scanned u.packer v.packer ∧
      v.graph.size = u.graph.size := by
  induction fields generalizing index u with
  | nil => exact ⟨u, rfl, .refl _, rfl⟩
  | cons f rest ih =>
    obtain ⟨v, hv, huv, hsv⟩ := exists_unpackField hsub r index f hu hs
    obtain ⟨w, hw, hvw, hsw⟩ := ih (index + 1) (huv.visits.trans hu) (hsv.trans hs)
    refine ⟨w, ?_, huv.trans hvw, hsw.trans hsv⟩
    rw [unpackFields_cons, hv, Option.bind_some, hw]

end Fields

/-- Unpacking an object ends within as many levels as there are objects to enter. -/
theorem exists_unpackObject (fuel : Nat) (target : Option ObjectRef)
    (hu : u.graph.unvisited u.packer.visits < fuel) :
    ∃ v, unpackObject fuel target u = some v ∧ Scanned u.packer v.packer ∧
      v.graph.size = u.graph.size := by
  induction fuel generalizing target u with
  | zero => omega
  | succ fuel ih =>
    have hm := scanned_unpackMarker u.packer
    rw [unpackObject]
    dsimp only
    split
    case isFalse => exact ⟨_, rfl, hm, rfl⟩
    case isTrue =>
      split
      case h_1 => exact ⟨_, rfl, hm.trans ⟨rfl, rfl, rfl, rfl⟩, rfl⟩
      case h_2 r o hres =>
        have hr := ObjectGraph.lt_size_of_object? (ObjectGraph.resolve_eq_some.1 hres).2
        split
        case h_1 => exact ⟨_, rfl, hm.trans ⟨rfl, rfl, rfl, rfl⟩, rfl⟩
        case h_2 visits henter =>
          -- the graph is written to on the way, but its objects stay the same
          have hlt := ObjectGraph.unvisited_enter? hr henter
          rw [hm.visits] at hlt
          obtain ⟨v, hv, huv, hsv⟩ := exists_unpackFields
            (fun target w (hw : w.packer.visits = visits) (hs : w.graph.size = u.graph.size) =>
              ih target (by
                rw [hw, ObjectGraph.unvisited_eq_of_size_eq hs]
                omega)) r 0 o.fields
            (u := { u with packer := { u.packer.unpackMarker.2 with
              visits, scope := u.packer.unpackMarker.2.scope.down o.name } }) rfl rfl
          simp only [hv]
          refine ⟨_, rfl, ?_, hsv⟩
          exact {
            settings := huv.settings.trans hm.settings
            visits := by
              have hw : v.packer.visits = visits := huv.visits
              rw [hw, ← hm.visits]
              exact VisitSet.leave_of_enter? henter
            size := huv.size.trans hm.size
            store := huv.store.trans hm.store }

end Packer

namespace ObjectGraph

variable (g : ObjectGraph) (r : ObjectRef) (p : Packer)

/-- Packing a graph is packing the fields of its root. -/
theorem exists_pack {o : DataObject} (ho : g.object? r = some o) :
    ∃ q, Packer.packFields (Packer.packObject g g.depthBound) o.fields (packRoot r o p.reset) =
        some q ∧ Packer.Appended (packRoot r o p.reset) q ∧
      g.pack? g.depthBound r p = some { q.commit with
        scope := q.scope.up
        visits := if p.visits.contains (instanceId r) then q.visits
          else q.visits.leave (instanceId r) } := by
  obtain ⟨q, hq, happ⟩ := Packer.exists_packFields
    (fun target q (_ : q.visits = (packRoot r o p.reset).visits) =>
      Packer.exists_packObject g g.depthBound target (g.unvisited_lt_depthBound q.visits))
    o.fields (p := packRoot r o p.reset) rfl
  refine ⟨q, hq, happ, ?_⟩
  simp only [pack?, ho, hq]
  rfl

/-- **Packing ends**: the depth that it is given is enough for every graph. -/
theorem pack?_eq_some : g.pack? g.depthBound r p = some (g.pack r p) := by
  obtain ⟨q, hq⟩ : ∃ q, g.pack? g.depthBound r p = some q := by
    cases ho : g.object? r with
    | none => exact ⟨p, by rw [pack?, ho]⟩
    | some o =>
      obtain ⟨q, -, -, hq⟩ := exists_pack g r p ho
      exact ⟨_, hq⟩
  rw [pack, hq, Option.getD_some]

variable (u : Packer.Unpacking)

/-- Unpacking into a graph is unpacking into the fields of its root. -/
theorem exists_unpackLoaded {o : DataObject} (ho : u.graph.object? r = some o) :
    ∃ v, Packer.unpackFields (Packer.unpackObject u.graph.depthBound) r 0 o.fields
        { u with packer := packRoot r o u.packer } = some v ∧
      unpackLoaded? u.graph.depthBound r u = some { v with packer := { v.packer with
        scope := v.packer.scope.up
        visits := if u.packer.visits.contains (instanceId r) then v.packer.visits
          else v.packer.visits.leave (instanceId r) } } := by
  obtain ⟨v, hv, -⟩ := Packer.exists_unpackFields
    (fun target w (_ : w.packer.visits = (packRoot r o u.packer).visits)
        (hs : w.graph.size = u.graph.size) =>
      Packer.exists_unpackObject u.graph.depthBound target (by
        rw [unvisited_eq_of_size_eq hs]
        exact u.graph.unvisited_lt_depthBound w.packer.visits))
    r 0 o.fields (u := { u with packer := packRoot r o u.packer }) rfl rfl
  refine ⟨v, hv, ?_⟩
  simp only [unpackLoaded?, ho, hv]
  rfl

/-- **Unpacking ends**, whatever the stream holds. -/
theorem unpackLoaded?_eq_some :
    unpackLoaded? u.graph.depthBound r u =
      some ((unpackLoaded? u.graph.depthBound r u).getD u) := by
  obtain ⟨v, hv⟩ : ∃ v, unpackLoaded? u.graph.depthBound r u = some v := by
    cases ho : u.graph.object? r with
    | none => exact ⟨u, by rw [unpackLoaded?, ho]⟩
    | some o =>
      obtain ⟨v, -, hv⟩ := exists_unpackLoaded r u ho
      exact ⟨_, hv⟩
  rw [hv, Option.getD_some]

end ObjectGraph

end FieldAutomation
