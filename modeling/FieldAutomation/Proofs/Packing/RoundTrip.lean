import FieldAutomation.Proofs.Packing.InStep
import FieldAutomation.Proofs.Stream.Transport

/-!
# Object graphs there and back

An object graph is packed, its stream handed over as bits, bytes or words, and unpacked into a
graph of the same shape.  Sharing and cycles make no difference.

Main statement: `ObjectGraph.unpack_pack`.
-/

namespace FieldAutomation

open ObjectGraph (instanceId)

open Packer

variable {g h : ObjectGraph} {m : ObjectRef → ObjectRef → Prop} {p q : Packer} {src dst : ObjectRef}

/-- The outcome of unpacking a stream that was read without misuse. -/
theorem ObjectGraph.unpackOutcome_of_errors_eq_nil (size : Nat) (he : p.errors = []) :
    (unpackOutcome size p).1 = .ok p.cursor ∧ (unpackOutcome size p).2.errors = [] ∧
      (unpackOutcome size p).2.reporter.withId "BDUNPK" = p.reporter.withId "BDUNPK" ++
        if p.cursor = size then []
        else [⟨.warning, .none, "BDUNPK", (PackError.incompleteUnpack p.cursor size).message⟩] := by
  simp only [unpackOutcome, he, List.head?_nil]
  split
  case isTrue => exact ⟨rfl, he, (List.append_nil _).symm⟩
  case isFalse =>
    refine ⟨rfl, rfl, ?_⟩
    simp [Reporter.withId, PackError.reportId]

theorem ObjectGraph.unpack_of_unpackLoaded? {load : Packer → Packer} {w : Unpacking}
    (hw : unpackLoaded? h.depthBound dst ⟨h, load q.reset⟩ = some w) :
    h.unpack dst load q = ((unpackOutcome (load q.reset).size w.packer).1, w.graph,
      (unpackOutcome (load q.reset).size w.packer).2) := by
  simp only [unpack, hw, Option.getD_some]

theorem ObjectGraph.visits_packRoot {o : DataObject} {visits : VisitSet}
    (hv : p.visits.enter? (instanceId src) = some visits) :
    (packRoot src o p).visits = visits := by
  rw [packRoot, hv, Option.getD_some]

namespace Matching

/-- What packing wrote, unpacking reads from any place, and restores all that is reached. -/
theorem followed_root {s : PackerSettings} {rest : List Bool} {o o' : DataObject}
    {v : Unpacking} {loaded : Packer} (hm : Matching s g h m) (hroot : m src dst)
    (hpol : s.policy ≠ .reference) (ho : g.object? src = some o) (ho' : h.object? dst = some o')
    (hp : p.settings = s) (hl : loaded.settings = s)
    (hidle : ∀ x y, m x y → p.visits.contains (instanceId x) = false ∧
      loaded.visits.contains (instanceId y) = false)
    (hpack : packFields (packObject g g.depthBound) o.fields
      (ObjectGraph.packRoot src o p.reset) = some q)
    (hunpack : unpackFields (unpackObject h.depthBound) dst 0 o'.fields
      ⟨h, ObjectGraph.packRoot dst o' loaded⟩ = some v)
    (hr : loaded.remaining = q.written ++ rest) :
    Followed s g h m (ObjectGraph.packRoot src o p.reset) q
        ⟨h, ObjectGraph.packRoot dst o' loaded⟩ v q.cursor ∧
      ∀ z, Relation.ReflTransGen (ObjectGraph.PackedChild s h) dst z →
        ObjectRestored s g h m v.graph z := by
  obtain ⟨hsrc, hdst⟩ := hidle src dst hroot
  have hV := VisitSet.enter?_of_not_contains hsrc
  have hW := VisitSet.enter?_of_not_contains hdst
  generalize (⟨instanceId src :: p.visits.active⟩ : VisitSet) = V at hV
  generalize (⟨instanceId dst :: loaded.visits.active⟩ : VisitSet) = W at hW
  have hsame : SameVisits m p.visits loaded.visits := fun x y hxy => by
    rw [(hidle x y hxy).1, (hidle x y hxy).2]
  have hvp : (ObjectGraph.packRoot src o p.reset).visits = V :=
    ObjectGraph.visits_packRoot (p := p.reset) hV
  have hvl : (ObjectGraph.packRoot dst o' loaded).visits = W :=
    ObjectGraph.visits_packRoot hW
  have hin : InStep s g h m V W (packObject g g.depthBound) (unpackObject h.depthBound) :=
    inStep_packObject hm hpol (hsame.enter? hm hroot hV hW) (g.unvisited_lt_depthBound V)
  have happ : ∀ target p, p.visits = V →
      ∃ q, packObject g g.depthBound target p = some q ∧ Appended p q :=
    fun target p _ => exists_packObject g g.depthBound target (g.unvisited_lt_depthBound p.visits)
  obtain ⟨hfol, hres⟩ := followed_object hm hroot ho ho' hW hin happ hpack hunpack
    ⟨hp, hl, hvp, hvl, .refl h⟩ (show q.written = [] ++ q.written from rfl) hr
  rw [length_written] at hfol
  refine ⟨hfol, fun z hz => hres z ?_⟩
  -- matched objects are not being visited, so nothing has to be gone around
  induction hz with
  | refl => exact .refl
  | @tail b c hb hstep ih =>
    obtain ⟨w, hw⟩ := hm.exists_of_reflTransGen hroot (hb.tail hstep)
    exact ih.tail ⟨hstep, (hidle w c hw).2⟩

/-- **Unpacking reads what packing wrote, to its end**, in any form of the stream, and restores all
that is reached. -/
theorem exists_unpacked (t : Transport) (hm : Matching p.settings g h m) (hroot : m src dst)
    (hpol : p.settings.policy ≠ .reference) (hq : q.settings = p.settings)
    (hidle : ∀ x y, m x y → p.visits.contains (instanceId x) = false ∧
      q.visits.contains (instanceId y) = false) :
    ∃ o v, h.object? dst = some o ∧
      unpackFields (unpackObject h.depthBound) dst 0 o.fields
        ⟨h, ObjectGraph.packRoot dst o (t.carry (g.pack src p) q.reset)⟩ = some v ∧
      (g.pack src p).errors = [] ∧ v.packer.errors = [] ∧
      v.packer.cursor = (g.pack src p).size ∧ Towards p.settings g h m h v.graph ∧
      ∀ z, Relation.ReflTransGen (ObjectGraph.PackedChild p.settings h) dst z →
        ObjectRestored p.settings g h m v.graph z := by
  obtain ⟨o, o', ho, ho', -⟩ := hm.objects hroot
  obtain ⟨r, hpack, happ, hr⟩ := ObjectGraph.exists_pack g src p ho
  have hpacked := Option.some.inj ((g.pack?_eq_some src p).symm.trans hr)
  generalize g.pack src p = packed at hpacked
  have hsettings : packed.settings = p.settings := by
    rw [hpacked]
    exact happ.settings
  have hstream : packed.bitList = r.written := by
    rw [hpacked]
    exact bitList_commit r
  have hload := t.carry_unchanged packed q.reset
  have hrem := t.remaining_carry (p := packed) (q := q.reset) (by rw [hsettings]; exact hq ▸ rfl)
  obtain ⟨v, hunpack, -⟩ := ObjectGraph.exists_unpackLoaded dst ⟨h, t.carry packed q.reset⟩ ho'
  obtain ⟨hfol, hres⟩ := hm.followed_root hroot hpol ho ho' rfl (by rw [hload]; exact hq)
    (by rw [hload]; exact hidle) hpack hunpack (by rw [hrem, hstream])
  refine ⟨o', v, ho', hunpack, ?_, ?_, ?_, hfol.towards, hres⟩
  · rw [hpacked]
    exact hfol.packErrors
  · rw [hfol.errors, ObjectGraph.packRoot, hload]
    rfl
  · rw [hfol.cursor, ObjectGraph.packRoot, hload, hpacked]
    exact Nat.zero_add _

end Matching

namespace ObjectGraph

/-- **What an object graph is packed into restores any graph of the same shape**, in either bit
order, with and without metadata, whatever is shared and whatever cycles there are.  Unpacking
gives the size of the stream and no misuse is noted; each packed field of an object that is
reached from the root holds what was packed, cut to its bits.  Bits that were left over are
reported exactly if the transport added any. -/
theorem unpack_pack (t : Transport) (hm : Matching p.settings g h m) (hroot : m src dst)
    (hpol : p.settings.policy ≠ .reference) (hq : q.settings = p.settings)
    (hidle : ∀ x y, m x y → p.visits.contains (instanceId x) = false ∧
      q.visits.contains (instanceId y) = false) :
    let packed := g.pack src p
    let result := h.unpack dst (t.carry packed) q
    result.1 = .ok packed.size ∧ packed.errors = [] ∧ result.2.2.errors = [] ∧
      (∀ y, Relation.ReflTransGen (PackedChild p.settings h) dst y →
        ∃ x, m x y ∧ ∀ index f k, g.field? x index = some f → f.isPacked p.settings →
          h.field? y index = some k →
            result.2.1.field? y index = some (f.carried p.settings.bigEndian k)) ∧
      result.2.2.reporter.withId "BDUNPK" = q.reporter.withId "BDUNPK" ++
        if t.unit ∣ packed.size then []
        else [⟨.warning, .none, "BDUNPK", (PackError.incompleteUnpack packed.size
          (packed.size + t.padding packed.size)).message⟩] := by
  intro packed result
  obtain ⟨o, o', ho, ho', -⟩ := hm.objects hroot
  obtain ⟨r, hpack, happ, hr⟩ := exists_pack g src p ho
  have hpacked : packed = _ := Option.some.inj ((g.pack?_eq_some src p).symm.trans hr)
  have hsettings : packed.settings = p.settings := by
    rw [hpacked]
    exact happ.settings
  have hsize : packed.size = r.cursor := by
    rw [hpacked]
    rfl
  have hstream : packed.bitList = r.written := by
    rw [hpacked]
    exact bitList_commit r
  -- what the transport makes of the receiving packer
  have hload := t.carry_unchanged packed q.reset
  have hrem := t.remaining_carry (p := packed) (q := q.reset) (by rw [hsettings]; exact hq ▸ rfl)
  have hls := t.size_carry packed q.reset
  obtain ⟨v, hunpack, hv⟩ := exists_unpackLoaded dst ⟨h, t.carry packed q.reset⟩ ho'
  obtain ⟨hfol, hres⟩ := hm.followed_root (v := v) hroot hpol ho ho' rfl (by rw [hload]; exact hq)
    (by rw [hload]; exact hidle) hpack hunpack (by rw [hrem, hstream])
  have herrors : v.packer.errors = [] := by
    rw [hfol.errors, packRoot, hload]
    rfl
  have hcursor : v.packer.cursor = packed.size := by
    rw [hfol.cursor, packRoot, hload, hsize]
    exact Nat.zero_add _
  have hreport : v.packer.reporter.withId "BDUNPK" = q.reporter.withId "BDUNPK" := by
    rw [hfol.warned.withId_eq (by decide), packRoot, hload]
    rfl
  have hresult := unpack_of_unpackLoaded? hv
  obtain ⟨hok, hnil, hwarn⟩ := unpackOutcome_of_errors_eq_nil (t.carry packed q.reset).size
    (p := { v.packer with
      scope := v.packer.scope.up
      visits := if (t.carry packed q.reset).visits.contains (instanceId dst) then v.packer.visits
        else v.packer.visits.leave (instanceId dst) }) herrors
  have hdvd : v.packer.cursor = (t.carry packed q.reset).size ↔ t.unit ∣ packed.size := by
    rw [hcursor, hls, ← t.padding_eq_zero_iff]
    omega
  simp only [result]
  rw [hresult]
  refine ⟨by rw [hok, hcursor], ?_, hnil, fun y hy => ?_, ?_⟩
  · rw [hpacked]
    exact hfol.packErrors
  · obtain ⟨x, hxy⟩ := hm.exists_of_reflTransGen hroot hy
    refine ⟨x, hxy, fun index f k hf hpk hk => ?_⟩
    obtain ⟨x', f', k', hxy', hf', -, hk', hheld⟩ := hres y hy hxy hf hpk
    obtain rfl := hm.injective hxy hxy'
    rw [hf] at hf'
    rw [hk] at hk'
    cases hf'
    cases hk'
    exact hheld
  · simp only [hwarn, hreport, hdvd]
    rw [hcursor, hls]

/-- Two rings of two objects each, the second object of a ring also referring to itself. -/
def twoRings : ObjectGraph where
  objects := #[
    ⟨"a", .fielded 0 "A" none [⟨"number", .int 0x1FF 8 .hex, .always⟩,
      ⟨"next", .child (some 1), .always⟩]⟩,
    ⟨"b", .fielded 1 "B" none [⟨"text", .str "hé" none, .always⟩,
      ⟨"next", .child (some 0), .always⟩, ⟨"self", .child (some 1), .always⟩]⟩,
    ⟨"c", .fielded 0 "A" none [⟨"number", .int 0 8 .dec, .always⟩,
      ⟨"next", .child (some 3), .always⟩]⟩,
    ⟨"d", .fielded 1 "B" none [⟨"text", .str "" none, .always⟩,
      ⟨"next", .child (some 2), .always⟩, ⟨"self", .child (some 3), .always⟩]⟩]

theorem matching_twoRings :
    Matching { useMetadata := true } twoRings twoRings
      fun (x y : Nat) => y = x + 2 ∧ x < 2 where
  objects := by
    rintro x y ⟨rfl, hx⟩
    obtain rfl | rfl := Nat.le_one_iff_eq_zero_or_eq_one.1 (Nat.le_of_lt_succ hx)
    · refine ⟨_, _, rfl, rfl, .cons ⟨rfl, fun _ => ?_⟩ (.cons ⟨rfl, fun _ => ?_⟩ .nil)⟩
      · exact ⟨Nat.le_of_ble_eq_true rfl, rfl, fun h => h.elim⟩
      · exact ⟨rfl, by decide⟩
    · refine ⟨_, _, rfl, rfl,
        .cons ⟨rfl, fun _ => ?_⟩ (.cons ⟨rfl, fun _ => ?_⟩ (.cons ⟨rfl, fun _ => ?_⟩ .nil))⟩
      · exact ⟨show 8 * Utf8.size "hé" < UInt64.size by decide, by simp [FieldData.Fits],
          fun _ => rfl⟩
      · exact ⟨rfl, by decide⟩
      · exact ⟨rfl, by decide⟩
  functional := by
    rintro x y y' ⟨rfl, -⟩ ⟨rfl, -⟩
    rfl
  injective := by
    rintro x x' y ⟨rfl, -⟩ ⟨h, -⟩
    exact (Nat.add_right_cancel h).symm

/-- A ring is packed into words and restores the other ring. -/
theorem unpack_pack_twoRings :
    let p : Packer := { settings := { useMetadata := true } }
    let result := twoRings.unpack 2 (Transport.words.carry (twoRings.pack 0 p)) p
    result.1 = .ok (twoRings.pack 0 p).size ∧
      result.2.1.field? 3 0 = some ⟨"text", .str "hé" none, .always⟩ := by
  intro p result
  have hroot : (fun (x y : Nat) => y = x + 2 ∧ x < 2) 0 2 := ⟨rfl, by decide⟩
  obtain ⟨hok, -, -, hfields, -⟩ := unpack_pack (p := p) (q := p) .words matching_twoRings hroot
    (by decide) rfl (fun x y _ => ⟨rfl, rfl⟩)
  refine ⟨hok, ?_⟩
  obtain ⟨x, ⟨hx, -⟩, hfield⟩ := hfields 3
    (.single ⟨1, ⟨"next", .child (some 3), .always⟩, some 3, _, rfl, rfl, rfl, rfl⟩)
  obtain rfl : x = 1 := (Nat.add_right_cancel (n := 1) (m := 2) hx).symm
  exact hfield 0 _ _ rfl rfl rfl

end ObjectGraph

end FieldAutomation
