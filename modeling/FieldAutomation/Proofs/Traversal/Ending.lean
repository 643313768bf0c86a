import FieldAutomation.Proofs.Traversal.Copying
import FieldAutomation.Proofs.Traversal.Packing
import FieldAutomation.Proofs.Traversal.Recording

/-!
# Traversals end, and clean up

Packing, unpacking, recording and copying end on every graph, however its objects refer to each
other and whatever the stream holds.  They need one level of calls more than there are objects at
most, and leave the visit set as it was.  On the way each object that is refused is warned of once.

A root is packed and unpacked by its own hook, and is visited meanwhile.  The hook runs as well when
the root is being visited already: then it is not entered, and not left either.  A root that is
recorded is not entered at all.

* `ObjectGraph.packTraced?`, `unpackTraced?`, `recordTraced?`: the entry points, with a history.

Main statement: `ObjectGraph.traversals_end`.
-/

namespace FieldAutomation

open ObjectGraph (instanceId)

/-! ### The root -/

/-- The visit set when a root is done. -/
def leaveRoot (before after : VisitSet) (r : ObjectRef) : VisitSet :=
  if before.contains (instanceId r) then after else after.leave (instanceId r)

/-- What happens to a visit set between the start and the end of a root. -/
def rootHistory (visits : VisitSet) (r : ObjectRef) (history : List VisitEvent) :
    List VisitEvent :=
  if visits.contains (instanceId r) then history else .entered r :: history ++ [.left r]

/-- What the hook of a root does is done by the root, with one object more that is visited. -/
theorem CleanRun.of_root {ω : Type} {g : ObjectGraph} {visits t : VisitSet} {r : ObjectRef}
    {old new : List ω} {warning : ObjectRef → ω} {h : List VisitEvent} (hr : r < g.size)
    (hrun : CleanRun ((visits.enter? (instanceId r)).getD visits) t old new warning
      (g.unvisited ((visits.enter? (instanceId r)).getD visits)) h) :
    CleanRun visits (leaveRoot visits t r) old new warning g.size (rootHistory visits r h) := by
  have hle := g.remaining_le_size fun r => visits.contains (instanceId r)
  rw [leaveRoot, rootHistory]
  cases he : visits.enter? (instanceId r) with
  | none =>
    have hc := VisitSet.enter?_eq_none_iff.1 he
    rw [he, Option.getD_none] at hrun
    rw [if_pos hc, if_pos hc]
    exact hrun.mono hle
  | some visits' =>
    have hc : ¬visits.contains (instanceId r) = true := by
      rw [← VisitSet.enter?_eq_none_iff, he]
      simp
    rw [he, Option.getD_some] at hrun
    rw [if_neg hc, if_neg hc]
    exact (hrun.visited he).mono (Nat.le_trans (ObjectGraph.unvisited_enter? hr he) hle)

namespace ObjectGraph

open Packer (cycleReport packing unpacking)
open Recording (recording)
open Copying (copying)

variable {g : ObjectGraph} {fuel : Nat} {r : ObjectRef}

/-! ### Entry points with a history -/

/-- A history can be forgotten before a traversal comes to its end. -/
theorem map_fst_map_prodMap {σ τ : Type} (x : Option (σ × List VisitEvent)) (finish : σ → τ)
    (around : List VisitEvent → List VisitEvent) :
    (x.map (Prod.map finish around)).map Prod.fst = (x.map Prod.fst).map finish := by
  cases x <;> rfl

/-- Packs an object and all it refers to, with a history of the visit set. -/
def packTraced? (g : ObjectGraph) (fuel : Nat) (r : ObjectRef) (p : Packer) :
    Option (Packer × List VisitEvent) :=
  match g.object? r with
  | none => some (p, [])
  | some o =>
    ((packing g).hook fuel o.fields (packRoot r o p.reset)).map <| Prod.map
      (fun q => { q.commit with scope := q.scope.up, visits := leaveRoot p.visits q.visits r })
      (rootHistory p.visits r)

theorem map_fst_packTraced? (g : ObjectGraph) (fuel : Nat) (r : ObjectRef) (p : Packer) :
    (g.packTraced? fuel r p).map Prod.fst = g.pack? fuel r p := by
  unfold packTraced? pack?
  cases g.object? r with
  | none => rfl
  | some o =>
    dsimp only
    rw [map_fst_map_prodMap, Traversal.map_fst_hook (Packer.map_fst_packing g fuel)]
    simp only [Packer.stepBy_packing]
    exact Option.map_eq_bind

/-- Unpacks an object and all it refers to from the stream that is loaded, with a history of the
visit set. -/
def unpackLoadedTraced? (fuel : Nat) (r : ObjectRef) (u : Packer.Unpacking) :
    Option (Packer.Unpacking × List VisitEvent) :=
  match u.graph.object? r with
  | none => some (u, [])
  | some o =>
    (unpacking.hook fuel (o.fields.zipIdx.map (Prod.mk r))
      { u with packer := packRoot r o u.packer }).map <| Prod.map
      (fun v => { v with packer := { v.packer with
        scope := v.packer.scope.up, visits := leaveRoot u.packer.visits v.packer.visits r } })
      (rootHistory u.packer.visits r)

theorem map_fst_unpackLoadedTraced? (fuel : Nat) (r : ObjectRef) (u : Packer.Unpacking) :
    (unpackLoadedTraced? fuel r u).map Prod.fst = unpackLoaded? fuel r u := by
  unfold unpackLoadedTraced? unpackLoaded?
  cases u.graph.object? r with
  | none => rfl
  | some o =>
    dsimp only
    rw [map_fst_map_prodMap, Traversal.map_fst_hook (Packer.map_fst_unpacking fuel),
      Packer.foldlM_unpacking]
    exact Option.map_eq_bind

/-- Unpacks an object and all it refers to, with a history of the visit set. -/
def unpackTraced? (g : ObjectGraph) (fuel : Nat) (r : ObjectRef) (load : Packer → Packer)
    (p : Packer) : Option ((Except PackError Nat × ObjectGraph × Packer) × List VisitEvent) :=
  let loaded := load p.reset
  (unpackLoadedTraced? fuel r ⟨g, loaded⟩).map fun (u, h) =>
    let (outcome, q) := unpackOutcome loaded.size u.packer
    ((outcome, u.graph, q), h)

/-- Records an object and all it refers to, with a history of the visit set. -/
def recordTraced? (g : ObjectGraph) (fuel : Nat) (r : ObjectRef) (s : Recording) :
    Option (Recording × List VisitEvent) :=
  match g.object? r with
  | none => some (s, [])
  | some o =>
    ((recording g).hook fuel o.fields s.deeper).map (Prod.map Recording.shallower id)

theorem record_eq {s t : Recording} {o : DataObject} {h : List VisitEvent}
    (ho : g.object? r = some o)
    (ht : (recording g).hook g.recordBound o.fields s.deeper = some (t, h)) :
    g.record r s = t.shallower := by
  have hf := Traversal.map_fst_hook (Recording.map_fst_recording g g.recordBound) o.fields s.deeper
  rw [Recording.foldlM_recording, ht] at hf
  simp only [record, ho, Recording.recordBody_eq]
  exact congrArg (fun t => (Option.map Recording.shallower t).getD s) hf.symm

/-! ### All traversals -/

theorem exists_packTraced (g : ObjectGraph) (r : ObjectRef) (p : Packer) :
    ∃ h, g.packTraced? g.depthBound r p = some (g.pack r p, h) ∧
      CleanRun p.visits (g.pack r p).visits p.cycles (g.pack r p).cycles (cycleReport "pack")
        g.size h := by
  obtain ⟨q, h, hq, hrun⟩ : ∃ q h, g.packTraced? g.depthBound r p = some (q, h) ∧
      CleanRun p.visits q.visits p.cycles q.cycles (cycleReport "pack") g.size h := by
    cases ho : g.object? r with
    | none => exact ⟨p, [], by rw [packTraced?, ho], .nil rfl rfl⟩
    | some o =>
      obtain ⟨q, h, hq, htidy⟩ := Traversal.exists_hook (Packer.lawful_packing g)
        (s := packRoot r o p.reset) o.fields (g.unvisited_lt_depthBound _)
      simp only [packTraced?, ho, hq]
      exact ⟨_, _, rfl, htidy.toCleanRun.of_root (lt_size_of_object? ho)⟩
  have hp := congrArg (Option.map Prod.fst) hq
  rw [map_fst_packTraced?, pack?_eq_some] at hp
  obtain rfl := Option.some.inj hp
  exact ⟨h, hq, hrun⟩

/-- Data are loaded without asking the visit set. -/
theorem visits_load (data : StreamData) (p : Packer) : (data.load p).visits = p.visits := by
  cases data <;> rfl

theorem cycles_load (data : StreamData) (p : Packer) : (data.load p).cycles = p.cycles := by
  cases data <;> rfl

/-- What is said in the end about bits that were left over is not about cycles. -/
theorem cycles_unpackOutcome (size : Nat) (p : Packer) :
    (unpackOutcome size p).2.cycles = p.cycles := by
  unfold unpackOutcome
  split
  · rfl
  · split
    · rfl
    · simp [Packer.cycles, Reporter.withId, PackError.reportId]

theorem visits_unpackOutcome (size : Nat) (p : Packer) :
    (unpackOutcome size p).2.visits = p.visits := by
  unfold unpackOutcome
  split
  · rfl
  · split <;> rfl

theorem exists_unpackTraced (g : ObjectGraph) (r : ObjectRef) (data : StreamData) (p : Packer) :
    ∃ h, g.unpackTraced? g.depthBound r data.load p = some (g.unpack r data.load p, h) ∧
      CleanRun p.visits (g.unpack r data.load p).2.2.visits p.cycles
        (g.unpack r data.load p).2.2.cycles (cycleReport "unpack") g.size h := by
  obtain ⟨u, h, hu, hrun⟩ : ∃ u h,
      unpackLoadedTraced? g.depthBound r ⟨g, data.load p.reset⟩ = some (u, h) ∧
      CleanRun p.visits u.packer.visits p.cycles u.packer.cycles (cycleReport "unpack")
        g.size h := by
    cases ho : g.object? r with
    | none =>
      exact ⟨⟨g, data.load p.reset⟩, [], by simp only [unpackLoadedTraced?, ho],
        .nil (visits_load ..) (cycles_load ..)⟩
    | some o =>
      obtain ⟨u, h, hu, htidy⟩ := Traversal.exists_hook Packer.lawful_unpacking
        (s := ⟨g, packRoot r o (data.load p.reset)⟩) (o.fields.zipIdx.map (Prod.mk r))
        (g.unvisited_lt_depthBound _)
      have hrun : CleanRun (data.load p.reset).visits _ (data.load p.reset).cycles _ _ _ _ :=
        htidy.toCleanRun.of_root (lt_size_of_object? ho)
      rw [visits_load, cycles_load] at hrun
      simp only [unpackLoadedTraced?, ho, hu, visits_load]
      exact ⟨_, _, rfl, hrun⟩
  have hl := congrArg (Option.map Prod.fst) hu
  rw [map_fst_unpackLoadedTraced?, Option.map_some] at hl
  rw [unpack_of_unpackLoaded? hl]
  refine ⟨h, by simp only [unpackTraced?, hu]; rfl, ?_⟩
  rw [visits_unpackOutcome, cycles_unpackOutcome]
  exact hrun

theorem exists_recordTraced (g : ObjectGraph) (r : ObjectRef) (s : Recording) :
    ∃ h, g.recordTraced? g.recordBound r s = some (g.record r s, h) ∧
      CleanRun s.recorder.visits (g.record r s).recorder.visits s.cycles (g.record r s).cycles
        Recording.cycleReport g.size h := by
  cases ho : g.object? r with
  | none =>
    have hrec : g.record r s = s := by rw [record, ho]
    rw [hrec]
    exact ⟨[], by rw [recordTraced?, ho], .nil rfl rfl⟩
  | some o =>
    obtain ⟨t, h, ht, htidy⟩ := Traversal.exists_hook (Recording.lawful_recording g)
      (s := s.deeper) o.fields (g.unvisited_lt_depthBound _)
    rw [record_eq ho ht]
    refine ⟨h, ?_, htidy.toCleanRun.mono (g.remaining_le_size _)⟩
    simp only [recordTraced?, ho]
    exact congrArg (Option.map _) ht

theorem exists_copyTraced (target : ObjectRef) (source : Option ObjectRef) (s : Copying) :
    ∃ h, copying.visit (s.graph.size + 1) (target, source) s =
        some (Copying.copy target source s, h) ∧
      CleanRun s.visits (Copying.copy target source s).visits s.cycles
        (Copying.copy target source s).cycles Copying.cycleEntry s.graph.size h := by
  obtain ⟨t, h, ht, htidy⟩ := Traversal.exists_visit Copying.lawful_copying
    (s.graph.size + 1) (target, source) (s.graph.unvisited_lt_depthBound _)
  have hc := congrArg (Option.map Prod.fst) ht
  rw [Copying.map_fst_copying, Copying.copyWithin_eq_copy] at hc
  obtain rfl := Option.some.inj hc
  exact ⟨h, ht, htidy.toCleanRun.mono (s.graph.remaining_le_size _)⟩

/-- **Traversals end and clean up**, whatever the graph looks like and whatever a stream holds, and
wherever packer, recorder or copies stand.  Calls are nested at most one deeper than there are
objects, and no more objects than there are are visited at a time.  The visit set is left as it
was.  An object is gone into only when it is entered, which it is never while it is being visited:
then it is refused, with one warning for each time. -/
theorem traversals_end (g : ObjectGraph) (r : ObjectRef) :
    (∀ p : Packer, ∃ h, g.packTraced? (g.size + 1) r p = some (g.pack r p, h) ∧
      CleanRun p.visits (g.pack r p).visits p.cycles (g.pack r p).cycles (cycleReport "pack")
        g.size h) ∧
    (∀ (data : StreamData) (p : Packer), ∃ h,
      g.unpackTraced? (g.size + 1) r data.load p = some (g.unpack r data.load p, h) ∧
      CleanRun p.visits (g.unpack r data.load p).2.2.visits p.cycles
        (g.unpack r data.load p).2.2.cycles (cycleReport "unpack") g.size h) ∧
    (∀ s : Recording, ∃ h, g.recordTraced? (g.size + 1) r s = some (g.record r s, h) ∧
      CleanRun s.recorder.visits (g.record r s).recorder.visits s.cycles (g.record r s).cycles
        Recording.cycleReport g.size h) ∧
    ∀ (target : ObjectRef) (source : Option ObjectRef) (s : Copying), ∃ h,
      copying.visit (s.graph.size + 1) (target, source) s =
        some (Copying.copy target source s, h) ∧
      CleanRun s.visits (Copying.copy target source s).visits s.cycles
        (Copying.copy target source s).cycles Copying.cycleEntry s.graph.size h :=
  ⟨exists_packTraced g r, exists_unpackTraced g r, exists_recordTraced g r, exists_copyTraced⟩

/-- A ring of two objects is packed with one warning, about the object that closes it. -/
example :
    let ring : ObjectGraph := ⟨#[⟨"a", .fielded 0 "A" none [⟨"next", .child (some 1), .always⟩]⟩,
      ⟨"b", .fielded 1 "B" none [⟨"next", .child (some 0), .always⟩]⟩]⟩
    (ring.packTraced? 3 0 {}).map Prod.snd =
      some [.entered 0, .entered 1, .refused 0, .left 1, .left 0] := by decide

end ObjectGraph

end FieldAutomation
