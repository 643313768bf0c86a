import FieldAutomation.Slots
import FieldAutomation.VisitSet
import Mathlib.Data.List.Nodup

/-!
# A visit set and its guards

A visit set knows its members by their ids only, and a guard that is dropped takes its id out of
the set, whatever happened since.  So a guard that is left over, or a second one of the same
object, would take out a member that belongs to another.  There is none: at every time the members
of the set are the objects of the live guards, in whatever order objects are entered and guards
dropped.

* `GuardCall`: entering an object, or dropping a guard; `GuardedVisits.run`: calls in order;
* `GuardedVisits.Paired`: each member has one guard, and each guard one member;
* `GuardedVisits.OneGuardEach`: what the set and its guards tell, and what calls do to them.

Main statements: `GuardedVisits.paired_call` (one call), `GuardedVisits.paired_run` (calls in
order) and `GuardedVisits.oneGuardEach_run`.
-/

namespace FieldAutomation

/-- What is done with a visit set and its guards. -/
inductive GuardCall where
  /-- An object is entered; its guard, if it gets one, goes into a slot. -/
  | enter (id : InstanceId) (slot : Nat)
  /-- The guard in a slot is dropped. -/
  | drop (slot : Nat)
  deriving DecidableEq, Repr

namespace GuardedVisits

variable (g : GuardedVisits)

/-- A set and its guards after a call.  Nothing is left of an enter that is refused. -/
def call : GuardCall → GuardedVisits
  | .enter id slot => (g.enter? id slot).getD g
  | .drop slot => g.drop slot

/-- A set and its guards after calls in order. -/
def run (calls : List GuardCall) : GuardedVisits := calls.foldl call g

/-- The live guards by their slots. -/
def held : Slots InstanceId := ⟨g.guards⟩

/-- The objects of the live guards. -/
def guarded : List InstanceId := g.guards.map Prod.snd

/-- Each member of the set has one guard, and each guard one member. -/
structure Paired : Prop where
  /-- No slot holds two guards. -/
  slots : (g.guards.map Prod.fst).Nodup
  active : g.visits.active.Perm g.guarded
  nodup : g.visits.active.Nodup

/-- What a visit set and its guards tell, and what calls do to them. -/
structure OneGuardEach : Prop where
  /-- No two guards are of one object. -/
  distinct : ∀ slot slot' id, g.guard? slot = some id → g.guard? slot' = some id → slot = slot'
  contains_iff : ∀ id, g.visits.contains id = true ↔ ∃ slot, g.guard? slot = some id
  /-- The set is as large as there are slots with a live guard. -/
  size_eq : ∃ slots : List Nat, slots.Nodup ∧ (∀ slot, slot ∈ slots ↔ (g.guard? slot).isSome) ∧
    g.visits.size = slots.length
  accepts_iff : ∀ id slot, (g.enter? id slot).isSome ↔ ∀ other, g.guard? other ≠ some id
  /-- A guard that is given out replaces the one in its slot, and no other. -/
  accepted : ∀ id slot, (g.enter? id slot).isSome → ∀ other,
    (g.call (.enter id slot)).guard? other = if other = slot then some id else g.guard? other
  refused : ∀ id slot, ¬(g.enter? id slot).isSome → g.call (.enter id slot) = g
  /-- A guard that is dropped is live no more, and all others are. -/
  dropped : ∀ slot other,
    (g.call (.drop slot)).guard? other = if other = slot then none else g.guard? other

variable {g} {id : InstanceId} {slot : Nat}

theorem drop_of_none (hslot : g.guard? slot = none) : g.drop slot = g := by
  simp [drop, hslot]

theorem drop_of_some (hslot : g.guard? slot = some id) :
    g.drop slot = ⟨g.visits.leave id, g.guards.filter (·.1 ≠ slot)⟩ := by
  simp [drop, hslot]

/-- Dropping a guard empties its slot. -/
theorem held_drop (g : GuardedVisits) (slot : Nat) : (g.drop slot).held = g.held.erase slot := by
  unfold drop
  split
  next hnone =>
    -- there is nothing to take away
    have hall : g.guards.filter (·.1 ≠ slot) = g.guards := by
      refine List.filter_eq_self.2 fun e he => ?_
      have hne : slot ≠ e.1 := by simpa using List.lookup_eq_none_iff.1 hnone e he
      exact decide_eq_true hne.symm
    rw [Slots.erase, held, hall]
  next => rfl

theorem guards_drop (g : GuardedVisits) (slot : Nat) :
    (g.drop slot).guards = g.guards.filter (·.1 ≠ slot) :=
  congrArg Slots.entries (g.held_drop slot)

theorem active_drop_sublist (g : GuardedVisits) (slot : Nat) :
    (g.drop slot).visits.active.Sublist g.visits.active := by
  cases hslot : g.guard? slot with
  | none => rw [drop_of_none hslot]
  | some id =>
    rw [drop_of_some hslot]
    exact List.erase_sublist

theorem enter?_of_contains (hid : g.visits.contains id = true) (slot : Nat) :
    g.enter? id slot = none := by
  rw [enter?, VisitSet.enter?_eq_none_iff.2 hid]

namespace Paired

theorem empty : Paired {} := ⟨List.nodup_nil, .nil, List.nodup_nil⟩

theorem guard?_eq_some_iff (h : Paired g) : g.guard? slot = some id ↔ (slot, id) ∈ g.guards := by
  have hmem {id : InstanceId} (hslot : g.guard? slot = some id) : (slot, id) ∈ g.guards := by
    obtain ⟨front, back, hsplit, -⟩ := List.lookup_eq_some_iff.1 hslot
    simp [hsplit]
  refine ⟨hmem, fun hid => ?_⟩
  cases hslot : g.guard? slot with
  | none => simpa using List.lookup_eq_none_iff.1 hslot _ hid
  | some other =>
    have hsame := List.inj_on_of_nodup_map h.slots hid (hmem hslot) rfl
    rw [(Prod.mk.inj hsame).2]

theorem mem_guarded_iff (h : Paired g) : id ∈ g.guarded ↔ ∃ slot, g.guard? slot = some id := by
  simp [guarded, h.guard?_eq_some_iff]

theorem contains_iff (h : Paired g) :
    g.visits.contains id = true ↔ ∃ slot, g.guard? slot = some id := by
  rw [← h.mem_guarded_iff, ← h.active.mem_iff, VisitSet.contains, List.contains_iff_mem]

/-- The guard in a slot comes on top of those in other slots. -/
theorem guards_perm (h : Paired g) (hslot : g.guard? slot = some id) :
    g.guards.Perm ((slot, id) :: (g.drop slot).guards) := by
  have hid := h.guard?_eq_some_iff.1 hslot
  have hothers : g.guards.erase (slot, id) = (g.drop slot).guards := by
    rw [guards_drop, h.slots.of_map.erase_eq_filter]
    refine List.filter_congr fun e he => ?_
    have hiff : e = (slot, id) ↔ e.1 = slot :=
      ⟨fun heq => by rw [heq], fun heq => List.inj_on_of_nodup_map h.slots he hid heq⟩
    rw [Bool.eq_iff_iff]
    simp [hiff]
  rw [← hothers]
  exact List.perm_cons_erase hid

/-- A guard that is dropped takes its object out of the set, and no other. -/
theorem drop (h : Paired g) (slot : Nat) : Paired (g.drop slot) := by
  cases hslot : g.guard? slot with
  | none => rwa [drop_of_none hslot]
  | some id =>
    have hactive : (g.drop slot).visits.active = g.visits.active.erase id := by
      rw [drop_of_some hslot, VisitSet.leave]
    refine ⟨?_, ?_, ?_⟩
    · rw [guards_drop]
      exact h.slots.sublist (List.filter_sublist.map Prod.fst)
    · have hguarded : g.guarded.Perm (id :: (g.drop slot).guarded) :=
        (h.guards_perm hslot).map Prod.snd
      rw [hactive]
      simpa using (h.active.trans hguarded).erase id
    · rw [hactive]
      exact h.nodup.erase id

/-- Entering an object that is not in the set comes to dropping what is in the slot first. -/
theorem enter?_eq_some (h : Paired g) (hid : g.visits.contains id = false) (slot : Nat) :
    g.enter? id slot = some
      { visits := ⟨id :: (g.drop slot).visits.active⟩
        guards := (slot, id) :: (g.drop slot).guards } := by
  rw [enter?, VisitSet.enter?_of_not_contains hid]
  cases hslot : g.guard? slot with
  | none =>
    have hslot' : guard? { g with visits := ⟨id :: g.visits.active⟩ } slot = none := hslot
    simp [drop_of_none hslot, drop_of_none hslot']
  | some other =>
    have hslot' : guard? { g with visits := ⟨id :: g.visits.active⟩ } slot = some other := hslot
    -- the guard in the slot is not of the object that is entered
    have hne : id ≠ other := by
      rintro rfl
      rw [h.contains_iff.2 ⟨slot, hslot⟩] at hid
      cases hid
    simp [drop_of_some hslot, drop_of_some hslot', VisitSet.leave, hne]

/-- An object that is entered is in the set once, and its guard is the only one in its slot. -/
theorem enter (h : Paired g) (hid : g.visits.contains id = false) (slot : Nat) :
    Paired
      { visits := ⟨id :: (g.drop slot).visits.active⟩
        guards := (slot, id) :: (g.drop slot).guards } := by
  have hd := h.drop slot
  refine ⟨?_, hd.active.cons id, ?_⟩
  · have hempty : slot ∉ (g.drop slot).guards.map Prod.fst := by simp [guards_drop]
    exact List.nodup_cons.2 ⟨hempty, hd.slots⟩
  · have hout : id ∉ g.visits.active := by simpa [VisitSet.contains] using hid
    exact List.nodup_cons.2 ⟨fun hin => hout ((g.active_drop_sublist slot).subset hin), hd.nodup⟩

end Paired

/-! ### Calls -/

/-- Every call keeps members and guards paired. -/
theorem paired_call (h : Paired g) (c : GuardCall) : Paired (g.call c) := by
  cases c with
  | enter id slot =>
    cases hid : g.visits.contains id with
    | true => rwa [call, enter?_of_contains hid]
    | false =>
      rw [call, h.enter?_eq_some hid]
      exact h.enter hid slot
  | drop slot => exact h.drop slot

/-- So do calls in any order. -/
theorem paired_run (h : Paired g) (calls : List GuardCall) : Paired (g.run calls) := by
  induction calls generalizing g with
  | nil => exact h
  | cons c rest ih => exact ih (paired_call h c)

namespace Paired

theorem isSome_enter?_iff (h : Paired g) (id : InstanceId) (slot : Nat) :
    (g.enter? id slot).isSome ↔ g.visits.contains id = false := by
  cases hid : g.visits.contains id with
  | true => simp [enter?_of_contains hid]
  | false => simp [h.enter?_eq_some hid]

theorem guard?_enter (h : Paired g) (hid : g.visits.contains id = false) (slot other : Nat) :
    (g.call (.enter id slot)).guard? other = if other = slot then some id else g.guard? other := by
  have hheld : (g.call (.enter id slot)).held = g.held.put slot id := by
    rw [call, h.enter?_eq_some hid, Slots.put, ← held_drop]
    rfl
  exact (congrArg (Slots.find? · other) hheld).trans (Slots.find?_put ..)

/-- Where members and guards are paired, the set tells of the guards and of nothing else. -/
theorem oneGuardEach (h : Paired g) : OneGuardEach g where
  distinct slot slot' id hslot hslot' := by
    have hguarded : g.guarded.Nodup := h.active.nodup h.nodup
    have hsame := List.inj_on_of_nodup_map hguarded (h.guard?_eq_some_iff.1 hslot)
      (h.guard?_eq_some_iff.1 hslot') rfl
    exact (Prod.mk.inj hsame).1
  contains_iff id := h.contains_iff
  size_eq := by
    refine ⟨g.guards.map Prod.fst, h.slots, fun slot => ?_, ?_⟩
    · simp [Option.isSome_iff_exists, h.guard?_eq_some_iff]
    · rw [VisitSet.size, h.active.length_eq, guarded, List.length_map, List.length_map]
  accepts_iff id slot := by
    rw [h.isSome_enter?_iff, ← Bool.not_eq_true, h.contains_iff, not_exists]
  accepted id slot hsome := h.guard?_enter ((h.isSome_enter?_iff id slot).1 hsome) slot
  refused id slot hnone := by
    rw [call, Option.not_isSome_iff_eq_none.1 hnone, Option.getD_none]
  dropped slot other :=
    (congrArg (Slots.find? · other) (g.held_drop slot)).trans (Slots.find?_erase ..)

end Paired

/-- **The visit set is the set of live guards**, after every sequence of enters and drops in
whatever order. -/
theorem oneGuardEach_run (calls : List GuardCall) : OneGuardEach (run {} calls) :=
  (paired_run .empty calls).oneGuardEach

/-- Guards are dropped out of order, and one is replaced by that of another object. -/
example :
    let g := run {} [.enter 1 0, .enter 2 1, .enter 1 2, .drop 0, .enter 1 2, .enter 3 1]
    g.visits.active = [3, 1] ∧ g.guard? 0 = none ∧ g.guard? 1 = some 3 ∧ g.guard? 2 = some 1 ∧
      g.enter? 1 0 = none ∧ (g.enter? 2 0).isSome := by
  decide

end GuardedVisits

end FieldAutomation
