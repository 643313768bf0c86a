import FieldAutomation.Proofs.Comparing.Levels
import FieldAutomation.Proofs.Packing.Hooks
import FieldAutomation.Proofs.Packing.Refusal
import FieldAutomation.Proofs.Traversal.Ending

/-!
# Unpacking is contained

Whatever a stream holds, and whatever hooks read it, unpacking ends.  On the way the cursor goes
forward only and stays within the stream, the stream stays as it was loaded, and misuses are noted
one after the other.  The first one is what unpacking comes to.

There is one way out of this: an array or a text of so many bits that they cannot be counted.  A
hook that takes a length from the stream may ask for one, and that is where unpacking stops.

* `Packer.ReadsOn`, `Packer.Passes`: what unpacking leaves of a packer, and what it passes;
* `UnpackRun.Contained`, `UnpackRun.Ends`: a part of unpacking that leaves all that it enters;
* `UnpackHook.IsCounted`: a hook that asks for no more than can be counted;
* `StreamData.Contains`: what is true of unpacking a stream.

Main statement: `ObjectGraph.contains_unpackBy`.
-/

namespace FieldAutomation

open ObjectGraph (instanceId)
open Packer (Unpacking)
open UnpackRun (step)

namespace Packer

variable {p q r : Packer} {α : Type}

/-! ### Reading on -/

/-- Whatever an operation reads is consumed. -/
theorem consumed_perform (op : UnpackOp α) (p : Packer) : Consumed p (op.perform p).2 := by
  cases op with
  | int size => exact p.consumed_unpackInt size
  | wide size => exact p.consumed_unpackWide size
  | array kind count size => exact p.consumed_unpackArray kind count size
  | string length => exact p.consumed_unpackString length
  | time => exact p.consumed_unpackInt 64
  | real => exact p.consumed_unpackReal
  | ask needed what => exact p.consumed_enoughBits needed what

/-- The reports about bits that were left over. -/
def leftovers (p : Packer) : List Report := p.reporter.withId "BDUNPK"

/-- `q` is at a place in the stream of `p` that may be reached from `p`. -/
structure ReadsOn (p q : Packer) : Prop where
  store : q.store = p.store
  size : q.size = p.size
  forward : p.cursor ≤ q.cursor
  within : q.cursor ≤ max p.cursor p.size
  errors : p.errors <+: q.errors
  leftovers : q.leftovers = p.leftovers

namespace ReadsOn

theorem refl (p : Packer) : ReadsOn p p :=
  ⟨rfl, rfl, Nat.le_refl _, Nat.le_max_left .., List.prefix_rfl, rfl⟩

theorem trans (h : ReadsOn p q) (h' : ReadsOn q r) : ReadsOn p r where
  store := h'.store.trans h.store
  size := h'.size.trans h.size
  forward := h.forward.trans h'.forward
  within := by
    have hq := h.within
    have hr := h'.within
    rw [h.size] at hr
    omega
  errors := h.errors.trans h'.errors
  leftovers := h'.leftovers.trans h.leftovers

/-- Level, visit set and notes have nothing to do with the stream. -/
theorem elsewhere (p : Packer) (scope : Scope) (visits : VisitSet) (notes : List PackNote) :
    ReadsOn p { p with scope, visits, notes } :=
  ⟨rfl, rfl, Nat.le_refl _, Nat.le_max_left .., List.prefix_rfl, rfl⟩

theorem cycle (p : Packer) (message : String) :
    ReadsOn p { p with reporter := p.reporter.warning "CYCFND" message } :=
  ⟨rfl, rfl, Nat.le_refl _, Nat.le_max_left .., List.prefix_rfl,
    by simp [Packer.leftovers, Reporter.withId]⟩

end ReadsOn

theorem Consumed.readsOn (h : Consumed p q) : ReadsOn p q := by
  obtain ⟨es, n, hes, hn, rfl⟩ := h
  refine ⟨rfl, rfl, Nat.le_add_right .., ?_, List.prefix_append .., ?_⟩
  · rw [available] at hn
    rw [cursor_advance, cursor_noted]
    omega
  · change (p.reporter.reports ++ es.map PackError.report).filter (·.id = "BDUNPK") = _
    rw [List.filter_append, PackError.filter_map_report_eq_nil hes, List.append_nil]
    rfl

/-- All that is passed on the way from `p` to `q` is a place that may be reached from where one was
before. -/
def Passes (p : Packer) (passed : List Packer) (q : Packer) : Prop :=
  (p :: passed ++ [q]).Pairwise ReadsOn

namespace Passes

variable {passed passed' : List Packer}

theorem readsOn_of_mem (h : Passes p passed q) (hr : r ∈ p :: passed ++ [q]) : ReadsOn p r := by
  obtain rfl | hr := List.mem_cons.1 hr
  · exact .refl r
  · exact List.rel_of_pairwise_cons h hr

theorem readsOn (h : Passes p passed q) : ReadsOn p q := h.readsOn_of_mem (by simp)

theorem step (h : ReadsOn p q) : Passes p [q] q := by
  simp [Passes, h, ReadsOn.refl]

theorem trans (h : Passes p passed q) (h' : Passes q passed' r) :
    Passes p (passed ++ passed') r := by
  have hstart := List.pairwise_append.1 h
  have hend := List.pairwise_cons.1 h'
  have heq : p :: (passed ++ passed') ++ [r] = (p :: passed) ++ (passed' ++ [r]) := by simp
  rw [Passes, heq, List.pairwise_append]
  refine ⟨hstart.1, hend.2, fun x hx y hy => ?_⟩
  exact (hstart.2.2 x hx q (by simp)).trans (hend.1 y hy)

end Passes

end Packer

/-! ### Parts of unpacking -/

namespace UnpackRun

open Packer (ReadsOn Passes)

variable {u v : Unpacking} {run : Except UnpackStop UnpackRun}
  {next : Unpacking → Except UnpackStop UnpackRun} {p : Packer}

/-- What a part of unpacking comes to when it started with `u`.  It is in the middle of the same
objects, and no deeper than where it started. -/
structure Contained (u : Unpacking) (out : UnpackRun) : Prop where
  passes : u.packer.Passes out.2 out.1.packer
  size : out.1.graph.size = u.graph.size
  visits : out.1.packer.visits = u.packer.visits
  segments : out.1.packer.scope.segments <:+ u.packer.scope.segments
  pending : u.packer.scope.pending = "" → out.1.packer.scope.pending = ""

namespace Contained

theorem nil (u : Unpacking) : Contained u (u, []) where
  passes := by simp [Passes, ReadsOn.refl]
  size := rfl
  visits := rfl
  segments := List.suffix_rfl
  pending := id

theorem append {passed passed' : List Packer} {w : Unpacking} (h : Contained u (v, passed))
    (h' : Contained v (w, passed')) : Contained u (w, passed ++ passed') where
  passes := h.passes.trans h'.passes
  size := h'.size.trans h.size
  visits := h'.visits.trans h.visits
  segments := h'.segments.trans h.segments
  pending := h'.pending ∘ h.pending

end Contained

/-- A part of unpacking ends, and is contained, or stops where bits are asked for that cannot be
counted. -/
inductive Ends (u : Unpacking) (run : Except UnpackStop UnpackRun) : Prop where
  | contained (out : UnpackRun) (hrun : run = .ok out) (h : Contained u out)
  | stopped (bits : Nat) (h : UInt64.size ≤ bits) (hrun : run = .error (.uncounted bits))

theorem ends_step (h : ReadsOn u.packer p) (hv : p.visits = u.packer.visits)
    (hs : p.scope = u.packer.scope) : Ends u (step u p) :=
  .contained _ rfl ⟨.step h, rfl, hv, by rw [hs], by rw [hs]; exact id⟩

theorem Ends.andThen (h : Ends u run)
    (hnext : ∀ v, v.packer.visits = u.packer.visits → v.graph.size = u.graph.size →
      Ends v (next v)) : Ends u (andThen run next) := by
  cases h with
  | stopped bits hbits hrun => exact .stopped bits hbits (by rw [hrun]; rfl)
  | contained out hrun hv =>
    cases hnext out.1 hv.visits hv.size with
    | stopped bits hbits hstop => exact .stopped bits hbits (andThen_of_eq_error hrun hstop)
    | contained out' hw hw' => exact .contained _ (andThen_of_eq_ok hrun hw) (hv.append hw')

theorem Ends.step_andThen (h : ReadsOn u.packer p) (hv : p.visits = u.packer.visits)
    (hs : p.scope = u.packer.scope)
    (hnext : Ends { u with packer := p } (next { u with packer := p })) :
    Ends u (UnpackRun.andThen (step u p) next) := by
  cases ends_step h hv hs with
  | stopped bits hbits hstep => cases hstep
  | contained out hstep hcontained =>
    cases hstep
    cases hnext with
    | stopped bits hbits hstop => exact .stopped bits hbits (andThen_of_eq_error rfl hstop)
    | contained out' hw hw' => exact .contained _ (andThen_of_eq_ok rfl hw) (hcontained.append hw')

end UnpackRun

namespace UnpackHook

open UnpackRun (Ends andThen_of_eq_ok andThen_of_eq_error)
open Packer (Passes)

variable {sub : Option ObjectRef → Unpacking → Except UnpackStop UnpackRun} {visits : VisitSet}
  {size : Nat} {u : Unpacking}

/-- A hook ends, whatever it does, if unpacking the objects that it refers to does. -/
theorem ends_run
    (hsub : ∀ target v, v.packer.visits = visits → v.graph.size = size → Ends v (sub target v))
    (hook : UnpackHook) (hu : u.packer.visits = visits) (hs : u.graph.size = size) :
    Ends u (hook.run sub u) := by
  induction hook generalizing u with
  | done => exact .contained _ rfl (.nil u)
  | look next ih => exact ih u hu hs
  | change r f next ih =>
    have hsize := u.graph.size_modify r f
    cases ih (u := { u with graph := u.graph.modify r f }) hu (hsize.trans hs) with
    | stopped bits hbits hstop => exact .stopped bits hbits hstop
    | contained out hout hcontained =>
      exact .contained out hout { hcontained with size := hcontained.size.trans hsize }
  | unpack op next ih =>
    obtain hlt | hle := Nat.lt_or_ge op.requested UInt64.size
    · have hq := u.packer.consumed_perform op
      rw [run_unpack_of_lt hlt]
      exact .step_andThen hq.readsOn hq.visits hq.scope (ih _ (hq.visits.trans hu) hs)
    · exact .stopped _ hle (run_unpack_of_le hle next u)
  | object target next ih =>
    exact (hsub target u hu hs).andThen fun v hv hsize => ih (hv.trans hu) (hsize.trans hs)
  | note next ih =>
    exact .step_andThen (.elsewhere ..) rfl rfl (ih hu hs)

/-- An object that is entered is left again, whatever its hook does. -/
theorem ends_visit {entered : VisitSet} {leave : VisitSet → VisitSet}
    (hsub : ∀ target v, v.packer.visits = entered → v.graph.size = u.graph.size →
      Ends v (sub target v))
    (hook : UnpackHook) (name : String) (hleave : leave entered = u.packer.visits) :
    Ends u (hook.visit sub name entered leave u) := by
  let first : Packer := { u.packer with visits := entered, scope := u.packer.scope.down name }
  cases ends_run hsub hook rfl rfl (u := { u with packer := first }) with
  | stopped bits hbits hstop =>
    refine .stopped bits hbits ?_
    rw [visit]
    refine andThen_of_eq_error (u := { u with packer := first }) rfl ?_
    rw [hstop]
    rfl
  | contained out hrun hv =>
    obtain ⟨v, passed⟩ := out
    let last : Packer :=
      { v.packer with scope := v.packer.scope.up, visits := leave v.packer.visits }
    have hvisit : hook.visit sub name entered leave u =
        .ok ({ v with packer := last }, [first] ++ (passed ++ [last])) := by
      rw [visit]
      refine andThen_of_eq_ok (u := { u with packer := first }) rfl ?_
      exact andThen_of_eq_ok hrun rfl
    exact .contained _ hvisit {
      passes := (Passes.step (.elsewhere ..)).trans (hv.passes.trans (.step (.elsewhere ..)))
      size := hv.size
      visits := (congrArg leave hv.visits).trans hleave
      segments := Scope.segments_up_suffix_of_cons hv.segments
      pending := fun _ => rfl }

end UnpackHook

namespace Packer

open UnpackRun (Ends ends_step)

variable {hooks : ObjectRef → UnpackHook} {u : Unpacking}

/-- **Unpacking an object ends**, whatever the stream holds and whatever the hooks do, within as
many levels as there are objects to enter. -/
theorem ends_unpackBy (fuel : Nat) (target : Option ObjectRef)
    (hu : u.graph.unvisited u.packer.visits < fuel) :
    Ends u (unpackBy hooks fuel target u) := by
  -- each level that is entered leaves one object less to enter
  induction fuel generalizing target u with
  | zero => exact absurd hu (Nat.not_lt_zero _)
  | succ fuel ih =>
    have hmark := u.packer.consumed_unpackMarker
    obtain ⟨⟨follows, p⟩, hp⟩ : ∃ x, u.packer.unpackMarker = x := ⟨_, rfl⟩
    rw [hp] at hmark
    rw [unpackBy, hp]
    refine .step_andThen hmark.readsOn hmark.visits hmark.scope ?_
    dsimp only
    split
    case isFalse => exact .contained _ rfl (.nil _)
    case isTrue =>
      cases hres : u.graph.resolve target with
      | none =>
        have hmissed : Consumed p (p.noted [.nullObject]) :=
          .noted (by simp [PackError.reportId])
        exact ends_step hmissed.readsOn rfl rfl
      | some found =>
        obtain ⟨r, o⟩ := found
        have hr := ObjectGraph.lt_size_of_object? (ObjectGraph.resolve_eq_some.1 hres).2
        cases henter : p.visits.enter? (instanceId r) with
        | none =>
          simp only [henter]
          exact ends_step (.cycle ..) rfl rfl
        | some visits =>
          -- the hooks may change the objects, but not how many there are to enter
          have hlt := ObjectGraph.unvisited_enter? hr henter
          rw [hmark.visits] at hlt
          simp only [henter]
          refine UnpackHook.ends_visit (fun target v hv hs => ih target ?_) (hooks r) o.name
            (VisitSet.leave_of_enter? henter)
          rw [hv, ObjectGraph.unvisited_eq_of_size_eq hs]
          exact hlt.trans_le (Nat.le_of_lt_succ hu)

end Packer

namespace ObjectGraph

open UnpackRun (Ends)

/-- **Unpacking what is loaded ends** as well. -/
theorem ends_unpackLoadedBy (hooks : ObjectRef → UnpackHook) (r : ObjectRef) (u : Unpacking) :
    Ends u (unpackLoadedBy hooks u.graph.depthBound r u) := by
  unfold unpackLoadedBy
  cases ho : u.graph.object? r with
  | none => exact .contained _ rfl (.nil u)
  | some o =>
    refine UnpackHook.ends_visit (fun target v _ hs => Packer.ends_unpackBy _ target ?_) (hooks r)
      o.name ?_
    · rw [unvisited_eq_of_size_eq hs]
      exact u.graph.unvisited_lt_depthBound v.packer.visits
    · cases henter : u.packer.visits.enter? (instanceId r) with
      | none => rw [if_pos (VisitSet.enter?_eq_none_iff.1 henter)]; rfl
      | some visits =>
        have hnot : ¬u.packer.visits.contains (instanceId r) = true := by
          rw [← VisitSet.enter?_eq_none_iff, henter]
          simp
        rw [if_neg hnot]
        exact VisitSet.leave_of_enter? henter

end ObjectGraph

/-! ### Hooks that are counted -/

/-- What an operation may read. -/
def UnpackOp.Gives {α : Type} : UnpackOp α → α → Prop
  | int size, v | wide size, v => v < 2 ^ size
  | _, _ => True

namespace Packer

theorem readField_lt (p : Packer) (size : Nat) : (p.readField size).1 < 2 ^ size :=
  (((p.reads_readField size).value _).1 rfl).1

theorem unpackInt_lt (p : Packer) (size : Nat) : (p.unpackInt size).1 < 2 ^ size := by
  unfold unpackInt
  split
  · exact Nat.two_pow_pos size
  · split
    · exact Nat.two_pow_pos size
    · exact p.readField_lt size

theorem unpackWide_lt (p : Packer) (size : Nat) : (p.unpackWide size).1 < 2 ^ size := by
  rw [unpackWide_eq]
  split
  · exact Nat.two_pow_pos size
  · split
    · exact Nat.two_pow_pos size
    · exact p.readField_lt size

theorem gives_perform {α : Type} (op : UnpackOp α) (p : Packer) : op.Gives (op.perform p).1 := by
  cases op with
  | int size => exact p.unpackInt_lt size
  | wide size => exact p.unpackWide_lt size
  | _ => trivial

end Packer

/-- A hook asks for no more than can be counted, whatever it reads. -/
def UnpackHook.IsCounted : UnpackHook → Prop
  | done => True
  | look next => ∀ u, (next u).IsCounted
  | change _ _ next | object _ next | note next => next.IsCounted
  | unpack op next => op.requested < UInt64.size ∧ ∀ a, op.Gives a → (next a).IsCounted

section Counted

variable {sub : Option ObjectRef → Unpacking → Except UnpackStop UnpackRun}
  {hooks : ObjectRef → UnpackHook} {bits : Nat}

theorem UnpackRun.ok_ne_error {out : UnpackRun} {stop : UnpackStop} :
    (.ok out : Except UnpackStop UnpackRun) ≠ .error stop :=
  fun h => by cases h

theorem UnpackRun.andThen_ne_error {run : Except UnpackStop UnpackRun}
    {next : Unpacking → Except UnpackStop UnpackRun} {stop : UnpackStop} (h : run ≠ .error stop)
    (hnext : ∀ u, next u ≠ .error stop) : andThen run next ≠ .error stop := by
  cases run with
  | error other => exact fun heq => h (congrArg Except.error (Except.error.inj heq))
  | ok out =>
    cases hv : next out.1 with
    | error other =>
      rw [andThen_of_eq_error rfl hv, ← hv]
      exact hnext out.1
    | ok out' =>
      rw [andThen_of_eq_ok rfl hv]
      exact ok_ne_error

open UnpackRun (andThen_ne_error ok_ne_error)

/-- Such a hook never stops for what it asks. -/
theorem UnpackHook.IsCounted.run_ne {hook : UnpackHook} (h : hook.IsCounted)
    (hsub : ∀ target u, sub target u ≠ .error (.uncounted bits)) (u : Unpacking) :
    hook.run sub u ≠ .error (.uncounted bits) := by
  induction hook generalizing u with
  | done => exact ok_ne_error
  | look next ih => exact ih u (h u) u
  | change r f next ih => exact ih h _
  | unpack op next ih =>
    rw [run_unpack_of_lt h.1]
    exact andThen_ne_error ok_ne_error (ih _ (h.2 _ (u.packer.gives_perform op)))
  | object target next ih => exact andThen_ne_error (hsub target u) (ih h)
  | note next ih => exact andThen_ne_error ok_ne_error (ih h)

theorem UnpackHook.IsCounted.visit_ne {hook : UnpackHook} (h : hook.IsCounted)
    (hsub : ∀ target u, sub target u ≠ .error (.uncounted bits)) (name : String)
    (entered : VisitSet) (leave : VisitSet → VisitSet) (u : Unpacking) :
    hook.visit sub name entered leave u ≠ .error (.uncounted bits) := by
  rw [visit]
  refine andThen_ne_error ok_ne_error fun v => ?_
  exact andThen_ne_error (h.run_ne hsub v) fun w => ok_ne_error

theorem Packer.unpackBy_ne (h : ∀ r, (hooks r).IsCounted) (fuel : Nat)
    (target : Option ObjectRef) (u : Unpacking) :
    unpackBy hooks fuel target u ≠ .error (.uncounted bits) := by
  induction fuel generalizing target u with
  | zero =>
    intro hdepth
    cases hdepth
  | succ fuel ih =>
    rw [unpackBy]
    dsimp only
    refine andThen_ne_error ok_ne_error fun v => ?_
    split
    case isFalse => exact ok_ne_error
    case isTrue =>
      cases v.graph.resolve target with
      | none => exact ok_ne_error
      | some found =>
        cases henter : u.packer.unpackMarker.2.visits.enter? (instanceId found.1) with
        | none =>
          simp only [henter]
          exact ok_ne_error
        | some visits =>
          simp only [henter]
          exact (h found.1).visit_ne ih _ _ _ _

theorem ObjectGraph.unpackLoadedBy_ne (h : ∀ r, (hooks r).IsCounted) (fuel : Nat) (r : ObjectRef)
    (u : Unpacking) : unpackLoadedBy hooks fuel r u ≠ .error (.uncounted bits) := by
  unfold unpackLoadedBy
  cases u.graph.object? r with
  | none => exact ok_ne_error
  | some o => exact (h r).visit_ne (Packer.unpackBy_ne h fuel) _ _ _ _

end Counted

/-! ### Outcomes -/

namespace ObjectGraph

variable {size : Nat} {w : Packer}

/-- All that an outcome may add is a report. -/
theorem unpackOutcome_snd (size : Nat) (w : Packer) :
    (unpackOutcome size w).2 = { w with reporter := (unpackOutcome size w).2.reporter } := by
  unfold unpackOutcome
  split
  · rfl
  · split <;> rfl

theorem unpackOutcome_eq_error_iff {e : PackError} :
    (unpackOutcome size w).1 = .error e ↔ w.errors.head? = some e := by
  unfold unpackOutcome
  split
  next h => simp [h]
  next h => split <;> simp [h]

theorem unpackOutcome_eq_ok_iff {n : Nat} :
    (unpackOutcome size w).1 = .ok n ↔ w.errors = [] ∧ n = w.cursor := by
  cases herrors : w.errors with
  | nil => simp [unpackOutcome_of_errors_eq_nil size herrors, eq_comm]
  | cons e es => simp [unpackOutcome, herrors]

/-- Bits are said to be left over if there are any, and nothing else went wrong. -/
theorem leftovers_unpackOutcome (h : w.cursor ≤ size) :
    (unpackOutcome size w).2.leftovers = w.leftovers ++
      if w.errors = [] ∧ w.cursor < size then
        [⟨.warning, .none, "BDUNPK", (PackError.incompleteUnpack w.cursor size).message⟩]
      else [] := by
  cases herrors : w.errors with
  | nil =>
    refine (unpackOutcome_of_errors_eq_nil size herrors).2.2.trans (congrArg _ ?_)
    by_cases hall : w.cursor = size
    · rw [if_pos hall, if_neg fun hlt => absurd hall (Nat.ne_of_lt hlt.2)]
    · rw [if_neg hall, if_pos ⟨rfl, Nat.lt_of_le_of_ne h hall⟩]
  | cons e es => simp [unpackOutcome, herrors]

end ObjectGraph

/-! ### Streams -/

namespace StreamData

open Packer (ReadsOn Passes)

/-- How many bits are handed over. -/
def bitCount : StreamData → Nat
  | bits l => l.length
  | bytes l => 8 * l.length
  | words l => 32 * l.length

variable (data : StreamData) (p : Packer)

theorem size_load : (data.load p).size = data.bitCount := by
  cases data <;> simp [load, bitCount, Packer.loadBits, Packer.loadBytes, Packer.loadWords,
    Packer.load, Nat.mul_comm]

theorem cursor_load : (data.load p).cursor = 0 := by
  cases data <;> rfl

theorem errors_load : (data.load p).errors = p.errors := by
  cases data <;> rfl

theorem scope_load : (data.load p).scope = p.scope := by
  cases data <;> rfl

theorem leftovers_load : (data.load p).leftovers = p.leftovers := by
  cases data <;> rfl

/-- What is true of unpacking `data` with `p` when it passed some packers, and came to an outcome
and to `q`. -/
structure Contains (passed : List Packer) (outcome : Except PackError Nat) (q : Packer) :
    Prop where
  /-- The stream stays as it was loaded, and the cursor stays within it. -/
  inside : ∀ x ∈ data.load p.reset :: passed ++ [q],
    x.store = (data.load p.reset).store ∧ x.size = data.bitCount ∧ x.cursor ≤ data.bitCount
  /-- The cursor never goes back, and misuses are noted one after the other. -/
  onward : (data.load p.reset :: passed ++ [q]).Pairwise fun x y =>
    x.cursor ≤ y.cursor ∧ x.errors <+: y.errors
  /-- Nothing is noted before the stream is read. -/
  start : (data.load p.reset).cursor = 0 ∧ (data.load p.reset).errors = []
  error_iff : ∀ e, outcome = .error e ↔ q.errors.head? = some e
  ok_iff : ∀ n, outcome = .ok n ↔ q.errors = [] ∧ n = q.cursor
  leftovers : q.leftovers = p.leftovers ++
    if q.errors = [] ∧ q.cursor < data.bitCount then
      [⟨.warning, .none, "BDUNPK", (PackError.incompleteUnpack q.cursor data.bitCount).message⟩]
    else []
  scope : q.scope = {}
  visits : q.visits = p.visits

variable {data p} {passed : List Packer} {q w : Packer}

theorem inside_of_readsOn (h : ReadsOn (data.load p.reset) q) :
    q.store = (data.load p.reset).store ∧ q.size = data.bitCount ∧ q.cursor ≤ data.bitCount := by
  have hwithin := h.within
  rw [cursor_load, size_load, Nat.max_eq_right (Nat.zero_le _)] at hwithin
  exact ⟨h.store, h.size.trans (data.size_load _), hwithin⟩

/-- What is found in the end changes nothing of what was passed. -/
theorem contains_unpackOutcome (hpasses : (data.load p.reset).Passes passed w)
    (hscope : w.scope = {}) (hvisits : w.visits = p.visits) :
    data.Contains p passed (ObjectGraph.unpackOutcome data.bitCount w).1
      (ObjectGraph.unpackOutcome data.bitCount w).2 := by
  have hw := inside_of_readsOn hpasses.readsOn
  obtain ⟨hbefore, -, hlast⟩ := List.pairwise_append.1 hpasses
  have hq := ObjectGraph.unpackOutcome_snd data.bitCount w
  have hleft := ObjectGraph.leftovers_unpackOutcome hw.2.2
  rw [hpasses.readsOn.leftovers, leftovers_load] at hleft
  generalize (ObjectGraph.unpackOutcome data.bitCount w).2 = q at hq hleft
  generalize q.reporter = reporter at hq
  subst hq
  exact {
    inside := by
      intro x hx
      obtain hx | hx := List.mem_append.1 hx
      · exact inside_of_readsOn (hpasses.readsOn_of_mem (List.mem_append_left _ hx))
      · obtain rfl := List.mem_singleton.1 hx
        exact hw
    onward := by
      refine List.pairwise_append.2 ⟨hbefore.imp fun h => ⟨h.forward, h.errors⟩,
        List.pairwise_singleton .., fun x hx y hy => ?_⟩
      obtain rfl := List.mem_singleton.1 hy
      have h := hlast x hx w (by simp)
      exact ⟨h.forward, h.errors⟩
    start := ⟨data.cursor_load _, data.errors_load _⟩
    error_iff := fun e => ObjectGraph.unpackOutcome_eq_error_iff
    ok_iff := fun n => ObjectGraph.unpackOutcome_eq_ok_iff
    leftovers := hleft
    scope := hscope
    visits := hvisits }

end StreamData

/-- A hook that reads how many bytes there are, and then these. -/
def UnpackHook.countedBytes (width : Nat) : UnpackHook :=
  .unpack (.int width) fun count => .unpack (.array .bytes count none) fun _ => .done

/-- A stream that has fewer bytes than it says. -/
example :
    let run := ObjectGraph.smallRing.unpackBy (fun _ => .countedBytes 8) 0
      (StreamData.bytes [3, 1, 2]).load { settings.bigEndian := false }
    (run.toOption.map fun out => (out.2.map Packer.cursor, out.1.2.2.errors)) =
      some ([0, 8, 8, 8], [.notEnoughBits 24 16 "unpack_bytes"]) := by
  decide

end FieldAutomation
