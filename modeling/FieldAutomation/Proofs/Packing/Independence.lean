import FieldAutomation.Proofs.Packing.RoundTrip

/-!
# A packer does not remember

Packing starts with an empty stream, and so does unpacking before its data are loaded.  What a
packer did before is with it all the same: storage that was added stays, and reports pile up.
None of it is ever looked at.  A packer with a past does what a new one does, and the past stays
where it is.

* `Packer.Past`, `Packer.withPast`: what is left of earlier streams;
* `Packer.Unseen`: changes to a packer that reading does not look at;
* `StreamData`: a stream as it is handed over;
* `Packer.SameStream`, `Reporter.Adds`: what can be seen of a packer afterwards.

Main statements: `ObjectGraph.pack_withPast`, `ObjectGraph.unpack_withPast` (a past changes
nothing) and `ObjectGraph.runs_alike` (two packers with pasts of their own).
-/

namespace FieldAutomation

open ObjectGraph (instanceId)

namespace BitStore

/-- A store with storage for at least `words` words. -/
def pad (s : BitStore) (words : Nat) : BitStore :=
  ⟨s.bits, max s.words words,
    Nat.lt_of_lt_of_le s.bits_lt (Nat.pow_le_pow_right (by decide) (by omega))⟩

variable (s : BitStore) (words : Nat)

@[simp] theorem write_pad (pos v width : Nat) :
    (s.pad words).write pos v width = (s.write pos v width).pad words := by
  unfold write pad
  split
  · rfl
  · simp only [mk.injEq, true_and]
    omega

@[simp] theorem clear_pad : (s.pad words).clear = s.clear.pad words := rfl

/-- Nothing is left of a store that was cleared but its storage. -/
theorem clear_eq_pad : s.clear = empty.pad s.words := by
  simp [clear, pad, empty]

end BitStore

namespace Packer

/-- What a packer carries along of what it did before. -/
structure Past where
  words : Nat := 0
  maxVerbosity : Verbosity := .medium
  reports : List Report := []
  notes : List PackNote := []

/-- A packer that has a past. -/
def withPast (p : Packer) (past : Past) : Packer :=
  { p with
    store := p.store.pad past.words
    reporter := ⟨past.maxVerbosity, past.reports ++ p.reporter.reports⟩
    notes := past.notes ++ p.notes }

/-- The past of a packer. -/
def past (p : Packer) : Past :=
  ⟨p.store.words, p.reporter.maxVerbosity, p.reporter.reports, p.notes⟩

/-- A new packer, in the middle of the same objects. -/
def fresh (p : Packer) : Packer := { settings := p.settings, visits := p.visits }

/-- A packer that was reset is a new one with a past. -/
theorem reset_eq_withPast (p : Packer) : p.reset = p.fresh.withPast p.past := by
  simp [reset, fresh, withPast, past, BitStore.clear_eq_pad, Scope.clear]

/-! ### Packing -/

section Packing

variable (p : Packer) (past : Past)

@[simp] theorem fail_withPast (e : PackError) :
    (p.withPast past).fail e = (p.fail e).withPast past := by
  simp [fail, withPast, Reporter.error, Reporter.report, Reporter.accepts]

/-- A warning goes behind the reports of the past. -/
theorem warning_withPast (id message : String) :
    (p.withPast past).reporter.warning id message =
      ⟨past.maxVerbosity, past.reports ++ (p.reporter.warning id message).reports⟩ := by
  simp [withPast, Reporter.warning, Reporter.report, Reporter.accepts]

@[simp] theorem writeField_withPast (v size : Nat) :
    (p.withPast past).writeField v size = (p.writeField v size).withPast past := by
  have ho : (p.withPast past).ordered v size = p.ordered v size := rfl
  rw [writeField, ho]
  simp [writeField, withPast]

theorem packInt_withPast (v size : Nat) :
    (p.withPast past).packInt v size = (p.packInt v size).withPast past := by
  unfold packInt
  split <;> simp

theorem packWide_withPast (v size : Nat) :
    (p.withPast past).packWide v size = (p.packWide v size).withPast past := by
  rw [packWide_eq, packWide_eq]
  split
  · exact packInt_withPast ..
  · split <;> simp

theorem writeElements_withPast (unit : Nat) (values : List Nat) (remaining : Nat) :
    writeElements unit values remaining (p.withPast past) =
      (writeElements unit values remaining p).withPast past := by
  induction values generalizing remaining p with
  | nil => rfl
  | cons v rest ih =>
    simp only [writeElements]
    rw [← ih]
    simp [withPast]

theorem packArray_withPast (kind : ArrayKind) (values : List Nat) (size : Option Nat) :
    (p.withPast past).packArray kind values size =
      (p.packArray kind values size).withPast past := by
  unfold packArray
  dsimp only
  split
  · exact fail_withPast ..
  · exact writeElements_withPast ..

theorem packString_withPast (text : String) :
    (p.withPast past).packString text = (p.packString text).withPast past := by
  simp only [packString_eq, writeField_withPast]
  have hs : ∀ q : Packer, (q.withPast past).settings = q.settings := fun _ => rfl
  rw [hs]
  split <;> rfl

theorem packMarker_withPast (follows : Bool) :
    (p.withPast past).packMarker follows = (p.packMarker follows).withPast past := by
  simp only [packMarker, writeField_withPast]
  have hs : (p.withPast past).settings = p.settings := rfl
  rw [hs]
  split <;> rfl

theorem packData_withPast (data : FieldData) :
    packData data (p.withPast past) = (packData data p).withPast past := by
  cases data with
  | int v size radix => exact packInt_withPast ..
  | wide v size radix => exact packWide_withPast ..
  | real x => exact writeField_withPast ..
  | str text length => exact packString_withPast ..
  | time t radix => exact writeField_withPast ..
  | array kind values size radix => exact packArray_withPast ..
  | elements values size radix =>
    simp only [packData]
    induction values generalizing p with
    | nil => rfl
    | cons v rest ih => rw [List.foldl_cons, packInt_withPast, ih, List.foldl_cons]
  | generic text typeName => rfl
  | child target => rfl
  | probe => simp [packData, withPast]

theorem includes_withPast (f : Field) : (p.withPast past).includes f = p.includes f := rfl

variable {p past}

section Fields

variable {sub : Option ObjectRef → Packer → Option Packer}

theorem packField_withPast
    (hsub : ∀ target p, sub target (p.withPast past) = (sub target p).map (·.withPast past))
    (f : Field) (p : Packer) :
    packField sub f (p.withPast past) = (packField sub f p).map (·.withPast past) := by
  rw [packField, includes_withPast, packField]
  split
  · split
    · exact hsub ..
    · exact congrArg some (packData_withPast ..)
  · rfl

theorem packFields_withPast
    (hsub : ∀ target p, sub target (p.withPast past) = (sub target p).map (·.withPast past))
    (fields : List Field) (p : Packer) :
    packFields sub fields (p.withPast past) = (packFields sub fields p).map (·.withPast past) := by
  induction fields generalizing p with
  | nil => rfl
  | cons f rest ih =>
    rw [packFields_cons, packField_withPast hsub, packFields_cons]
    cases packField sub f p with
    | none => rfl
    | some q => exact ih q

end Fields

theorem packObject_of_reference {g : ObjectGraph} {target : Option ObjectRef} {r : ObjectRef}
    {o : DataObject} (fuel : Nat) (h : g.resolve target = some (r, o))
    (hv : p.visits.contains (instanceId r) = false) (hp : p.settings.policy = .reference) :
    packObject g (fuel + 1) target p = some (p.packMarker false) := by
  simp [packObject, h, VisitSet.enter?_of_not_contains hv, hp]

/-- What is done at the end of an object is done whatever comes before. -/
theorem bind_map_comm {α : Type} {x y : Option α} {before finish : α → α} (h : x = y.map before)
    (hf : ∀ a, finish (before a) = before (finish a)) :
    (x.bind fun a => some (finish a)) = (y.bind fun a => some (finish a)).map before := by
  subst h
  cases y with
  | none => rfl
  | some q => exact congrArg some (hf q)

/-- Packing an object does the same whatever the packer did before. -/
theorem packObject_withPast (g : ObjectGraph) (fuel : Nat) (target : Option ObjectRef)
    (p : Packer) :
    packObject g fuel target (p.withPast past) =
      (packObject g fuel target p).map (·.withPast past) := by
  induction fuel generalizing target p with
  | zero => rfl
  | succ fuel ih =>
    cases hres : g.resolve target with
    | none =>
      rw [packObject_of_resolve_eq_none hres, packObject_of_resolve_eq_none hres]
      exact congrArg some (packMarker_withPast ..)
    | some found =>
      obtain ⟨r, o⟩ := found
      cases hv : p.visits.contains (instanceId r) with
      | true =>
        rw [packObject_of_visited hres (p := p.withPast past) hv, packObject_of_visited hres hv]
        rw [warning_withPast]
        exact congrArg some (packMarker_withPast
          { p with reporter := p.reporter.warning "CYCFND" (cycleMessage r "pack") } past false)
      | false =>
        by_cases hp : p.settings.policy = .reference
        · rw [packObject_of_reference fuel hres (p := p.withPast past) hv hp,
            packObject_of_reference fuel hres hv hp]
          exact congrArg some (packMarker_withPast ..)
        · have hV := VisitSet.enter?_of_not_contains hv
          generalize (⟨instanceId r :: p.visits.active⟩ : VisitSet) = visits at hV
          rw [packObject_of_not_visited hres (p := p.withPast past) hV hp,
            packObject_of_not_visited hres hV hp]
          have hmarker := packMarker_withPast { p with visits } past true
          have hentered := congrArg (fun e : Packer => packFields (packObject g fuel) o.fields
            { e with scope := e.scope.down o.name }) hmarker
          have hfields := packFields_withPast ih o.fields { ({ p with visits }.packMarker true) with
            scope := ({ p with visits }.packMarker true).scope.down o.name }
          exact bind_map_comm (hentered.trans hfields) fun _ => rfl

end Packing

/-! ### Unpacking -/

/-- Reads `count` bytes of text. -/
def readText (p : Packer) (count : Nat) : String × Packer :=
  if count = 0 then ("", p)
  else
    match p.shortage? (Size.mul 8 count) "string" with
    | some e => ("", p.fail e)
    | none =>
      let (v, p) := p.readWide (Size.mul 8 count)
      (Utf8.decodeLossy (toBytes v count), p)

/-- Skips the byte behind a text if metadata is used. -/
def skipTerminator (p : Packer) : Packer :=
  if p.settings.useMetadata then
    match p.shortage? 8 "string" with
    | some e => p.fail e
    | none => p.advance 8
  else p

theorem unpackString_eq (p : Packer) (length : Option Nat) :
    p.unpackString length =
      (p.readText (length.getD (bytesBeforeZero p.store (p.available / 8) p.cursor))).map id
        skipTerminator := by
  unfold unpackString readText
  extract_lets count
  have hs : ∀ (text : String) (q : Packer),
      (if q.settings.useMetadata then
        match q.shortage? 8 "string" with
        | some e => (text, q.fail e)
        | none => (text, { q with cursor := q.cursor + 8 })
      else (text, q)) = (text, q.skipTerminator) := by
    intro text q
    unfold skipTerminator
    split
    · cases q.shortage? 8 "string" <;> rfl
    · rfl
  exact hs _ _

/-- `φ` changes nothing of a packer that reading a field looks at, and whatever such reading notes
comes to the same before and after `φ`.  A missing object is not noted by reading a field. -/
structure Unseen (φ : Packer → Packer) : Prop where
  settings : ∀ p, (φ p).settings = p.settings
  cursor : ∀ p, (φ p).cursor = p.cursor
  size : ∀ p, (φ p).size = p.size
  scope : ∀ p, (φ p).scope = p.scope
  visits : ∀ p, (φ p).visits = p.visits
  read : ∀ p pos width, (φ p).store.read pos width = p.store.read pos width
  advance : ∀ p count, (φ p).advance count = φ (p.advance count)
  fail : ∀ p {e}, e ≠ .nullObject → (φ p).fail e = φ (p.fail e)
  note : ∀ p n, { φ p with notes := (φ p).notes ++ [n] } = φ { p with notes := p.notes ++ [n] }

theorem ne_nullObject_of_shortage? {p : Packer} {needed : Nat} {what : String} {e : PackError}
    (h : p.shortage? needed what = some e) : e ≠ .nullObject := by
  rintro rfl
  simp [shortage?] at h

namespace Unseen

variable {φ : Packer → Packer} (hφ : Unseen φ) (p : Packer)
include hφ

theorem available : (φ p).available = p.available := by
  rw [Packer.available, hφ.size, hφ.cursor, Packer.available]

theorem shortage? (needed : Nat) (what : String) :
    (φ p).shortage? needed what = p.shortage? needed what := by
  rw [Packer.shortage?, hφ.available, Packer.shortage?]

theorem readField (size : Nat) : (φ p).readField size = (p.readField size).map id φ := by
  refine Prod.ext ?_ (hφ.advance ..)
  simp only [Packer.readField, Prod.map, id, ordered, hφ.read, hφ.cursor, hφ.settings]

/-- A call that is refused if the stream is too short. -/
theorem guarded {α : Type} {read read' : α × Packer} (zero : α) (needed : Nat) (what : String)
    (hread : read' = read.map id φ) :
    (match (φ p).shortage? needed what with
      | some e => (zero, (φ p).fail e)
      | none => read') =
    Prod.map id φ (match p.shortage? needed what with
      | some e => (zero, p.fail e)
      | none => read) := by
  rw [hφ.shortage?]
  cases hs : p.shortage? needed what with
  | some e => exact Prod.ext rfl (hφ.fail p (ne_nullObject_of_shortage? hs))
  | none => exact hread

theorem unpackInt (size : Nat) : (φ p).unpackInt size = (p.unpackInt size).map id φ := by
  unfold Packer.unpackInt
  split
  · exact Prod.ext rfl (hφ.fail p (by simp))
  · exact hφ.guarded p 0 size "integral" (hφ.readField p size)

theorem unpackWide (size : Nat) : (φ p).unpackWide size = (p.unpackWide size).map id φ := by
  unfold Packer.unpackWide
  split
  · exact hφ.unpackInt p size
  · split
    · exact Prod.ext rfl (hφ.fail p (by simp))
    · refine hφ.guarded p 0 size "integral" ?_
      rw [readWide_eq_readField, readWide_eq_readField]
      exact hφ.readField p size

theorem readElements (unit count remaining : Nat) :
    readElements unit count remaining (φ p) =
      (Packer.readElements unit count remaining p).map id φ := by
  induction count generalizing remaining p with
  | zero => rfl
  | succ count ih =>
    rw [readElements_succ, hφ.advance, ih, readElements_succ, hφ.read, hφ.cursor]
    rfl

theorem unpackArray (kind : ArrayKind) (count : Nat) (size : Option Nat) :
    (φ p).unpackArray kind count size = (p.unpackArray kind count size).map id φ := by
  unfold Packer.unpackArray
  dsimp only
  split
  next e he =>
    refine Prod.ext rfl (hφ.fail p ?_)
    rintro rfl
    unfold arrayBits at he
    split at he
    · cases he
    · split at he <;> cases he
  next total _ =>
    refine hφ.guarded p _ total _ ?_
    rw [hφ.readElements]
    simp only [Prod.map, id, streamOrder, hφ.settings]

theorem readText (count : Nat) : (φ p).readText count = (p.readText count).map id φ := by
  unfold Packer.readText
  split
  · rfl
  · refine hφ.guarded p "" (Size.mul 8 count) "string" ?_
    rw [readWide_eq_readField, readWide_eq_readField, hφ.readField]
    rfl

theorem skipTerminator : (φ p).skipTerminator = φ p.skipTerminator := by
  unfold Packer.skipTerminator
  rw [hφ.settings]
  split
  · rw [hφ.shortage?]
    cases hs : p.shortage? 8 "string" with
    | some e => exact hφ.fail p (ne_nullObject_of_shortage? hs)
    | none => exact hφ.advance p 8
  · rfl

theorem bytesBeforeZero (count pos : Nat) :
    bytesBeforeZero (φ p).store count pos = Packer.bytesBeforeZero p.store count pos := by
  induction count generalizing pos with
  | zero => rfl
  | succ count ih => simp only [Packer.bytesBeforeZero, ih, hφ.read]

theorem unpackString (length : Option Nat) :
    (φ p).unpackString length = (p.unpackString length).map id φ := by
  rw [unpackString_eq, unpackString_eq, hφ.readText, hφ.bytesBeforeZero, hφ.available, hφ.cursor]
  exact Prod.ext rfl (hφ.skipTerminator _)

theorem unpackElements (size count : Nat) :
    unpackElements size count (φ p) = (Packer.unpackElements size count p).map id φ := by
  induction count generalizing p with
  | zero => rfl
  | succ count ih =>
    simp only [Packer.unpackElements, hφ.unpackInt, Prod.map, ih]
    rfl

/-- Reading a field does the same whatever `φ` changes. -/
theorem unpackData (data : FieldData) :
    unpackData data (φ p) = (Packer.unpackData data p).map id φ := by
  cases data with
  | int v size radix => simp only [Packer.unpackData, hφ.unpackInt]; rfl
  | wide v size radix => simp only [Packer.unpackData, hφ.unpackWide]; rfl
  | real x => simp only [Packer.unpackData, unpackReal, hφ.unpackInt]; rfl
  | str text length => simp only [Packer.unpackData, hφ.unpackString]; rfl
  | time t radix => simp only [Packer.unpackData, unpackTime, hφ.unpackInt]; rfl
  | array kind values size radix => simp only [Packer.unpackData, hφ.unpackArray]; rfl
  | elements values size radix => simp only [Packer.unpackData, hφ.unpackElements]; rfl
  | generic text typeName => rfl
  | child target => rfl
  | probe =>
    have hnote : PackNote.unpacking (φ p).scope.path (φ p).cursor (φ p).visits.size (φ p).atNull =
        .unpacking p.scope.path p.cursor p.visits.size p.atNull := by
      simp only [atNull, hφ.scope, hφ.cursor, hφ.visits, hφ.settings, hφ.read]
    refine Prod.ext rfl ?_
    simp only [Packer.unpackData, hnote]
    exact hφ.note ..

theorem unpackMarker : (φ p).unpackMarker = p.unpackMarker.map id φ := by
  unfold Packer.unpackMarker
  rw [hφ.settings, hφ.unpackInt]
  split <;> rfl

end Unseen

section Unpacking

theorem unseen_withPast (past : Past) : Unseen (·.withPast past) where
  settings _ := rfl
  cursor _ := rfl
  size _ := rfl
  scope _ := rfl
  visits _ := rfl
  read _ _ _ := rfl
  advance _ _ := rfl
  fail _ _ _ := fail_withPast ..
  note _ _ := by simp [withPast]

/-- A packer with a past, and the graph that it is unpacking into. -/
def Unpacking.withPast (u : Unpacking) (past : Past) : Unpacking :=
  { u with packer := u.packer.withPast past }

variable {past : Past} {sub : Option ObjectRef → Unpacking → Option Unpacking}

theorem unpackField_withPast
    (hsub : ∀ target u, sub target (u.withPast past) = (sub target u).map (·.withPast past))
    (r : ObjectRef) (index : Nat) (f : Field) (u : Unpacking) :
    unpackField sub r index f (u.withPast past) =
      (unpackField sub r index f u).map (·.withPast past) := by
  have hi : (u.withPast past).packer.includes f = u.packer.includes f := rfl
  have hd : ∀ data, unpackData data (u.withPast past).packer =
      (unpackData data u.packer).map id (·.withPast past) :=
    (unseen_withPast past).unpackData u.packer
  rw [unpackField, hi, unpackField]
  split
  · split
    · exact hsub ..
    · rw [hd]
      rfl
  · rfl

theorem unpackFields_withPast
    (hsub : ∀ target u, sub target (u.withPast past) = (sub target u).map (·.withPast past))
    (r : ObjectRef) (index : Nat) (fields : List Field) (u : Unpacking) :
    unpackFields sub r index fields (u.withPast past) =
      (unpackFields sub r index fields u).map (·.withPast past) := by
  induction fields generalizing index u with
  | nil => rfl
  | cons f rest ih =>
    rw [unpackFields_cons, unpackField_withPast hsub, unpackFields_cons]
    cases unpackField sub r index f u with
    | none => rfl
    | some v => exact ih (index + 1) v

theorem unpackObject_of_reference {target : Option ObjectRef} {u : Unpacking} {q : Packer}
    {follows : Bool} (fuel : Nat) (h : u.packer.unpackMarker = (follows, q))
    (hp : q.settings.policy = .reference) :
    unpackObject (fuel + 1) target u = some { u with packer := q } := by
  simp [unpackObject, h, hp]

theorem unpackObject_of_null {target : Option ObjectRef} {u : Unpacking} {q : Packer}
    (fuel : Nat) (h : u.packer.unpackMarker = (true, q)) (hp : q.settings.policy ≠ .reference)
    (ht : u.graph.resolve target = none) :
    unpackObject (fuel + 1) target u = some { u with packer := q.fail .nullObject } := by
  simp [unpackObject, h, hp, ht]

/-- Unpacking an object does the same whatever the packer did before. -/
theorem unpackObject_withPast (fuel : Nat) (target : Option ObjectRef) (u : Unpacking) :
    unpackObject fuel target (u.withPast past) =
      (unpackObject fuel target u).map (·.withPast past) := by
  induction fuel generalizing target u with
  | zero => rfl
  | succ fuel ih =>
    -- the mark is the same, and so are settings, graph and visit set behind it
    have hmark : (u.withPast past).packer.unpackMarker =
        u.packer.unpackMarker.map id (·.withPast past) :=
      (unseen_withPast past).unpackMarker u.packer
    obtain ⟨⟨follows, q⟩, hq⟩ : ∃ x, u.packer.unpackMarker = x := ⟨_, rfl⟩
    rw [hq, Prod.map_apply, id] at hmark
    by_cases hp : q.settings.policy = .reference
    · rw [unpackObject_of_reference fuel hmark hp, unpackObject_of_reference fuel hq hp]
      rfl
    cases follows with
    | false =>
      rw [unpackObject_of_not_follows hmark, unpackObject_of_not_follows hq]
      rfl
    | true =>
      cases hres : u.graph.resolve target with
      | none =>
        rw [unpackObject_of_null fuel hmark hp hres, unpackObject_of_null fuel hq hp hres]
        exact congrArg some (congrArg (Unpacking.mk u.graph) (fail_withPast ..))
      | some found =>
        obtain ⟨r, o⟩ := found
        cases hv : q.visits.contains (instanceId r) with
        | true =>
          rw [unpackObject_of_visited hmark hp hres hv, unpackObject_of_visited hq hp hres hv,
            warning_withPast]
          rfl
        | false =>
          have hV := VisitSet.enter?_of_not_contains hv
          generalize (⟨instanceId r :: q.visits.active⟩ : VisitSet) = visits at hV
          rw [unpackObject_of_not_visited hmark hp hres hV,
            unpackObject_of_not_visited hq hp hres hV]
          have hfields := unpackFields_withPast ih r 0 o.fields
            { u with packer := { q with visits, scope := q.scope.down o.name } }
          exact bind_map_comm hfields fun _ => rfl

end Unpacking

/-! ### What is handed over -/

theorem storeAll_pad (unit words : Nat) (values : List Nat) (pos : Nat) (s : BitStore) :
    storeAll unit values pos (s.pad words) = (storeAll unit values pos s).pad words := by
  induction values generalizing pos s with
  | nil => rfl
  | cons v rest ih => rw [storeAll, BitStore.write_pad, ih, storeAll]

end Packer

/-- A stream as it is handed over to be unpacked. -/
inductive StreamData where
  | bits (bits : List Bool)
  | bytes (bytes : List UInt8)
  | words (words : List UInt32)

namespace StreamData

/-- Puts the data into a packer. -/
def load : StreamData → Packer → Packer
  | bits l, p => p.loadBits l
  | bytes l, p => p.loadBytes (l.map UInt8.toNat)
  | words l, p => p.loadWords (l.map UInt32.toNat)

theorem load_withPast (data : StreamData) (p : Packer) (past : Packer.Past) :
    data.load (p.withPast past) = (data.load p).withPast past := by
  have hl : ∀ unit values,
      (p.withPast past).load unit values = (p.load unit values).withPast past := by
    intro unit values
    simp only [Packer.load, Packer.withPast, BitStore.clear_pad]
    rw [Packer.storeAll_pad]
    rfl
  cases data with
  | bits l =>
    simp only [load, Packer.loadBits, Packer.withPast, BitStore.clear_pad, Packer.storeAll_pad]
  | bytes l => exact hl ..
  | words l => exact hl ..

end StreamData

namespace ObjectGraph

variable {g : ObjectGraph} {r : ObjectRef} {o : DataObject}

open Packer

/-- **Packing does not depend on the past**: it does what a new packer would do. -/
theorem pack_withPast (p : Packer) (ho : g.object? r = some o) :
    g.pack r p = (g.pack r p.fresh).withPast p.past := by
  have hstart : packRoot r o p.reset = (packRoot r o p.fresh).withPast p.past := by
    rw [reset_eq_withPast]
    rfl
  have hp : g.pack? g.depthBound r p =
      (g.pack? g.depthBound r p.fresh).map (·.withPast p.past) := by
    simp only [pack?, ho]
    rw [hstart]
    exact bind_map_comm (packFields_withPast (packObject_withPast g g.depthBound) o.fields _)
      fun _ => rfl
  rw [g.pack?_eq_some, g.pack?_eq_some] at hp
  exact Option.some.inj hp

theorem unpackOutcome_withPast (size : Nat) (p : Packer) (past : Past) :
    unpackOutcome size (p.withPast past) = (unpackOutcome size p).map id (·.withPast past) := by
  have he : (p.withPast past).errors = p.errors := rfl
  have hc : (p.withPast past).cursor = p.cursor := rfl
  unfold unpackOutcome
  dsimp only
  rw [he, hc, warning_withPast]
  split
  · rfl
  · split <;> rfl

theorem unpackLoaded?_withPast {u : Unpacking} (past : Past) (fuel : Nat)
    (ho : u.graph.object? r = some o) :
    unpackLoaded? fuel r (u.withPast past) = (unpackLoaded? fuel r u).map (·.withPast past) := by
  have hg : (u.withPast past).graph = u.graph := rfl
  simp only [unpackLoaded?, hg, ho]
  exact bind_map_comm (unpackFields_withPast (unpackObject_withPast fuel) r 0 o.fields
    { u with packer := packRoot r o u.packer }) fun _ => rfl

/-- **Unpacking does not depend on the past**: it does what a new packer would do. -/
theorem unpack_withPast (p : Packer) (data : StreamData) (ho : g.object? r = some o) :
    g.unpack r data.load p =
      (g.unpack r data.load p.fresh).map id (Prod.map id (·.withPast p.past)) := by
  have hl : data.load p.reset = (data.load p.fresh.reset).withPast p.past := by
    rw [reset_eq_withPast, StreamData.load_withPast]
    rfl
  obtain ⟨w, hw⟩ : ∃ w, unpackLoaded? g.depthBound r ⟨g, data.load p.fresh.reset⟩ = some w :=
    ⟨_, unpackLoaded?_eq_some r ⟨g, data.load p.fresh.reset⟩⟩
  have hw' : unpackLoaded? g.depthBound r ⟨g, data.load p.reset⟩ = some (w.withPast p.past) := by
    have h := unpackLoaded?_withPast (u := ⟨g, data.load p.fresh.reset⟩) p.past
      g.depthBound ho
    rw [hw] at h
    rwa [hl]
  have hout : unpackOutcome ((data.load p.fresh.reset).withPast p.past).size
      (w.withPast p.past).packer = _ :=
    unpackOutcome_withPast (data.load p.fresh.reset).size w.packer p.past
  rw [unpack_of_unpackLoaded? hw', unpack_of_unpackLoaded? hw, hl, hout]
  rfl

end ObjectGraph

/-! ### Two packers -/

/-- `r'` is `r` after some more reports, all of them kept. -/
def Reporter.Adds (r r' : Reporter) (reports : List Report) : Prop :=
  r' = { r with reports := r.reports ++ reports }

/-- Two packers hold the same stream and have got equally far in it: whatever is read from one of
them, at any place, is read from the other. -/
structure Packer.SameStream (p q : Packer) : Prop where
  size : q.size = p.size
  cursor : q.cursor = p.cursor
  errors : q.errors = p.errors
  bitList : q.bitList = p.bitList
  bytes : q.bytes = p.bytes
  words : q.words = p.words
  read : ∀ pos width, q.store.read pos width = p.store.read pos width

/-- A past is not seen. -/
theorem Packer.sameStream_withPast (p : Packer) (past past' : Packer.Past) :
    SameStream (p.withPast past) (p.withPast past') :=
  ⟨rfl, rfl, rfl, rfl, rfl, rfl, fun _ _ => rfl⟩

namespace ObjectGraph

open Packer (SameStream)

/-- **Packers do not remember.**  Of two packers with the same settings, each may have done
anything before, as long as both are in the middle of the same objects (usually none).  An object
graph is packed into the same stream by both of them; and whatever data they unpack, the outcome
is the same, the graph is changed in the same way, and the same reports are added. -/
theorem runs_alike {p q : Packer} (hs : q.settings = p.settings) (hv : q.visits = p.visits)
    {g : ObjectGraph} {r : ObjectRef} {o : DataObject} (ho : g.object? r = some o) :
    (SameStream (g.pack r p) (g.pack r q) ∧
      ∃ reports, p.reporter.Adds (g.pack r p).reporter reports ∧
        q.reporter.Adds (g.pack r q).reporter reports) ∧
    ∀ data : StreamData,
      let (outcome, graph, p') := g.unpack r data.load p
      let (outcome', graph', q') := g.unpack r data.load q
      outcome' = outcome ∧ graph' = graph ∧ SameStream p' q' ∧
        ∃ reports, p.reporter.Adds p'.reporter reports ∧ q.reporter.Adds q'.reporter reports := by
  have hfresh : q.fresh = p.fresh := by
    rw [Packer.fresh, hs, hv, Packer.fresh]
  constructor
  · rw [pack_withPast p ho, pack_withPast q ho, hfresh]
    exact ⟨Packer.sameStream_withPast .., _, rfl, rfl⟩
  · intro data
    rw [unpack_withPast p data ho, unpack_withPast q data ho, hfresh]
    exact ⟨rfl, rfl, Packer.sameStream_withPast .., _, rfl, rfl⟩

/-- A ring of one object. -/
def smallRing : ObjectGraph where
  objects := #[⟨"a", .fielded 0 "A" none [⟨"number", .int 5 8 .hex, .always⟩,
    ⟨"self", .child (some 0), .always⟩]⟩]

/-- A new packer, and one that is full of ones after a longer stream and a misuse. -/
theorem runs_alike_stale :
    let p : Packer := {}
    let q : Packer := { (p.writeField 0xFFFF 16).commit with
      errors := [.nullObject], reporter := p.reporter.error "UNPOBJ" "cannot unpack" }
    q.store.get 12 = true ∧ (smallRing.pack 0 q).bytes = [0xA0] ∧
      SameStream (smallRing.pack 0 p) (smallRing.pack 0 q) ∧
      (smallRing.unpack 0 (StreamData.bytes [0x40]).load q).2.1 =
        (smallRing.unpack 0 (StreamData.bytes [0x40]).load p).2.1 := by
  intro p q
  obtain ⟨⟨hpack, -⟩, hunpack⟩ := runs_alike (p := p) (q := q) rfl rfl (g := smallRing) (r := 0) rfl
  exact ⟨by decide, by decide, hpack, (hunpack (.bytes [0x40])).2.1⟩

end ObjectGraph

end FieldAutomation
