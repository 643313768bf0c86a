import FieldAutomation.Proofs.Recording.Fields
import FieldAutomation.Proofs.Traversal.Recording

/-!
# What a recording lists

Recording an object tells its backend of the fields below it, depth first and in order, each under
the names of the fields on the way to it.  The listing of an object says so without a recorder: it
knows of no scope, no visit set and no handle table, only of the names and of the objects that it
is in the middle of.

* `qualified`: the name of a field below a path;
* `ObjectGraph.listing`: the listing of fields, with those of the objects that they refer to;
* `Scope.Stands`: a scope that stands at a path;
* `Recording.Told`: a recorder after it told of some attributes.

Main statement: `ObjectGraph.record_listing` (a recording tells of the listing, and of nothing
else).
-/

namespace FieldAutomation

open ObjectGraph (instanceId)

/-! ### Listings -/

/-- The name of a field below a path. -/
def qualified (path name : String) : String := if path = "" then name else path ++ "." ++ name

section Listing

variable (settings : RecorderSettings) (handle : Nat) (name : String)

/-- The attribute of a number.  A field that names no radix is shown in the default one. -/
def numberAttribute (v size : Nat) (radix : Radix) : Attribute :=
  let radix := if radix = .noRadix then settings.defaultRadix else radix
  ⟨handle, name, radix.render v size, radix, size, none⟩

/-- The attribute of a text, which may be of a declared type. -/
def textAttribute (text : String) (typeName : Option String) : Attribute :=
  ⟨handle, name, text, .string, text.utf8ByteSize * 8, typeName⟩

/-- The attributes of numbers, each with its index after the name, from `index` on. -/
def elementListing (size : Nat) (radix : Radix) (index : Nat) (values : List Nat) :
    List Attribute :=
  (values.zipIdx index).map fun (v, i) =>
    numberAttribute settings handle (name ++ Scope.element i) v size radix

/-- The attributes of a field that refers to no object. -/
def plainListing : FieldData → List Attribute
  | .int v size radix | .wide v size radix => [numberAttribute settings handle name v size radix]
  | .real x => [⟨handle, name, x.text, .real, 64, none⟩]
  | .str text _ => [textAttribute handle name text none]
  | .time t _ => [⟨handle, name, toString t, .time, 64, none⟩]
  | .array .bytes values _ _ => [textAttribute handle name (Hex.encode values) (some "bytes")]
  | .array .words values _ radix => elementListing settings handle name 32 radix 0 values
  | .elements values size radix => elementListing settings handle name size radix 0 values
  | .generic text typeName => [textAttribute handle name text (some typeName)]
  | .child _ | .probe => []

/-- The attribute of a reference, if references are listed: the instance id of the object, or 0. -/
def idListing (id : InstanceId) : List Attribute :=
  if settings.identifier then [numberAttribute settings handle name id 32 .dec] else []

/-- An attribute of a recorder: it carries the handle, and tells a radix if there is a default
one. -/
structure BelongsTo (a : Attribute) : Prop where
  handle : a.handle = handle
  radix : settings.defaultRadix ≠ .noRadix → a.radix ≠ .noRadix

theorem belongsTo_numberAttribute (v size : Nat) (radix : Radix) :
    BelongsTo settings handle (numberAttribute settings handle name v size radix) where
  handle := rfl
  radix := by
    intro hd
    dsimp only [numberAttribute]
    split
    · exact hd
    next hr => exact hr

theorem belongsTo_of_mem_plainListing (data : FieldData) :
    ∀ a ∈ plainListing settings handle name data, BelongsTo settings handle a := by
  have hone : ∀ a', BelongsTo settings handle a' → ∀ a ∈ [a'], BelongsTo settings handle a := by
    intro a' h a ha
    rwa [List.mem_singleton.1 ha]
  have helements : ∀ size radix index values,
      ∀ a ∈ elementListing settings handle name size radix index values,
        BelongsTo settings handle a := by
    intro size radix index values a ha
    obtain ⟨vi, -, rfl⟩ := List.mem_map.1 ha
    exact belongsTo_numberAttribute ..
  cases data with
  | int v size radix => exact hone _ (belongsTo_numberAttribute ..)
  | wide v size radix => exact hone _ (belongsTo_numberAttribute ..)
  | real x => exact hone _ ⟨rfl, fun _ => nofun⟩
  | str text length => exact hone _ ⟨rfl, fun _ => nofun⟩
  | time t radix => exact hone _ ⟨rfl, fun _ => nofun⟩
  | array kind values size radix =>
    cases kind with
    | bytes => exact hone _ ⟨rfl, fun _ => nofun⟩
    | words => exact helements 32 radix 0 values
  | elements values size radix => exact helements size radix 0 values
  | generic text typeName => exact hone _ ⟨rfl, fun _ => nofun⟩
  | child target => exact nofun
  | probe => exact nofun

theorem belongsTo_of_mem_idListing (id : InstanceId) :
    ∀ a ∈ idListing settings handle name id, BelongsTo settings handle a := by
  unfold idListing
  split
  · intro a ha
    rw [List.mem_singleton.1 ha]
    exact belongsTo_numberAttribute ..
  · exact nofun

end Listing

namespace ObjectGraph

/-- Going into one more object leaves fewer to go into. -/
theorem remaining_cons_lt {g : ObjectGraph} {active : List ObjectRef} {r : ObjectRef}
    (hr : r < g.size) (ha : r ∉ active) :
    g.remaining (fun q => decide (q ∈ r :: active)) < g.remaining fun q => decide (q ∈ active) := by
  refine remaining_lt (fun q hq => ?_) hr (decide_eq_false ha) (decide_eq_true List.mem_cons_self)
  exact decide_eq_true (List.mem_cons_of_mem r (of_decide_eq_true hq))

/-- The listing of fields below a path, while the objects in `active` are gone into.  Where a field
refers to an object, the listing of that object comes next, unless it is active. -/
def listing (g : ObjectGraph) (settings : RecorderSettings) (handle : Nat)
    (active : List ObjectRef) (path : String) : List Field → List Attribute
  | [] => []
  | f :: rest =>
    (if f.visibility.holds settings.physicalFields settings.abstractFields then
      match f.data with
      | .child target =>
        match _h : g.resolve target with
        | none => idListing settings handle (qualified path f.name) 0
        | some (r, o) =>
          idListing settings handle (qualified path f.name) (instanceId r) ++
            if _ha : settings.policy = .reference ∨ r ∈ active then []
            else listing g settings handle (r :: active) (qualified path f.name) o.fields
      | data => plainListing settings handle (qualified path f.name) data
    else []) ++ listing g settings handle active path rest
termination_by fields => (g.remaining fun r => decide (r ∈ active), fields.length)
decreasing_by
  · exact .left _ _ (remaining_cons_lt (lt_size_of_object? (resolve_eq_some.1 _h).2)
      fun hm => _ha (.inr hm))
  · exact .right _ (Nat.lt_succ_self _)

/-- The listing of a field that refers to an object, at its own path. -/
def childListing (g : ObjectGraph) (settings : RecorderSettings) (handle : Nat)
    (active : List ObjectRef) (path : String) (target : Option ObjectRef) : List Attribute :=
  match g.resolve target with
  | none => idListing settings handle path 0
  | some (r, o) =>
    idListing settings handle path (instanceId r) ++
      if settings.policy = .reference ∨ r ∈ active then []
      else g.listing settings handle (r :: active) path o.fields

/-- The listing of a field below a path. -/
def fieldListing (g : ObjectGraph) (settings : RecorderSettings) (handle : Nat)
    (active : List ObjectRef) (path : String) (f : Field) : List Attribute :=
  match f.data with
  | .child target => g.childListing settings handle active (qualified path f.name) target
  | data => plainListing settings handle (qualified path f.name) data

section Equations

variable (g : ObjectGraph) (settings : RecorderSettings) (handle : Nat) (active : List ObjectRef)
  (path : String)

theorem listing_nil : g.listing settings handle active path [] = [] := by rw [listing]

theorem listing_cons (f : Field) (rest : List Field) :
    g.listing settings handle active path (f :: rest) =
      (if f.visibility.holds settings.physicalFields settings.abstractFields then
        g.fieldListing settings handle active path f
      else []) ++ g.listing settings handle active path rest := by
  rw [listing, fieldListing]
  congr 2
  cases f.data with
  | child target =>
    simp only [childListing]
    split <;> simp_all
  | _ => rfl

theorem fieldListing_child {f : Field} {target : Option ObjectRef} (h : f.data = .child target) :
    g.fieldListing settings handle active path f =
      g.childListing settings handle active (qualified path f.name) target := by
  rw [fieldListing, h]

theorem fieldListing_plain {f : Field} (h : ∀ target, f.data ≠ .child target) :
    g.fieldListing settings handle active path f =
      plainListing settings handle (qualified path f.name) f.data := by
  unfold fieldListing
  split
  next target hd => exact absurd hd (h target)
  next => rfl

/-- What holds of the attributes of fields and references holds of all that are listed. -/
theorem forall_mem_listing {P : Attribute → Prop}
    (hplain : ∀ name data, ∀ a ∈ plainListing settings handle name data, P a)
    (hid : ∀ name id, ∀ a ∈ idListing settings handle name id, P a) (fields : List Field) :
    ∀ a ∈ g.listing settings handle active path fields, P a := by
  induction active, path, fields using listing.induct g settings with
  | case1 => simp [listing_nil]
  | case2 active path f rest ihchild ihrest =>
    intro a ha
    rw [listing_cons] at ha
    rcases List.mem_append.1 ha with ha | ha
    case inr => exact ihrest a ha
    split at ha
    case isFalse => cases ha
    by_cases hc : ∃ target, f.data = .child target
    case neg =>
      rw [fieldListing_plain _ _ _ _ _ fun target hd => hc ⟨target, hd⟩] at ha
      exact hplain _ _ a ha
    obtain ⟨target, hd⟩ := hc
    rw [fieldListing_child _ _ _ _ _ hd, childListing] at ha
    cases hres : g.resolve target with
    | none =>
      rw [hres] at ha
      exact hid _ _ a ha
    | some found =>
      rw [hres] at ha
      rcases List.mem_append.1 ha with ha | ha
      · exact hid _ _ a ha
      · split at ha
        · cases ha
        next hgo => exact ihchild target found.1 found.2 hres hgo a ha

end Equations

/-- Fields are recorded under names that say nothing of levels. -/
def PlainFieldNames (g : ObjectGraph) : Prop :=
  ∀ r o, g.object? r = some o → ∀ f ∈ o.fields, f.name ≠ "" ∧ Scope.isIndexed f.name = false

end ObjectGraph

/-! ### Paths -/

namespace Scope

variable {s : Scope} {path name : String} {index : Nat}

/-- A field that was at hand is forgotten. -/
theorem unsetPending_setPending (h : s.pending = "") (name : String) :
    (s.setPending name).unsetPending name = s := by
  obtain ⟨segments, pending⟩ := s
  obtain rfl : pending = "" := h
  by_cases hn : name = "" <;> simp [setPending, unsetPending, hn]

/-- A scope that stands at a path, with no field at hand. -/
structure Stands (s : Scope) (path : String) : Prop where
  pending : s.pending = ""
  join : join s.segments.reverse = path
  top : path = "" ↔ s.segments = []

namespace Stands

theorem empty : Stands {} "" := ⟨rfl, rfl, by simp⟩

/-- The path of a field at hand. -/
theorem path_setPending (h : Stands s path) (hn : name ≠ "") (he : isElement name = false) :
    (s.setPending name).path = qualified path name := by
  rw [setPending, if_neg hn, Scope.path, if_neg hn, h.join, qualified]
  by_cases hp : path = ""
  · rw [if_pos hp, if_pos (Or.inl hp), hp, String.empty_append]
  · rw [if_neg hp, if_neg (by simp [hp, he])]

/-- One level down. -/
theorem down (h : Stands s path) (hn : name ≠ "") (hi : isIndexed name = false) :
    Stands (s.down name) (qualified path name) where
  pending := rfl
  join := by
    rw [segments_down, List.reverse_cons, join_append, h.join, qualified, hi]
    by_cases hp : path = ""
    · rw [if_pos hp, if_pos (List.reverse_eq_nil_iff.2 (h.top.1 hp))]
    · rw [if_neg hp, if_neg (fun hs => hp (h.top.2 (List.reverse_eq_nil_iff.1 hs)))]
      simp [String.append_assoc]
  top := by
    unfold qualified
    split <;> simp [hn]

/-- Back up again. -/
theorem up_down (h : Stands s path) (hi : isIndexed name = false) : (s.down name).up = s := by
  rw [Scope.up_down s hi]
  obtain ⟨segments, pending⟩ := s
  obtain rfl : pending = "" := h.pending
  rfl

/-- The path of an element. -/
theorem path_downElement (h : Stands s path) (hp : path ≠ "") (index : Nat) :
    (s.downElement index).path = path ++ element index := by
  have hs : ¬s.segments.reverse = [] := fun hs => hp (h.top.2 (List.reverse_eq_nil_iff.1 hs))
  have hpending : (s.downElement index).pending = "" := rfl
  rw [Scope.path, if_pos hpending, downElement, segments_down, List.reverse_cons, join_append,
    if_neg hs, h.join, isIndexed_element, if_pos rfl]

theorem upElement_downElement (h : Stands s path) (index : Nat) :
    (s.downElement index).upElement = s := by
  obtain ⟨segments, pending⟩ := s
  obtain rfl : pending = "" := h.pending
  simp [downElement, Scope.down, upElement, isElement_element]

end Stands

/-- Every path below another says something. -/
theorem qualified_ne_empty (path : String) (hn : name ≠ "") : qualified path name ≠ "" := by
  unfold qualified
  split <;> simp [hn]

theorem qualified_append (path name text : String) :
    qualified path (name ++ text) = qualified path name ++ text := by
  unfold qualified
  split <;> simp [String.append_assoc]

end Scope

/-! ### What a backend gets -/

namespace Media

/-- Delivers attributes to a backend, in order. -/
def deliverAll (m : Media) (b : Backend) (attrs : List Attribute) : Media :=
  attrs.foldl (fun m a => m.deliver b (.recorded a)) m

/-- The same was written to `m'` as to `m`. -/
structure SameOutput (m m' : Media) : Prop where
  delivered : m'.delivered = m.delivered
  transcript : m'.transcript = m.transcript

namespace SameOutput

variable {m m' m'' : Media}

theorem refl (m : Media) : SameOutput m m := ⟨rfl, rfl⟩

theorem trans (h : SameOutput m m') (h' : SameOutput m' m'') : SameOutput m m'' :=
  ⟨h'.delivered.trans h.delivered, h'.transcript.trans h.transcript⟩

theorem logEntry (m : Media) (e : LogEntry) : SameOutput m (m.logEntry e) := ⟨rfl, rfl⟩

theorem writeEvent (h : SameOutput m m') (e : TranscriptEvent) :
    SameOutput (m.writeEvent e) (m'.writeEvent e) := by
  unfold Media.writeEvent
  dsimp only
  rw [h.transcript]
  split <;> exact ⟨h.delivered, rfl⟩

/-- What is delivered to media does not depend on anything else in them. -/
theorem deliver (h : SameOutput m m') (b : Backend) (e : TraceEvent) :
    SameOutput (m.deliver b e) (m'.deliver b e) := by
  unfold Media.deliver
  split
  · exact ⟨by rw [h.delivered], h.transcript⟩
  · split
    · exact ⟨by rw [h.delivered], h.transcript⟩
    · exact h
  · exact h.writeEvent _

theorem deliverAll (h : SameOutput m m') (b : Backend) (attrs : List Attribute) :
    SameOutput (m.deliverAll b attrs) (m'.deliverAll b attrs) := by
  induction attrs generalizing m m' with
  | nil => exact h
  | cons a rest ih => exact ih (h.deliver b _)

end SameOutput

theorem deliverAll_append (m : Media) (b : Backend) (attrs attrs' : List Attribute) :
    m.deliverAll b (attrs ++ attrs') = (m.deliverAll b attrs).deliverAll b attrs' :=
  List.foldl_append

/-- A numbered trace in memory gets the attributes that are delivered to it. -/
theorem trace_deliverAll (m : Media) (b : Backend) (attrs : List Attribute) (n : Nat) :
    (m.deliverAll b attrs).trace n =
      m.trace n ++ if b = .memory n then attrs.map .recorded else [] := by
  induction attrs generalizing m with
  | nil => simp [deliverAll]
  | cons a rest ih =>
    have hstep : m.deliverAll b (a :: rest) = (m.deliver b (.recorded a)).deliverAll b rest := rfl
    rw [hstep, ih, trace_deliver, List.append_assoc]
    split <;> rfl

theorem sameOutput_acquireHandle (m : Media) (r : Recorder) :
    SameOutput m (m.acquireHandle r).2 := by
  unfold acquireHandle
  split <;> exact ⟨rfl, rfl⟩

/-- The handle of a recorder is found in the table of handles. -/
theorem handleOf_eq {m m' : Media} (h : m'.handles = m.handles) (r : Recorder) :
    m'.handleOf r = m.handleOf r := by
  unfold handleOf acquireHandle
  rw [h]
  split <;> rfl

/-- Asking for a handle once more gives the same one. -/
theorem handleOf_acquireHandle (m : Media) (r : Recorder) :
    (m.acquireHandle r).2.handleOf r = m.handleOf r := by
  have hacquire : ∀ t : HandleTable,
      ((t.acquire r.serial r.name r.typeName r.openTime).2.acquire r.serial r.name r.typeName
        r.openTime).1 = (t.acquire r.serial r.name r.typeName r.openTime).1 := by
    intro t
    have h := HandleTable.handle?_acquire_self r.serial r.name r.typeName r.openTime (t := t)
    generalize t.acquire r.serial r.name r.typeName r.openTime = a at h ⊢
    simp only [HandleTable.acquire, HandleTable.assign, h]
  unfold handleOf acquireHandle
  cases r.state with
  | freed => rfl
  | opened => exact hacquire m.handles
  | closed => exact hacquire m.handles

end Media

namespace Recording

variable {b : Backend} {s t u : Recording} {attrs attrs' : List Attribute}

/-- `t` is `s` after it told its backend of some attributes. -/
structure Told (b : Backend) (s t : Recording) (attrs : List Attribute) : Prop where
  recorder : t.recorder =
    { s.recorder with reporter := t.recorder.reporter, notes := t.recorder.notes }
  output : (s.media.deliverAll b attrs).SameOutput t.media
  handle : t.handle = s.handle

namespace Told

theorem refl (s : Recording) : Told b s s [] := ⟨rfl, .refl _, rfl⟩

theorem trans (h : Told b s t attrs) (h' : Told b t u attrs') : Told b s u (attrs ++ attrs') where
  recorder := by rw [h'.recorder, h.recorder]
  output := by
    rw [Media.deliverAll_append]
    exact (h.output.deliverAll b attrs').trans h'.output
  handle := h'.handle.trans h.handle

/-- What is told of on another level is told of by and large, once the recorder is back. -/
theorem within {s' : Recording} (h : Told b s' t attrs) (hm : s'.media = s.media)
    (hh : s'.handle = s.handle) (hm' : u.media = t.media) (hh' : u.handle = t.handle)
    (hr : u.recorder =
      { s.recorder with reporter := u.recorder.reporter, notes := u.recorder.notes }) :
    Told b s u attrs where
  recorder := hr
  output := by
    rw [← hm, hm']
    exact h.output
  handle := (hh'.trans h.handle).trans hh

/-- What is told of between a step of the path and a step back. -/
theorem moved {m m' : Scope.Move} (h : Told b (s.moveScope m) t attrs)
    (hback : (s.recorder.scope.move m).move m' = s.recorder.scope) :
    Told b s (t.moveScope m') attrs := by
  refine h.within rfl rfl rfl rfl ?_
  have hscope : t.recorder.scope = s.recorder.scope.move m := by
    rw [h.recorder]
    rfl
  simp only [moveScope, hscope, hback]
  rw [h.recorder]
  rfl

end Told

/-- Recording an attribute delivers it, and leaves the recorder as it is. -/
theorem emit_eq (hb : s.recorder.backend = some b) (hp : s.recorder.scope.pending = "")
    (name value : String) (radix : Radix) (bits : Nat) (typeName : Option String) :
    s.emit name value radix bits typeName =
      ⟨s.recorder, (s.media.acquireHandle s.recorder).2.deliver b (.recorded
        ⟨s.handle, (s.recorder.scope.setPending name).path, value, radix, bits, typeName⟩)⟩ := by
  have hr : s.acquireHandle.2.recorder = s.recorder := rfl
  simp only [emit, hb, deliver, hr, Scope.unsetPending_setPending hp]
  rw [← hb]
  rfl

theorem told_emit (hb : s.recorder.backend = some b) (hp : s.recorder.scope.pending = "")
    (name value : String) (radix : Radix) (bits : Nat) (typeName : Option String) :
    Told b s (s.emit name value radix bits typeName)
      [⟨s.handle, (s.recorder.scope.setPending name).path, value, radix, bits, typeName⟩] := by
  rw [emit_eq hb hp]
  exact {
    recorder := rfl
    output := (Media.sameOutput_acquireHandle ..).deliver b _
    handle := by
      rw [handle, Media.handleOf_eq (Media.handles_deliver ..), Media.handleOf_acquireHandle]
      rfl }

/-- A recorder in use with its settings and handle, which has got to a path and is in the middle of
some objects, the last one first. -/
structure Standing (b : Backend) (settings : RecorderSettings) (handle : Nat)
    (active : List ObjectRef) (path : String) (s : Recording) : Prop where
  backend : s.recorder.backend = some b
  settings : s.recorder.settings = settings
  handle : s.handle = handle
  visits : s.recorder.visits = ⟨active.map instanceId⟩
  scope : s.recorder.scope.Stands path

section Standing

variable {settings : RecorderSettings} {handle : Nat} {active : List ObjectRef}
  {path name : String}

/-- Telling of attributes leads nowhere else. -/
theorem Standing.told (hs : Standing b settings handle active path s) (h : Told b s t attrs) :
    Standing b settings handle active path t where
  backend := by rw [h.recorder, ← hs.backend]
  settings := by rw [h.recorder, ← hs.settings]
  handle := h.handle.trans hs.handle
  visits := by rw [h.recorder, ← hs.visits]
  scope := by
    rw [h.recorder]
    exact hs.scope

/-- Attributes are told of at the path of a field. -/
theorem Standing.told_emit (hs : Standing b settings handle active path s) (hn : name ≠ "")
    (he : Scope.isElement name = false) (value : String) (radix : Radix) (bits : Nat)
    (typeName : Option String) :
    Told b s (s.emit name value radix bits typeName)
      [⟨handle, qualified path name, value, radix, bits, typeName⟩] := by
  rw [← hs.scope.path_setPending hn he, ← hs.handle]
  exact Recording.told_emit hs.backend hs.scope.pending ..

theorem Standing.told_recordNumber (hs : Standing b settings handle active path s)
    (hn : name ≠ "") (he : Scope.isElement name = false) (v size : Nat) (radix : Radix) :
    Told b s (s.recordNumber name v size radix)
      [numberAttribute settings handle (qualified path name) v size radix] := by
  rw [← hs.settings]
  exact hs.told_emit hn he ..

/-- Words are told of one by one, each with its index after the name. -/
theorem Standing.told_recordWords (hs : Standing b settings handle active path s) (hn : name ≠ "")
    (hi : Scope.isIndexed name = false) (radix : Radix) (index : Nat) (values : List Nat) :
    Told b s (recordWords name radix index values s)
      (elementListing settings handle (qualified path name) 32 radix index values) := by
  induction values generalizing index s with
  | nil => exact .refl s
  | cons v rest ih =>
    have hne : name ++ Scope.element index ≠ "" := by simp [hn]
    have hv := hs.told_recordNumber hne (Scope.isElement_append hn hi _) v 32 radix
    rw [Scope.qualified_append] at hv
    exact hv.trans (ih (hs.told hv) (index + 1))

/-- A number is told of at the level of its index. -/
theorem Standing.told_element (hs : Standing b settings handle active path s) (hp : path ≠ "")
    (v size : Nat) (radix : Radix) (index : Nat) :
    Told b s
      (((s.moveScope (.downElement index)).recordNumber "" v size radix).moveScope .upElement)
      [numberAttribute settings handle (path ++ Scope.element index) v size radix] := by
  have hpath : ((s.recorder.scope.downElement index).setPending "").path =
      path ++ Scope.element index := hs.scope.path_downElement hp index
  have hv := Recording.told_emit (s := s.moveScope (.downElement index)) hs.backend rfl ""
    ((s.resolve radix).render v size) (s.resolve radix) size none
  have hattr : Attribute.mk s.handle (((s.recorder.scope.downElement index).setPending "").path)
      ((s.resolve radix).render v size) (s.resolve radix) size none =
      numberAttribute settings handle (path ++ Scope.element index) v size radix := by
    rw [hpath, ← hs.settings, ← hs.handle]
    rfl
  rw [← hattr]
  exact hv.moved (hs.scope.upElement_downElement index)

/-- Elements are told of one by one, each at the level of its index. -/
theorem Standing.told_recordElements (hs : Standing b settings handle active path s)
    (hp : path ≠ "") (size : Nat) (radix : Radix) (index : Nat) (values : List Nat) :
    Told b s (recordElements size radix index values s)
      (elementListing settings handle path size radix index values) := by
  induction values generalizing index s with
  | nil => exact .refl s
  | cons v rest ih =>
    have hv := hs.told_element hp v size radix index
    exact hv.trans (ih (hs.told hv) (index + 1))

theorem Standing.down (hs : Standing b settings handle active path s) (hn : name ≠ "")
    (hi : Scope.isIndexed name = false) :
    Standing b settings handle active (qualified path name) (s.moveScope (.down name)) :=
  ⟨hs.backend, hs.settings, hs.handle, hs.visits, hs.scope.down hn hi⟩

/-! ### Fields -/

/-- A field that refers to no object is told of as its listing says. -/
theorem Standing.exists_recordField_plain (hs : Standing b settings handle active path s)
    {f : Field} (hn : f.name ≠ "") (hi : Scope.isIndexed f.name = false)
    (hincl : s.includes f = true) (hd : ∀ target, f.data ≠ .child target)
    (sub : String → Option ObjectRef → Recording → Option Recording) :
    ∃ t, recordField sub f s = some t ∧
      Told b s t (plainListing settings handle (qualified path f.name) f.data) := by
  have he := Scope.isElement_of_not_isIndexed hn hi
  unfold recordField
  rw [if_pos hincl]
  cases hdata : f.data with
  | int v size radix => exact ⟨_, rfl, hs.told_recordNumber hn he v size radix⟩
  | wide v size radix => exact ⟨_, rfl, hs.told_recordNumber hn he v size radix⟩
  | real x => exact ⟨_, rfl, hs.told_emit hn he ..⟩
  | str text length => exact ⟨_, rfl, hs.told_emit hn he ..⟩
  | time t radix => exact ⟨_, rfl, hs.told_emit hn he ..⟩
  | array kind values size radix =>
    cases kind with
    | bytes => exact ⟨_, rfl, hs.told_emit hn he ..⟩
    | words => exact ⟨_, rfl, hs.told_recordWords hn hi radix 0 values⟩
  | elements values size radix =>
    have hv := (hs.down hn hi).told_recordElements (Scope.qualified_ne_empty path hn) size radix 0
      values
    exact ⟨_, rfl, hv.moved (hs.scope.up_down hi)⟩
  | generic text typeName => exact ⟨_, rfl, hs.told_emit hn he ..⟩
  | child target => exact absurd hdata (hd target)
  | probe => exact ⟨_, rfl, rfl, .refl _, rfl⟩

section Objects

variable {g : ObjectGraph}

/-- A field is told of as its listing says if the object that it refers to is. -/
theorem Standing.exists_recordField
    {sub : String → Option ObjectRef → Recording → Option Recording}
    (hsub : ∀ {s name} target, Standing b settings handle active path s → name ≠ "" →
      Scope.isIndexed name = false → ∃ t, sub name target s = some t ∧
        Told b s t (g.childListing settings handle active (qualified path name) target))
    {f : Field} (hn : f.name ≠ "") (hi : Scope.isIndexed f.name = false)
    (hs : Standing b settings handle active path s) :
    ∃ t, recordField sub f s = some t ∧ Told b s t
      (if f.visibility.holds settings.physicalFields settings.abstractFields then
        g.fieldListing settings handle active path f
      else []) := by
  have hvis : f.visibility.holds settings.physicalFields settings.abstractFields =
      s.includes f := by
    rw [includes, hs.settings]
  rw [hvis]
  by_cases hincl : s.includes f = true
  · rw [if_pos hincl]
    by_cases hc : ∃ target, f.data = .child target
    · obtain ⟨target, hd⟩ := hc
      rw [g.fieldListing_child settings handle active path hd]
      have hfield : recordField sub f s = sub f.name target s := by
        simp only [recordField, if_pos hincl, hd]
      rw [hfield]
      exact hsub target hs hn hi
    · have hd : ∀ target, f.data ≠ .child target := fun target hd => hc ⟨target, hd⟩
      rw [g.fieldListing_plain settings handle active path hd]
      exact hs.exists_recordField_plain hn hi hincl hd sub
  · rw [if_neg hincl]
    exact ⟨s, by rw [recordField, if_neg hincl], .refl s⟩

/-- Fields are told of as their listing says if the objects that they refer to are. -/
theorem Standing.exists_recordFields
    {sub : String → Option ObjectRef → Recording → Option Recording}
    (hsub : ∀ {s name} target, Standing b settings handle active path s → name ≠ "" →
      Scope.isIndexed name = false → ∃ t, sub name target s = some t ∧
        Told b s t (g.childListing settings handle active (qualified path name) target))
    {fields : List Field} (hf : ∀ f ∈ fields, f.name ≠ "" ∧ Scope.isIndexed f.name = false)
    (hs : Standing b settings handle active path s) :
    ∃ t, recordFields sub fields s = some t ∧
      Told b s t (g.listing settings handle active path fields) := by
  induction fields generalizing s with
  | nil => exact ⟨s, rfl, by rw [ObjectGraph.listing_nil]; exact .refl s⟩
  | cons f rest ih =>
    obtain ⟨hn, hi⟩ := hf f List.mem_cons_self
    obtain ⟨t, ht, htold⟩ := hs.exists_recordField hsub hn hi
    obtain ⟨u, hu, hutold⟩ := ih (fun f hm => hf f (List.mem_cons_of_mem _ hm)) (hs.told htold)
    rw [recordFields_cons, ObjectGraph.listing_cons]
    exact ⟨u, by rw [ht, Option.bind_some, hu], htold.trans hutold⟩

/-- The instance id comes first, if it is recorded. -/
theorem Standing.told_recordId (hs : Standing b settings handle active path s) (hn : name ≠ "")
    (hi : Scope.isIndexed name = false) (target : Option ObjectRef) :
    Told b s (recordId g name target s)
      (idListing settings handle (qualified path name)
        ((g.resolve target).elim 0 fun found => instanceId found.1)) := by
  rw [recordId, idListing, hs.settings]
  split
  · exact hs.told_recordNumber hn (Scope.isElement_of_not_isIndexed hn hi) ..
  · exact .refl s

theorem told_report (s : Recording) (r : Report) : Told b s (s.report r) [] := by
  unfold report
  refine ⟨rfl, ?_, ?_⟩
  · dsimp only
    split
    · exact .logEntry ..
    · exact .refl _
  · refine Media.handleOf_eq ?_ _
    split <;> rfl

/-- The objects that are refused are those that are gone into. -/
theorem Standing.enter?_eq_none_iff (hs : Standing b settings handle active path s)
    (r : ObjectRef) : s.recorder.visits.enter? (instanceId r) = none ↔ r ∈ active := by
  rw [VisitSet.enter?_eq_none_iff, hs.visits, VisitSet.contains, List.contains_iff_mem]
  exact List.mem_map_of_injective fun _ _ h => ObjectGraph.instanceId_injective h

/-- Where the hook of an object that was entered starts. -/
theorem Standing.start_recordDescent (hs : Standing b settings handle active path s)
    (hn : name ≠ "") (hi : Scope.isIndexed name = false) {r : ObjectRef} (o : DataObject)
    {visits : VisitSet} (he : s.recorder.visits.enter? (instanceId r) = some visits) :
    Standing b settings handle (r :: active) (qualified path name)
      (recordDescent name r o visits s).start where
  backend := hs.backend
  settings := hs.settings
  handle := hs.handle
  visits := by
    have hv := VisitSet.enter?_eq_some he
    rw [hs.visits] at hv
    exact hv
  scope := hs.scope.down hn hi

/-- What is told of while an object is visited is told of, and the object is left. -/
theorem Standing.leave_recordDescent (hs : Standing b settings handle active path s)
    (hi : Scope.isIndexed name = false) {r : ObjectRef} (o : DataObject) {visits : VisitSet}
    (he : s.recorder.visits.enter? (instanceId r) = some visits)
    (h : Told b (recordDescent name r o visits s).start t attrs) :
    Told b s ((recordDescent name r o visits s).leave t) attrs := by
  refine h.within rfl rfl rfl rfl ?_
  have hscope : t.recorder.scope.up = s.recorder.scope := by
    rw [h.recorder]
    exact hs.scope.up_down hi
  have hdepth : t.recorder.depth - 1 = s.recorder.depth := by
    rw [h.recorder]
    exact Nat.add_sub_cancel ..
  have hvisits : t.recorder.visits.leave (instanceId r) = s.recorder.visits := by
    rw [h.recorder]
    exact VisitSet.leave_of_enter? he
  simp only [recordDescent, shallower, moveScope, Scope.move, hscope, hdepth, hvisits]
  rw [h.recorder]
  rfl

/-- An object that is referred to is told of as its listing says. -/
theorem Standing.exists_recordObject (hg : g.PlainFieldNames) (fuel : Nat)
    (hf : g.remaining (fun r => decide (r ∈ active)) < fuel)
    (hs : Standing b settings handle active path s) (hn : name ≠ "")
    (hi : Scope.isIndexed name = false) (target : Option ObjectRef) :
    ∃ t, recordObject g fuel name target s = some t ∧
      Told b s t (g.childListing settings handle active (qualified path name) target) := by
  induction fuel generalizing active path name s target with
  | zero => omega
  | succ fuel ih =>
    have hb : s.recorder.backend ≠ none := by
      rw [hs.backend]
      simp
    have hid := hs.told_recordId (g := g) hn hi target
    have hu := hs.told hid
    rw [ObjectGraph.childListing]
    cases hres : g.resolve target with
    | none =>
      rw [hres] at hid
      exact ⟨_, recordObject_of_null hb hres, hid⟩
    | some found =>
      obtain ⟨r, o⟩ := found
      rw [hres] at hid
      dsimp only at hid ⊢
      have hsettings := hu.settings
      by_cases hp : settings.policy = .reference
      · rw [if_pos (Or.inl hp), List.append_nil]
        exact ⟨_, recordObject_of_reference hb hres (by rw [hsettings, hp]), hid⟩
      have hp' : (recordId g name target s).recorder.settings.policy ≠ .reference := by
        rw [hsettings]
        exact hp
      cases he : (recordId g name target s).recorder.visits.enter? (instanceId r) with
      | none =>
        rw [if_pos (Or.inr ((hu.enter?_eq_none_iff r).1 he))]
        exact ⟨_, recordObject_of_refused hb hres hp' he, hid.trans (told_report ..)⟩
      | some visits =>
        -- one object more is gone into, so that fewer are left
        have hr : r ∉ active := by
          rw [← hu.enter?_eq_none_iff r, he]
          simp
        have ho := (ObjectGraph.resolve_eq_some.1 hres).2
        have hlt := ObjectGraph.remaining_cons_lt (ObjectGraph.lt_size_of_object? ho) hr
        have hlt' := Nat.lt_of_lt_of_le hlt (Nat.le_of_lt_succ hf)
        obtain ⟨v, hv, htold⟩ := Standing.exists_recordFields
          (fun target hs hn hi => ih hlt' hs hn hi target)
          (hg r o ho) (hu.start_recordDescent hn hi o he)
        rw [if_neg (by simp [hp, hr])]
        refine ⟨_, ?_, hid.trans (hu.leave_recordDescent hi o he htold)⟩
        rw [recordObject_of_entered hb hres hp' he]
        exact congrArg (Option.map _) hv

end Objects

end Standing

end Recording

namespace ObjectGraph

/-- **A recording lists the graph.**  A recorder that is in use, on no path and in the middle of no
object, tells its backend of the attributes of the listing, in order, and of nothing else.  Each of
them carries the handle of the recorder, and a radix if there is a default one.  Of the recorder
nothing changes but its reports and the notes of probes: it is on no path again, and in the middle
of no object. -/
theorem record_listing {g : ObjectGraph} (hg : g.PlainFieldNames) {root : ObjectRef}
    {o : DataObject} (ho : g.object? root = some o) {s : Recording} {b : Backend}
    (hb : s.recorder.backend = some b) (hscope : s.recorder.scope = {})
    (hvisits : s.recorder.visits = {}) :
    let t := g.record root s
    let attrs := g.listing s.recorder.settings s.handle [] "" o.fields
    (s.media.deliverAll b attrs).SameOutput t.media ∧
      (∀ n, t.media.trace n =
        s.media.trace n ++ if b = .memory n then attrs.map .recorded else []) ∧
      (∀ a ∈ attrs, BelongsTo s.recorder.settings s.handle a) ∧ t.handle = s.handle ∧
      t.recorder =
        { s.recorder with reporter := t.recorder.reporter, notes := t.recorder.notes } := by
  intro t attrs
  have hs : Recording.Standing b s.recorder.settings s.handle [] "" s.deeper :=
    ⟨hb, rfl, rfl, hvisits, by
      have hd : s.deeper.recorder.scope = {} := hscope
      rw [hd]
      exact .empty⟩
  obtain ⟨u, hu, hutold⟩ := hs.exists_recordFields
    (fun target hs hn hi => hs.exists_recordObject hg g.recordBound
      (Nat.lt_succ_of_le (g.remaining_le_size _)) hn hi target) (hg root o ho)
  have ht : t = u.shallower := by
    have hbody : Recording.recordBody (Recording.recordObject g g.recordBound) o s =
        some u.shallower := by
      rw [Recording.recordBody_eq, hu, Option.map_some]
    simp only [t, record, ho, hbody, Option.getD_some]
  have htold : Recording.Told b s t attrs := by
    rw [ht]
    refine hutold.within rfl rfl rfl rfl ?_
    have hdepth : u.recorder.depth - 1 = s.recorder.depth := by
      rw [hutold.recorder]
      exact Nat.add_sub_cancel ..
    simp only [Recording.shallower, hdepth]
    rw [hutold.recorder]
    rfl
  refine ⟨htold.output, fun n => ?_, ?_, htold.handle, htold.recorder⟩
  · rw [Media.trace, htold.output.delivered, ← Media.trace, Media.trace_deliverAll]
  · exact g.forall_mem_listing _ _ _ _ (belongsTo_of_mem_plainListing _ _)
      (belongsTo_of_mem_idListing _ _) o.fields

/-- Two objects that refer to each other. -/
def pair : ObjectGraph where
  objects := #[⟨"a", .fielded 0 "A" none [⟨"next", .child (some 1), .always⟩]⟩,
    ⟨"b", .fielded 1 "B" none [⟨"bytes", .elements [1, 2] 8 .noRadix, .always⟩,
      ⟨"back", .child (some 0), .always⟩]⟩]

/-- A recorder that was opened on a trace in memory. -/
def openedRecording : Recording :=
  (Recording.openOn (Media.newRecorder {} "r" {} .medium) (some (.memory 7)) 5 "tx").2

/-- The root is recorded once more, and there the ring closes. -/
theorem record_listing_pair :
    openedRecording.recorder.state = .opened ∧ openedRecording.handle = 1 ∧
      ((pair.record 0 openedRecording).media.attributes 7).map (·.name) =
        ["next", "next.bytes[0]", "next.bytes[1]", "next.back", "next.back.next"] ∧
      (pair.record 0 openedRecording).media.trace 7 =
        openedRecording.media.trace 7 ++ (pair.listing {} 1 [] ""
          [⟨"next", .child (some 1), .always⟩]).map .recorded := by
  have hplain : pair.PlainFieldNames := forall_object?_iff.2 (by decide)
  have h := record_listing hplain (show pair.object? 0 = some _ from rfl) (s := openedRecording)
    rfl rfl rfl
  exact ⟨rfl, rfl, by decide, h.2.1 7⟩

end ObjectGraph

end FieldAutomation
