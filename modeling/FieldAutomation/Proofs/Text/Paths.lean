import FieldAutomation.Proofs.Comparing.Continuing
import FieldAutomation.Recording.Recorder
import Mathlib.Data.Set.List

/-!
# Paths tell places

The parts of a path are written without a break: a dot only before a name that comes after
something, an index in its brackets, and the field at hand by a rule of its own.  Still nothing is
lost.  As long as names hold none of the marks that separate parts, the text of a path tells every
name and every index on the way, so that different places never have the same path.

* `IsIdentifier`: a name without marks; `PathPart`: a name or an index;
* `Place`: where a traversal has got to, part by part; `Place.scope`: the scope there;
* `Scope.Spelled`: a scope whose segments are identifiers and indices;
* `Place.Step`: a step of a traversal under identifiers; `Place.after`: where steps lead to.

Main statements: `PathPart.join_text_inj` (a path can be taken apart in one way only),
`Place.path_scope` (the field at hand is written as one more level would be), `Place.scope_step`
(scopes go where places go) and `Place.paths_tell_places`.
-/

namespace FieldAutomation

/-! ### Parts of a path -/

/-- The characters that separate the parts of a path. -/
def pathMarks : List Char := ['.', '[', ']', '(', '\x7b']

/-- A name that says nothing of where a part of a path begins or ends. -/
structure IsIdentifier (text : String) : Prop where
  ne_empty : text ≠ ""
  plain : ∀ c ∈ text.toList, c ∉ pathMarks

instance (text : String) : Decidable (IsIdentifier text) :=
  decidable_of_iff (text ≠ "" ∧ text.toList.all (!pathMarks.contains ·) = true)
    ⟨fun h => ⟨h.1, by simpa using h.2⟩, fun h => ⟨h.ne_empty, by simpa using h.plain⟩⟩

/-- A name of a level or a field. -/
structure Identifier where
  text : String
  isIdentifier : IsIdentifier text
  deriving DecidableEq

/-- A part of a path. -/
inductive PathPart where
  | name (name : Identifier)
  | index (index : Nat)
  deriving DecidableEq

namespace IsIdentifier

variable {text : String}

theorem exists_toList_eq_cons (h : IsIdentifier text) :
    ∃ c rest, text.toList = c :: rest ∧ c ∉ pathMarks := by
  cases hlist : text.toList with
  | nil => exact absurd (String.toList_eq_nil_iff.1 hlist) h.ne_empty
  | cons c rest => exact ⟨c, rest, rfl, h.plain c (by simp [hlist])⟩

theorem isIndexed_eq_false (h : IsIdentifier text) : Scope.isIndexed text = false := by
  obtain ⟨c, rest, hlist, hc⟩ := h.exists_toList_eq_cons
  simp only [pathMarks, List.mem_cons, not_or] at hc
  simp [Scope.isIndexed, hlist, hc]

theorem isElement_append (h : IsIdentifier text) (more : String) :
    Scope.isElement (text ++ more) = false :=
  Scope.isElement_append h.ne_empty h.isIndexed_eq_false more

theorem isElement_eq_false (h : IsIdentifier text) : Scope.isElement text = false :=
  Scope.isElement_of_not_isIndexed h.ne_empty h.isIndexed_eq_false

end IsIdentifier

/-! ### Taking a path apart -/

/-- What can come after a text without marks: nothing, or something that begins with a mark. -/
def BeginsMarked (text : List Char) : Prop := ∀ c ∈ text.head?, c ∈ pathMarks

theorem beginsMarked_cons {c : Char} (h : c ∈ pathMarks) (rest : List Char) :
    BeginsMarked (c :: rest) := by
  simpa [BeginsMarked] using h

/-- A text without marks ends where the next mark is. -/
theorem append_inj_of_plain {a b r r' : List Char} (ha : ∀ c ∈ a, c ∉ pathMarks)
    (hb : ∀ c ∈ b, c ∉ pathMarks) (hr : BeginsMarked r) (hr' : BeginsMarked r')
    (h : a ++ r = b ++ r') : a = b ∧ r = r' := by
  induction a generalizing b with
  | nil =>
    cases b with
    | nil => exact ⟨rfl, h⟩
    | cons c b =>
      obtain rfl : r = c :: b ++ r' := h
      exact absurd (hr c (by simp)) (hb c (by simp))
  | cons c a ih =>
    cases b with
    | nil =>
      obtain rfl : c :: a ++ r = r' := h
      exact absurd (hr' c (by simp)) (ha c (by simp))
    | cons d b =>
      obtain ⟨rfl, hrest⟩ := List.cons.inj h
      obtain ⟨rfl, rfl⟩ := ih (fun e he => ha e (List.mem_cons_of_mem _ he))
        (fun e he => hb e (List.mem_cons_of_mem _ he)) hrest
      exact ⟨rfl, rfl⟩

/-- Digits are no marks. -/
theorem not_mem_pathMarks_of_mem_repr {c : Char} {i : Nat} (hc : c ∈ i.repr.toList) :
    c ∉ pathMarks := by
  rw [Nat.toList_repr] at hc
  have hdigit := Nat.isDigit_of_mem_toDigits (by decide) (by decide) hc
  have hall : pathMarks.all (fun c => !c.isDigit) = true := by decide
  intro hmem
  simpa [hdigit] using List.all_eq_true.1 hall c hmem

/-- A decimal tells its number. -/
theorem eq_of_toList_repr_eq {i j : Nat} (h : i.repr.toList = j.repr.toList) : i = j := by
  rw [Nat.toList_repr, Nat.toList_repr] at h
  have hvalue (n : Nat) := Nat.ofDigitChars_toDigits (n := n) (b := 10) (by decide) (by decide)
  rw [← hvalue i, h, hvalue j]

theorem toList_element (i : Nat) : (Scope.element i).toList = '[' :: (i.repr.toList ++ [']']) := by
  simp [Scope.element, Nat.toString_eq_repr]

namespace PathPart

/-- The text of a part. -/
def text : PathPart → String
  | name n => n.text
  | index i => Scope.element i

/-- Whether a part attaches to the one before it. -/
def isIndex : PathPart → Bool
  | name _ => false
  | index _ => true

/-- What a part adds to a path that has begun. -/
def onward : PathPart → List Char
  | name n => '.' :: n.text.toList
  | index i => (Scope.element i).toList

variable {p q : PathPart} {ps qs : List PathPart} {r r' : List Char}

theorem isIndexed_text (p : PathPart) : Scope.isIndexed p.text = p.isIndex := by
  cases p with
  | name n => exact n.isIdentifier.isIndexed_eq_false
  | index i => exact Scope.isIndexed_element i

theorem isElement_text (p : PathPart) : Scope.isElement p.text = p.isIndex := by
  cases p with
  | name n => exact n.isIdentifier.isElement_eq_false
  | index i => exact Scope.isElement_element i

theorem exists_text_eq {segment : String}
    (h : IsIdentifier segment ∨ ∃ index, segment = Scope.element index) :
    ∃ p : PathPart, p.text = segment := by
  obtain h | ⟨index, rfl⟩ := h
  · exact ⟨.name ⟨segment, h⟩, rfl⟩
  · exact ⟨.index index, rfl⟩

theorem text_ne_empty (p : PathPart) : p.text ≠ "" := by
  cases p with
  | name n => exact n.isIdentifier.ne_empty
  | index i => simp [text, Scope.element]

/-- A part at the front of a text can be told from what comes after it. -/
theorem text_append_inj (hr : BeginsMarked r) (hr' : BeginsMarked r')
    (h : p.text.toList ++ r = q.text.toList ++ r') : p = q ∧ r = r' := by
  -- an identifier does not open a bracket
  have hopen (n : Identifier) (i : Nat) (r r' : List Char) :
      n.text.toList ++ r ≠ (Scope.element i).toList ++ r' := by
    obtain ⟨c, rest, hn, hc⟩ := n.isIdentifier.exists_toList_eq_cons
    rw [hn, toList_element]
    intro heq
    exact hc ((List.cons.inj heq).1 ▸ by decide)
  match p, q with
  | name n, name m =>
    obtain ⟨htext, rfl⟩ := append_inj_of_plain n.isIdentifier.plain m.isIdentifier.plain hr hr' h
    obtain ⟨n, _⟩ := n
    obtain ⟨m, _⟩ := m
    obtain rfl : n = m := String.toList_inj.1 htext
    exact ⟨rfl, rfl⟩
  | name n, index j => exact absurd h (hopen n j r r')
  | index i, name m => exact absurd h.symm (hopen m i r' r)
  | index i, index j =>
    rw [text, text, toList_element, toList_element] at h
    simp only [List.cons_append, List.append_assoc, List.cons.injEq, true_and,
      List.nil_append] at h
    -- the digits end where the bracket is closed
    have hclose (rest : List Char) : BeginsMarked (']' :: rest) :=
      beginsMarked_cons (by decide) rest
    obtain ⟨hdigits, hrest⟩ := append_inj_of_plain
      (fun c => not_mem_pathMarks_of_mem_repr) (fun c => not_mem_pathMarks_of_mem_repr)
      (hclose r) (hclose r') h
    obtain rfl := eq_of_toList_repr_eq hdigits
    exact ⟨rfl, (List.cons.inj hrest).2⟩

/-- So can a part that comes after another. -/
theorem onward_append_inj (hr : BeginsMarked r) (hr' : BeginsMarked r')
    (h : p.onward ++ r = q.onward ++ r') : p = q ∧ r = r' := by
  match p, q with
  | name n, name m => exact text_append_inj hr hr' (List.cons.inj h).2
  | index i, index j => exact text_append_inj hr hr' h
  | name n, index j => simp [onward, toList_element] at h
  | index i, name m => simp [onward, toList_element] at h

theorem onward_ne_nil (p : PathPart) : p.onward ≠ [] := by
  cases p <;> simp [onward, toList_element]

theorem beginsMarked_flatMap_onward (ps : List PathPart) :
    BeginsMarked (ps.flatMap onward) := by
  match ps with
  | [] => exact nofun
  | name n :: rest => exact beginsMarked_cons (by decide) _
  | index i :: rest =>
    rw [List.flatMap_cons, onward, toList_element]
    exact beginsMarked_cons (by decide) _

theorem flatMap_onward_inj (h : ps.flatMap onward = qs.flatMap onward) : ps = qs := by
  induction ps generalizing qs with
  | nil =>
    cases qs with
    | nil => rfl
    | cons q qs => simp [onward_ne_nil] at h
  | cons p ps ih =>
    cases qs with
    | nil => simp [onward_ne_nil] at h
    | cons q qs =>
      obtain ⟨rfl, hrest⟩ := onward_append_inj (beginsMarked_flatMap_onward ps)
        (beginsMarked_flatMap_onward qs) h
      rw [ih hrest]

theorem toList_joinAfter_text (ps : List PathPart) :
    (Scope.joinAfter (ps.map text)).toList = ps.flatMap onward := by
  induction ps with
  | nil => rfl
  | cons p ps ih =>
    rw [List.map_cons, Scope.joinAfter, isIndexed_text, String.toList_append, ih, List.flatMap_cons]
    cases p <;> simp [text, onward, isIndex]

theorem join_text_eq_empty_iff : Scope.join (ps.map text) = "" ↔ ps = [] := by
  cases ps with
  | nil => simp [Scope.join]
  | cons p ps => simp [Scope.join, p.text_ne_empty]

/-- A path can be taken apart in one way only. -/
theorem join_text_inj (h : Scope.join (ps.map text) = Scope.join (qs.map text)) : ps = qs := by
  cases ps with
  | nil => exact (join_text_eq_empty_iff.1 h.symm).symm
  | cons p ps =>
    cases qs with
    | nil => exact join_text_eq_empty_iff.1 h
    | cons q qs =>
      have hchars := congrArg String.toList h
      simp only [List.map_cons, Scope.join, String.toList_append, toList_joinAfter_text] at hchars
      obtain ⟨rfl, hrest⟩ := text_append_inj (beginsMarked_flatMap_onward ps)
        (beginsMarked_flatMap_onward qs) hchars
      rw [flatMap_onward_inj hrest]

/-- One part more at the end of a path. -/
theorem join_text_append (front : List PathPart) (p : PathPart) :
    Scope.join ((front ++ [p]).map text) =
      if front = [] ∨ p.isIndex = true then Scope.join (front.map text) ++ p.text
      else Scope.join (front.map text) ++ "." ++ p.text := by
  rw [List.map_append, List.map_singleton, Scope.join_append, isIndexed_text]
  by_cases hfront : front = []
  · simp [hfront, Scope.join]
  · cases p.isIndex <;> simp [hfront, String.append_assoc]

end PathPart

/-! ### Places -/

/-- The field at hand: its name, the index of an element of it, both or neither. -/
structure FieldPart where
  name : Option Identifier := none
  index : Option Nat := none
  deriving DecidableEq

namespace FieldPart

/-- The field as parts of a path. -/
def parts (f : FieldPart) : List PathPart := f.name.toList.map .name ++ f.index.toList.map .index

/-- The text of the field. -/
def text (f : FieldPart) : String :=
  f.name.elim "" Identifier.text ++ f.index.elim "" Scope.element

@[simp] theorem text_empty : ({} : FieldPart).text = "" := rfl

theorem text_eq_empty_iff (f : FieldPart) : f.text = "" ↔ f = {} := by
  obtain ⟨name, index⟩ := f
  cases name <;> cases index <;> simp [text, (Identifier.isIdentifier _).ne_empty, Scope.element]

theorem exists_text_eq {pending : String} (h : pending = "" ∨ IsIdentifier pending ∨
    ∃ name index, (name = "" ∨ IsIdentifier name) ∧ pending = name ++ Scope.element index) :
    ∃ f : FieldPart, f.text = pending := by
  obtain rfl | h | ⟨name, index, rfl | h, rfl⟩ := h
  · exact ⟨{}, rfl⟩
  · exact ⟨⟨some ⟨pending, h⟩, none⟩, String.append_empty⟩
  · exact ⟨⟨none, some index⟩, rfl⟩
  · exact ⟨⟨some ⟨name, h⟩, some index⟩, rfl⟩

end FieldPart

/-- Where a traversal has got to. -/
structure Place where
  /-- Levels, innermost first. -/
  levels : List PathPart := []
  field : FieldPart := {}
  deriving DecidableEq

namespace Place

/-- The names and indices on the way, outermost first. -/
def parts (p : Place) : List PathPart := p.levels.reverse ++ p.field.parts

/-- The scope at a place. -/
def scope (p : Place) : Scope where
  segments := p.levels.map PathPart.text
  pending := p.field.text

/-- The field at hand is written as if it were a level of its own, or two. -/
theorem path_scope (p : Place) : p.scope.path = Scope.join (p.parts.map PathPart.text) := by
  obtain ⟨levels, name, index⟩ := p
  have hreverse : (levels.map PathPart.text).reverse = levels.reverse.map PathPart.text :=
    List.map_reverse.symm
  simp only [Scope.path, scope, parts, FieldPart.parts, FieldPart.text_eq_empty_iff, hreverse,
    PathPart.join_text_eq_empty_iff]
  generalize levels.reverse = front
  match name, index with
  | none, none => simp
  | none, some i =>
    have hindex := PathPart.join_text_append front (.index i)
    simpa [FieldPart.text, PathPart.text, PathPart.isIndex, Scope.isElement_element]
      using hindex.symm
  | some n, none =>
    have hname := PathPart.join_text_append front (.name n)
    simpa [FieldPart.text, PathPart.text, PathPart.isIndex, n.isIdentifier.isElement_eq_false]
      using hname.symm
  | some n, some i =>
    have hname := PathPart.join_text_append front (.name n)
    have hindex := PathPart.join_text_append (front ++ [.name n]) (.index i)
    rw [hname] at hindex
    by_cases hfront : front = [] <;>
      simpa [FieldPart.text, PathPart.text, PathPart.isIndex, n.isIdentifier.isElement_append,
        hfront, String.append_assoc] using hindex.symm

theorem path_eq_path_iff (p q : Place) : p.scope.path = q.scope.path ↔ p.parts = q.parts := by
  rw [path_scope, path_scope]
  exact ⟨PathPart.join_text_inj, fun h => by rw [h]⟩

end Place

/-- A scope of identifiers and indices, where the field at hand is named by an identifier or as an
element. -/
structure Scope.Spelled (s : Scope) : Prop where
  segments : ∀ segment ∈ s.segments, IsIdentifier segment ∨ ∃ index, segment = element index
  pending : s.pending = "" ∨ IsIdentifier s.pending ∨
    ∃ name index, (name = "" ∨ IsIdentifier name) ∧ s.pending = name ++ element index

namespace Place

/-- Spelled scopes are those of places. -/
theorem spelled_iff (s : Scope) : s.Spelled ↔ ∃ p : Place, p.scope = s := by
  constructor
  · rintro ⟨hsegments, hpending⟩
    obtain ⟨levels, hlevels⟩ : s.segments ∈ Set.range (List.map PathPart.text) := by
      rw [Set.range_list_map]
      exact fun segment hmem => PathPart.exists_text_eq (hsegments segment hmem)
    obtain ⟨field, hfield⟩ := FieldPart.exists_text_eq hpending
    refine ⟨⟨levels, field⟩, ?_⟩
    rw [scope, hlevels, hfield]
  · rintro ⟨⟨levels, name, index⟩, rfl⟩
    refine ⟨fun segment hmem => ?_, ?_⟩
    · obtain ⟨part, -, rfl⟩ := List.mem_map.1 hmem
      cases part with
      | name n => exact .inl n.isIdentifier
      | index i => exact .inr ⟨i, rfl⟩
    · match name, index with
      | none, none => exact .inl rfl
      | some n, none => exact .inr (.inl (by simpa [scope, FieldPart.text] using n.isIdentifier))
      | none, some i => exact .inr (.inr ⟨"", i, .inl rfl, rfl⟩)
      | some n, some i => exact .inr (.inr ⟨n.text, i, .inr n.isIdentifier, rfl⟩)

/-! ### Steps -/

/-- A step of a traversal under identifiers. -/
inductive Step where
  | start (name : Identifier)
  | down (name : Identifier)
  | downElement (index : Nat)
  | up
  | upElement
  | setPending (field : FieldPart)
  | setPendingElement (name : Option Identifier) (index : Nat)
  | unsetPending (name : String)
  | clear

/-- The step as scopes take it. -/
def Step.move : Step → Scope.Move
  | start name => .start name.text
  | down name => .down name.text
  | downElement index => .downElement index
  | up => .up
  | upElement => .upElement
  | setPending field => .setPending field.text
  | setPendingElement name index => .setPendingElement (name.elim "" Identifier.text) index
  | unsetPending name => .unsetPending name
  | clear => .clear

/-- A field at a place; a field without a name and an index is none. -/
def atField (p : Place) (f : FieldPart) : Place := if f = {} then p else { p with field := f }

/-- Where a step leads to.  Leaving a level goes back to before the last name, leaving an element
takes back an index only. -/
def step (p : Place) : Step → Place
  | .start name => { levels := [.name name] }
  | .down name => { levels := .name name :: p.levels }
  | .downElement index => { levels := .index index :: p.levels }
  | .up => { levels := (p.levels.dropWhile PathPart.isIndex).tail }
  | .upElement =>
    match p.levels with
    | .index _ :: rest => { p with levels := rest }
    | _ => p
  | .setPending field => p.atField field
  | .setPendingElement name index => { p with field := { name, index } }
  | .unsetPending name => if p.field.text = name then { p with field := {} } else p
  | .clear => {}

/-- Where steps lead to. -/
def after (steps : List Step) : Place := steps.foldl step {}

theorem scope_atField (p : Place) (f : FieldPart) :
    (p.atField f).scope = p.scope.setPending f.text := by
  simp only [atField, Scope.setPending, FieldPart.text_eq_empty_iff]
  split <;> rfl

/-- Scopes go where places go. -/
theorem scope_step (p : Place) (s : Step) : (p.step s).scope = p.scope.move s.move := by
  cases s with
  | start name => rfl
  | down name => rfl
  | downElement index => rfl
  | up =>
    have hindexed : Scope.isIndexed ∘ PathPart.text = PathPart.isIndex :=
      funext PathPart.isIndexed_text
    simp [step, Step.move, Scope.move, Scope.up, scope, List.dropWhile_map, hindexed]
  | upElement =>
    obtain ⟨levels, field⟩ := p
    cases levels with
    | nil => rfl
    | cons part rest =>
      cases part <;>
        simp [step, Step.move, Scope.move, Scope.upElement, scope, PathPart.isElement_text,
          PathPart.isIndex]
  | setPending field => exact p.scope_atField field
  | setPendingElement name index => rfl
  | unsetPending name =>
    by_cases hname : p.field.text = name <;>
      simp [step, Step.move, Scope.move, Scope.unsetPending, scope, hname]
  | clear => rfl

/-- A traversal under identifiers is always at a place. -/
theorem scope_after (steps : List Step) :
    (after steps).scope = (steps.map Step.move).foldl Scope.move {} := by
  have hrun (p : Place) :
      (steps.foldl step p).scope = (steps.map Step.move).foldl Scope.move p.scope := by
    induction steps generalizing p with
    | nil => rfl
    | cons s rest ih => rw [List.foldl_cons, ih, scope_step, List.map_cons, List.foldl_cons]
  exact hrun {}

end Place

/-! ### Names of miscompares and attributes -/

/-- A comparer that has got to a place. -/
def Comparer.standAt (c : Comparer) (p : Place) : Comparer := { c with scope := p.scope }

namespace Recording

/-- A recorder with a backend that has got to a place. -/
def standAt (s : Recording) (b : Backend) (p : Place) : Recording :=
  { s with recorder := { s.recorder with backend := some b, scope := p.scope } }

/-- `t` is `s` after it told a backend of one attribute. -/
def Tells (s : Recording) (b : Backend) (a : Attribute) (t : Recording) : Prop :=
  t.media = (s.media.acquireHandle s.recorder).2.deliver b (.recorded a)

end Recording

namespace Place

/-- A miscompare of a field is named by the place of the field. -/
theorem tallies_tallyField (p : Place) (f : FieldPart) (c : Comparer) (message : String) :
    c.Tallies [⟨(p.atField f).scope.path, message⟩]
      ((c.standAt p).tallyField f.text message) := by
  have h := Comparer.tallies_tallyField (c.standAt p) f.text message
  rw [scope_atField]
  exact ⟨h.result, h.text, h.kept⟩

/-- So is an attribute, whatever it tells of the field. -/
theorem tells_emit (p : Place) (f : FieldPart) (s : Recording) (b : Backend) (a : Attribute) :
    (s.standAt b p).Tells b
      { a with handle := (s.standAt b p).handle, name := (p.atField f).scope.path }
      ((s.standAt b p).emit f.text a.value a.radix a.bits a.typeName) := by
  rw [scope_atField]
  rfl

/-- **Paths tell places.**  The scopes of identifiers and indices are those of places, and steps
under identifiers lead from one to another.  Two of them have the same path if and only if the same
names and indices lead there, and so it is with the names of miscompares and of attributes. -/
theorem paths_tell_places :
    (∀ s : Scope, s.Spelled ↔ ∃ p : Place, p.scope = s) ∧
    (∀ steps : List Step, (after steps).scope = (steps.map Step.move).foldl Scope.move {}) ∧
    ∀ p q : Place,
      (p.scope.path = q.scope.path ↔ p.parts = q.parts) ∧
      (∀ (f g : FieldPart) (c d : Comparer) (message message' : String), ∃ x y : Miscompare,
        c.Tallies [x] ((c.standAt p).tallyField f.text message) ∧
        d.Tallies [y] ((d.standAt q).tallyField g.text message') ∧
        (x.path = y.path ↔ (p.atField f).parts = (q.atField g).parts)) ∧
      ∀ (f g : FieldPart) (s t : Recording) (b b' : Backend) (a a' : Attribute),
        ∃ x y : Attribute,
          (s.standAt b p).Tells b x
            ((s.standAt b p).emit f.text a.value a.radix a.bits a.typeName) ∧
          (t.standAt b' q).Tells b' y
            ((t.standAt b' q).emit g.text a'.value a'.radix a'.bits a'.typeName) ∧
          (x.name = y.name ↔ (p.atField f).parts = (q.atField g).parts) := by
  refine ⟨spelled_iff, scope_after, fun p q => ⟨path_eq_path_iff p q, ?_, ?_⟩⟩
  · intro f g c d message message'
    exact ⟨_, _, p.tallies_tallyField f c message, q.tallies_tallyField g d message',
      path_eq_path_iff _ _⟩
  · intro f g s t b b' a a'
    exact ⟨_, _, p.tells_emit f s b a, q.tells_emit g t b' a', path_eq_path_iff _ _⟩

/-- An element of a field at hand, and the element as a level of its own. -/
example :
    let top : Identifier := ⟨"top", by decide⟩
    let data : Identifier := ⟨"data", by decide⟩
    let p := after [.start top, .setPendingElement data 4]
    let q := after [.start top, .down data, .downElement 12, .upElement, .downElement 4]
    p.scope.path = "top.data[4]" ∧ p ≠ q ∧ p.parts = q.parts := by
  decide

end Place

end FieldAutomation
