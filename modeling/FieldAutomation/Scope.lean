/-!
# Scope paths

A traversal names the place it has reached by a path such as `top.child[3].field`: segments
joined by dots, where a segment that opens with a bracket attaches directly.  `Scope` holds the
segments on the way down and a pending name, the field at hand.

* `Scope.down`, `Scope.downElement`, `Scope.up`, `Scope.upElement`: moving between levels;
* `Scope.setPending`, `Scope.setPendingElement`, `Scope.unsetPending`: the field at hand;
* `Scope.Move`, `Scope.move`: any of these as a value;
* `Scope.path`: the text.

Leaving a level removes the index segments on top and the one plain segment below them, so
`up` undoes `down` when the name is a plain one (`Scope.up_down`).
-/

namespace FieldAutomation

/-- The place a traversal has reached. -/
structure Scope where
  /-- Segments, innermost first. -/
  segments : List String := []
  /-- Name of the field at hand; empty when there is none. -/
  pending : String := ""
  deriving DecidableEq, Repr, Inhabited

namespace Scope

/-- A segment that opens with a bracket of any kind attaches to the one before it. -/
def isIndexed (segment : String) : Bool :=
  match segment.toList with
  | c :: _ => c == '[' || c == '(' || c == '\x7b'
  | [] => false

/-- A segment that opens with a square bracket is the index of an element. -/
def isElement (segment : String) : Bool :=
  match segment.toList with
  | c :: _ => c == '['
  | [] => false

/-- The segment of the element at `index`. -/
def element (index : Nat) : String := "[" ++ toString index ++ "]"

/-- The number of segments. -/
def depth (s : Scope) : Nat := s.segments.length

/-! ### The text of a path -/

/-- Segments, outermost first, each attached to the text before it. -/
def joinAfter : List String → String
  | [] => ""
  | segment :: rest => (if isIndexed segment then segment else "." ++ segment) ++ joinAfter rest

/-- The text of segments, outermost first. -/
def join : List String → String
  | [] => ""
  | segment :: rest => segment ++ joinAfter rest

/-- The text of the path, with the field at hand at its end. -/
def path (s : Scope) : String :=
  let base := join s.segments.reverse
  if s.pending = "" then base
  else if base = "" ∨ isElement s.pending then base ++ s.pending
  else base ++ "." ++ s.pending

/-! ### Moving -/

/-- Starts a path at `name`. -/
def start (_ : Scope) (name : String) : Scope := { segments := [name] }

/-- Enters the level `name`. -/
def down (s : Scope) (name : String) : Scope := { segments := name :: s.segments }

/-- Enters the element at `index`. -/
def downElement (s : Scope) (index : Nat) : Scope := s.down (element index)

/-- Leaves a level: the index segments on top, and one plain segment below them. -/
def up (s : Scope) : Scope := { segments := (s.segments.dropWhile isIndexed).tail }

/-- Leaves an element; any other level stays. -/
def upElement (s : Scope) : Scope :=
  match s.segments with
  | top :: rest => if isElement top then { s with segments := rest } else s
  | [] => s

/-- Names the field at hand; the empty name is ignored. -/
def setPending (s : Scope) (name : String) : Scope :=
  if name = "" then s else { s with pending := name }

/-- Names an element of an array field. -/
def setPendingElement (s : Scope) (name : String) (index : Nat) : Scope :=
  { s with pending := name ++ element index }

/-- Forgets the field at hand if it has this name. -/
def unsetPending (s : Scope) (name : String) : Scope :=
  if s.pending = name then { s with pending := "" } else s

/-- Back to no path at all. -/
def clear (_ : Scope) : Scope := {}

/-- A step of a traversal as far as its path is concerned. -/
inductive Move where
  | start (name : String)
  | down (name : String)
  | downElement (index : Nat)
  | up
  | upElement
  | setPending (name : String)
  | setPendingElement (name : String) (index : Nat)
  | unsetPending (name : String)
  | clear
  deriving DecidableEq, Repr

/-- The path after a step. -/
def move (s : Scope) : Move → Scope
  | .start name => s.start name
  | .down name => s.down name
  | .downElement index => s.downElement index
  | .up => s.up
  | .upElement => s.upElement
  | .setPending name => s.setPending name
  | .setPendingElement name index => s.setPendingElement name index
  | .unsetPending name => s.unsetPending name
  | .clear => s.clear

/-! ### Laws -/

@[simp] theorem segments_down (s : Scope) (name : String) :
    (s.down name).segments = name :: s.segments := rfl

@[simp] theorem pending_down (s : Scope) (name : String) : (s.down name).pending = "" := rfl

@[simp] theorem segments_up (s : Scope) :
    s.up.segments = (s.segments.dropWhile isIndexed).tail := rfl

@[simp] theorem pending_up (s : Scope) : s.up.pending = "" := rfl

@[simp] theorem segments_setPending (s : Scope) (name : String) :
    (s.setPending name).segments = s.segments := by
  unfold setPending
  split <;> rfl

@[simp] theorem segments_unsetPending (s : Scope) (name : String) :
    (s.unsetPending name).segments = s.segments := by
  unfold unsetPending
  split <;> rfl

theorem isIndexed_element (index : Nat) : isIndexed (element index) = true := by
  simp [isIndexed, element, String.toList_append]

theorem isElement_element (index : Nat) : isElement (element index) = true := by
  simp [isElement, element, String.toList_append]

/-- What does not open with a bracket is no index, whatever comes after it. -/
theorem isElement_append {name : String} (hn : name ≠ "") (hi : isIndexed name = false)
    (text : String) : isElement (name ++ text) = false := by
  unfold isIndexed at hi
  unfold isElement
  rw [String.toList_append]
  cases hl : name.toList with
  | nil => exact absurd (String.toList_eq_nil_iff.1 hl) hn
  | cons c rest => simp_all

theorem isElement_of_not_isIndexed {name : String} (hn : name ≠ "") (hi : isIndexed name = false) :
    isElement name = false := by
  simpa using isElement_append hn hi ""

theorem joinAfter_append (l : List String) (name : String) :
    joinAfter (l ++ [name]) =
      joinAfter l ++ if isIndexed name then name else "." ++ name := by
  induction l with
  | nil => simp [joinAfter]
  | cons a rest ih => simp [joinAfter, ih, String.append_assoc]

theorem join_append (l : List String) (name : String) :
    join (l ++ [name]) =
      if l = [] then name else join l ++ if isIndexed name then name else "." ++ name := by
  cases l with
  | nil => simp [join, joinAfter]
  | cons a rest => simp [join, joinAfter_append, String.append_assoc]

/-- Leaving a level just entered under a plain name restores the segments. -/
theorem up_down (s : Scope) {name : String} (h : isIndexed name = false) :
    (s.down name).up = { segments := s.segments } := by
  simp [down, up, h]

/-- Leaving an element just entered restores the segments. -/
theorem segments_upElement_downElement (s : Scope) (index : Nat) :
    (s.downElement index).upElement.segments = s.segments := by
  simp [downElement, down, upElement, isElement_element]

theorem depth_up_le (s : Scope) : s.up.depth ≤ s.depth := by
  have h := (List.dropWhile_sublist isIndexed (l := s.segments)).length_le
  simp only [depth, segments_up, List.length_tail]
  omega

end Scope

end FieldAutomation
