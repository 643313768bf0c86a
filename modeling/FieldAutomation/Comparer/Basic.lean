import FieldAutomation.BitStore.Words
import FieldAutomation.DataObject
import FieldAutomation.Scope
import FieldAutomation.Settings

/-!
# The comparer

A comparer goes through two object graphs side by side.  It keeps every miscompare with the path
where it was found, reports the first few of them, and remembers which left object each right
object was paired with.

* `Comparer`: the state, with the tally and the text of the comparison at hand;
* `Comparer.tally`: keeps a miscompare at the current path;
* `Comparer.calls`, `Comparer.kept`: the compare hooks that were called and the miscompares that
  were kept, also by comparisons before the one at hand;
* `Comparer.compareNumber`, `compareReal`, `compareString`: fields without parts.  Numbers are
  compared as words (`compareWord`) or, if the field is wider, as they are (`compareWide`).

Main statements: `Comparer.compareNumber_eq` (numbers compare by their low bits, on either route),
`Comparer.result_tally` and `Comparer.text_tally`.
-/

namespace FieldAutomation

/-- A difference that was found. -/
structure Miscompare where
  path : String
  message : String
  deriving DecidableEq, Repr

namespace Miscompare

/-- The line of a miscompare in the text of a comparison. -/
def line (m : Miscompare) : String := m.path ++ ": " ++ m.message ++ "\n"

end Miscompare

/-- What a probe field notes about a comparer that passes it. -/
structure CompareNote where
  path : String
  result : Nat
  pairs : Nat
  deriving DecidableEq, Repr

/-- What happens while objects are compared. -/
inductive CompareEvent where
  /-- The compare hook of the left object is called with the right one. -/
  | called (right left : InstanceId)
  /-- A miscompare is kept. -/
  | kept (miscompare : Miscompare)
  deriving DecidableEq, Repr

/-- A comparer. -/
structure Comparer where
  settings : ComparerSettings := {}
  scope : Scope := {}
  /-- Each right object met so far with the left object it was met against. -/
  pairs : List (InstanceId × InstanceId) := []
  /-- The number of miscompares of the comparison at hand. -/
  result : Nat := 0
  /-- Their lines, oldest first. -/
  text : String := ""
  reporter : Reporter := {}
  /-- Notes of probe fields, oldest first. -/
  notes : List CompareNote := []
  /-- All that happened so far, latest first; nothing depends on it. -/
  events : List CompareEvent := []
  deriving Inhabited

namespace Comparer

/-- A comparer as the settings say. -/
def ofSettings (settings : Settings) : Comparer where
  settings := settings.comparer
  reporter := { maxVerbosity := settings.report.maxVerbosity }

variable (c : Comparer)

/-- Starts a comparison: nothing is paired and nothing found. -/
def start : Comparer := { c with pairs := [], result := 0, text := "" }

/-- The left object that a right one was paired with. -/
def partner? (right : InstanceId) : Option InstanceId := c.pairs.lookup right

/-- Pairs two objects. -/
def pair (right left : InstanceId) : Comparer := { c with pairs := (right, left) :: c.pairs }

/-- Notes that a compare hook is called. -/
def call (right left : InstanceId) : Comparer :=
  { c with events := .called right left :: c.events }

/-- The objects whose compare hooks were called, each with the one it was called with, latest
first. -/
def calls : List (InstanceId × InstanceId) :=
  c.events.filterMap fun
    | .called right left => some (right, left)
    | .kept _ => none

/-- The miscompares of all comparisons, latest first. -/
def kept : List Miscompare :=
  c.events.filterMap fun
    | .called .. => none
    | .kept miscompare => some miscompare

/-- Reports with the severity and verbosity of the settings. -/
def report (message : String) : Comparer :=
  { c with
    reporter := c.reporter.report
      ⟨c.settings.severity, c.settings.verbosity, "MISCMP", message⟩ }

/-- Keeps a miscompare at the current path.  The first few are reported. -/
def tally (message : String) : Comparer :=
  let path := c.scope.path
  let c := { c with
    result := c.result + 1
    text := c.text ++ Miscompare.line ⟨path, message⟩
    events := .kept ⟨path, message⟩ :: c.events }
  if c.result ≤ c.settings.showMax then
    c.report ("Miscompare for " ++ path ++ ": " ++ message)
  else c

/-- Keeps a miscompare of a field. -/
def tallyField (name message : String) : Comparer :=
  let c := { c with scope := c.scope.setPending name }.tally message
  { c with scope := c.scope.unsetPending name }

/-- Two texts side by side. -/
def sides (left right : String) : String := "lhs = " ++ left ++ " : rhs = " ++ right

/-- How an object is named in messages. -/
def handleText : Option ObjectRef → String
  | some r => "@" ++ toString (ObjectGraph.instanceId r)
  | none => "<null>"

/-- Keeps a miscompare of the identities of two objects. -/
def tallyObjects (left right : Option ObjectRef) : Comparer :=
  c.tally (sides (handleText left) (handleText right))

/-! ### Fields without parts -/

/-- Compares the low `size` bits of two words; from a size of 64 on all of their bits. -/
def compareWord (name : String) (left right : UInt64) (size : Nat) (radix : Radix) :
    Bool × Comparer :=
  let left := left &&& WordStore.mask size
  let right := right &&& WordStore.mask size
  if left = right then (true, c)
  else
    (false, c.tallyField name
      (sides (radix.render left.toNat size) (radix.render right.toNat size)))

/-- Compares the low `size` bits of two numbers of any width. -/
def compareWide (name : String) (left right size : Nat) (radix : Radix) : Bool × Comparer :=
  let left := Bits.truncate left size
  let right := Bits.truncate right size
  if left = right then (true, c)
  else
    (false, c.tallyField name (sides (radix.render left size) (radix.render right size)))

/-- Compares the low `size` bits of two numbers.  Up to a size of 64 their low words are enough. -/
def compareNumber (name : String) (left right size : Nat) (radix : Radix) : Bool × Comparer :=
  if size ≤ 64 then c.compareWord name (UInt64.ofNat left) (UInt64.ofNat right) size radix
  else c.compareWide name left right size radix

/-- Compares two real numbers as numbers. -/
def compareReal (name : String) (left right : Binary64) : Bool × Comparer :=
  if left.agrees right then (true, c)
  else (false, c.tallyField name (sides left.text right.text))

/-- Compares two texts. -/
def compareString (name left right : String) : Bool × Comparer :=
  if left = right then (true, c)
  else (false, c.tallyField name (sides ("\"" ++ left ++ "\"") ("\"" ++ right ++ "\"")))

/-! ### Laws -/

-- Powers are those of the core library, whatever else is in scope.
attribute [local instance (high)] instPowNat

/-- As far as a comparison goes, words are numbers. -/
theorem compareWord_eq (name : String) (left right : UInt64) (size : Nat) (radix : Radix) :
    c.compareWord name left right size radix =
      c.compareWide name left.toNat right.toNat size radix := by
  simp only [compareWord, compareWide, ← UInt64.toNat_inj, WordStore.toNat_and_mask]

/-- What a comparison of numbers comes to, whatever is cut off before they are shown. -/
theorem compareWide_eq (name : String) (left right size : Nat) (radix : Radix) :
    c.compareWide name left right size radix =
      if Bits.truncate left size = Bits.truncate right size then (true, c)
      else
        (false, c.tallyField name (sides (radix.render left size) (radix.render right size))) := by
  simp only [compareWide, Radix.render_truncate]

/-- Of numbers with the same low bits either may be compared. -/
theorem compareWide_congr {left left' right right' size : Nat}
    (hl : Bits.truncate left' size = Bits.truncate left size)
    (hr : Bits.truncate right' size = Bits.truncate right size) (name : String) (radix : Radix) :
    c.compareWide name left' right' size radix = c.compareWide name left right size radix := by
  simp only [compareWide, hl, hr]

/-- Both routes come to the same. -/
theorem compareNumber_eq_compareWide (name : String) (left right size : Nat) (radix : Radix) :
    c.compareNumber name left right size radix = c.compareWide name left right size radix := by
  unfold compareNumber
  split
  case isTrue h =>
    rw [compareWord_eq]
    exact c.compareWide_congr (WordStore.truncate_toNat_ofNat left h)
      (WordStore.truncate_toNat_ofNat right h) ..
  case isFalse => rfl

/-- Numbers compare by their low bits, and are shown by them. -/
theorem compareNumber_eq (name : String) (left right size : Nat) (radix : Radix) :
    c.compareNumber name left right size radix =
      if Bits.truncate left size = Bits.truncate right size then (true, c)
      else
        (false, c.tallyField name (sides (radix.render left size) (radix.render right size))) := by
  rw [compareNumber_eq_compareWide, compareWide_eq]

@[simp] theorem result_tally (message : String) : (c.tally message).result = c.result + 1 := by
  simp only [tally, report]
  split <;> rfl

/-- A miscompare adds its line to the text. -/
@[simp] theorem text_tally (message : String) :
    (c.tally message).text = c.text ++ Miscompare.line ⟨c.scope.path, message⟩ := by
  simp only [tally, report]
  split <;> rfl

@[simp] theorem scope_tally (message : String) : (c.tally message).scope = c.scope := by
  simp only [tally, report]
  split <;> rfl

@[simp] theorem pairs_tally (message : String) : (c.tally message).pairs = c.pairs := by
  simp only [tally, report]
  split <;> rfl

@[simp] theorem settings_tally (message : String) : (c.tally message).settings = c.settings := by
  simp only [tally, report]
  split <;> rfl

@[simp] theorem events_tally (message : String) :
    (c.tally message).events = .kept ⟨c.scope.path, message⟩ :: c.events := by
  simp only [tally, report]
  split <;> rfl

end Comparer

end FieldAutomation
