import FieldAutomation.Settings

/-!
# Keywords of enumerated settings

Each value of an enumerated setting is written as a lower-case word with dashes.  `Keyword` gives
the words of a type, and `Keyword.ofText?` reads one.

Main statement: `Keyword.ofText?_text` (each word is read back as its value).
-/

namespace FieldAutomation

/-- A type whose values are written as words. -/
class Keyword (α : Type) where
  /-- The word of a value. -/
  text : α → String
  /-- All values. -/
  all : List α
  mem_all : ∀ a, a ∈ all
  text_injective : ∀ a b, text a = text b → a = b

namespace Keyword

variable {α : Type} [Keyword α]

/-- The value that a word stands for. -/
def ofText? (word : String) : Option α := all.find? (text · = word)

/-- Each word is read back as its value. -/
theorem ofText?_text (a : α) : ofText? (text a) = some a := by
  unfold ofText?
  cases h : (all : List α).find? (fun b => decide (text b = text a)) with
  | none => simpa using List.find?_eq_none.1 h a (mem_all a)
  | some b =>
    have hb : text b = text a := by simpa using List.find?_some h
    rw [text_injective b a hb]

end Keyword

instance : Keyword RecursionPolicy where
  text
    | .deep => "deep"
    | .shallow => "shallow"
    | .reference => "reference"
  all := RecursionPolicy.all
  mem_all := RecursionPolicy.mem_all
  text_injective a b h := by cases a <;> cases b <;> simp_all

instance : Keyword Radix where
  text
    | .bin => "bin"
    | .oct => "oct"
    | .dec => "dec"
    | .unsigned => "unsigned"
    | .hex => "hex"
    | .string => "string"
    | .time => "time"
    | .enum => "enum"
    | .real => "real"
    | .noRadix => "no-radix"
  all := Radix.all
  mem_all := Radix.mem_all
  text_injective a b h := by cases a <;> cases b <;> simp_all

instance : Keyword Severity where
  text
    | .info => "info"
    | .warning => "warning"
    | .error => "error"
    | .fatal => "fatal"
  all := Severity.all
  mem_all := Severity.mem_all
  text_injective a b h := by cases a <;> cases b <;> simp_all

instance : Keyword Verbosity where
  text
    | .none => "none"
    | .low => "low"
    | .medium => "medium"
    | .high => "high"
    | .full => "full"
    | .debug => "debug"
  all := Verbosity.all
  mem_all := Verbosity.mem_all
  text_injective a b h := by cases a <;> cases b <;> simp_all

end FieldAutomation
