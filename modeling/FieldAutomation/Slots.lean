/-!
# Numbered slots

A collection of things under numbers, at most one under each: the recorders and streams of a bench,
and the two sides of the table of handles.

* `Slots.find?`, `Slots.put`, `Slots.erase`.

Main statements: `Slots.find?_put`, `Slots.find?_erase`.
-/

namespace FieldAutomation

/-- Things with numbers, at most one per number. -/
structure Slots (α : Type) where
  entries : List (Nat × α) := []
  deriving DecidableEq, Repr, Inhabited

namespace Slots

variable {α : Type} (s : Slots α)

/-- The thing with a number. -/
def find? (n : Nat) : Option α := s.entries.lookup n

/-- Takes away the thing with a number. -/
def erase (n : Nat) : Slots α := ⟨s.entries.filter (·.1 ≠ n)⟩

/-- Gives a thing a number, in place of what had it. -/
def put (n : Nat) (a : α) : Slots α := ⟨(n, a) :: (s.erase n).entries⟩

@[simp] theorem find?_empty (n : Nat) : ({} : Slots α).find? n = none := rfl

@[simp] theorem find?_put_self (n : Nat) (a : α) : (s.put n a).find? n = some a := by
  simp [find?, put]

theorem find?_erase_self (n : Nat) : (s.erase n).find? n = none := by
  simp only [find?, erase, List.lookup_eq_none_iff, List.mem_filter]
  intro e he
  have hne : e.1 ≠ n := by simpa using he.2
  simpa using Ne.symm hne

theorem find?_erase_of_ne {n k : Nat} (h : k ≠ n) : (s.erase n).find? k = s.find? k := by
  unfold find? erase
  induction s.entries with
  | nil => rfl
  | cons e rest ih =>
    obtain ⟨m, a⟩ := e
    by_cases he : m = n
    · have hk : (k == n) = false := by simpa using h
      simpa [he, List.lookup_cons, hk] using ih
    · simp only [List.filter_cons, he, ne_eq, not_false_eq_true, decide_true, if_true,
        List.lookup_cons]
      rw [ih]

theorem find?_put_of_ne {n k : Nat} (a : α) (h : k ≠ n) : (s.put n a).find? k = s.find? k := by
  have hk : (k == n) = false := by simpa using h
  rw [← s.find?_erase_of_ne h]
  simp [find?, put, List.lookup_cons, hk]

/-- What is found after something was put. -/
theorem find?_put (n k : Nat) (a : α) :
    (s.put n a).find? k = if k = n then some a else s.find? k := by
  split
  case isTrue h => rw [h, find?_put_self]
  case isFalse h => rw [s.find?_put_of_ne a h]

/-- What is found after something was taken away. -/
theorem find?_erase (n k : Nat) : (s.erase n).find? k = if k = n then none else s.find? k := by
  split
  case isTrue h => rw [h, find?_erase_self]
  case isFalse h => rw [s.find?_erase_of_ne h]

end Slots

end FieldAutomation
