/-!
# Reading text from the left

A `Reader` takes a value off the front of a list of characters, or fails and takes nothing.  This
module has the readers that the TOML grammar is put together from: single characters, runs of a
class of characters, repetition, and lists with separators.

Main statement: `Reader.many_flatMap` (texts put one after the other are read one after the
other).
-/

namespace FieldAutomation

namespace Toml

/-- Takes a value off the front of a text, or fails. -/
abbrev Reader := StateT (List Char) Option

namespace Reader

variable {α β γ : Type}

/-! ### How readers combine -/

@[simp] theorem pure_apply (a : α) (cs : List Char) : (pure a : Reader α) cs = some (a, cs) := rfl

@[simp] theorem failure_apply (cs : List Char) : (failure : Reader α) cs = none := rfl

@[simp] theorem bind_apply (p : Reader α) (f : α → Reader β) (cs : List Char) :
    (p >>= f) cs = (p cs).bind fun r => f r.1 r.2 := rfl

@[simp] theorem map_apply (f : α → β) (p : Reader α) (cs : List Char) :
    (f <$> p) cs = (p cs).map fun r => (f r.1, r.2) := by
  cases h : p cs <;> simp [Functor.map, StateT.map, h]

@[simp] theorem orElse_apply (p q : Reader α) (cs : List Char) :
    (p <|> q) cs = (p cs).or (q cs) := by
  cases h : p cs <;> simp [HOrElse.hOrElse, OrElse.orElse, Alternative.orElse, StateT.orElse, h]

@[simp] theorem seqRight_apply (p : Reader α) (q : Reader β) (cs : List Char) :
    (p *> q) cs = (p cs).bind fun r => q r.2 := rfl

/-! ### Single characters -/

/-- A character of a class. -/
def satisfy (p : Char → Bool) : Reader Char
  | c :: rest => if p c then some (c, rest) else none
  | [] => none

@[simp] theorem satisfy_cons (p : Char → Bool) (c : Char) (rest : List Char) :
    satisfy p (c :: rest) = if p c then some (c, rest) else none := rfl

@[simp] theorem satisfy_nil (p : Char → Bool) : satisfy p [] = none := rfl

/-- One given character. -/
def char (c : Char) : Reader Unit := (fun _ => ()) <$> satisfy (· == c)

@[simp] theorem char_cons (c d : Char) (rest : List Char) :
    char c (d :: rest) = if d = c then some ((), rest) else none := by
  by_cases h : d = c <;> simp [char, h]

@[simp] theorem char_nil (c : Char) : char c [] = none := rfl

/-- A given text. -/
def literal : List Char → Reader Unit
  | [] => pure ()
  | c :: rest => do
    char c
    literal rest

@[simp] theorem literal_nil (cs : List Char) : literal [] cs = some ((), cs) := rfl

@[simp] theorem literal_cons (c : Char) (rest cs : List Char) :
    literal (c :: rest) cs = (char c cs).bind fun r => literal rest r.2 := rfl

/-! ### Repetition -/

/-- The longest run of characters of a class, which may be empty. -/
def run (p : Char → Bool) : Reader (List Char) := fun cs => some (cs.takeWhile p, cs.dropWhile p)

/-- A run ends where its class does. -/
theorem run_append {p : Char → Bool} {text rest : List Char} (h : ∀ c ∈ text, p c = true)
    (hrest : ∀ c ∈ rest.head?, p c = false) : run p (text ++ rest) = some (text, rest) := by
  have hstop : rest.takeWhile p = [] ∧ rest.dropWhile p = rest := by
    cases rest with
    | nil => simp
    | cons c rest =>
      have hc : p c = false := hrest c rfl
      simp [hc]
  simp [run, List.takeWhile_append_of_pos h, List.dropWhile_append_of_pos h, hstop]

/-- The longest run of characters of a class, at least one. -/
def run1 (p : Char → Bool) : Reader (List Char) := do
  let c ← satisfy p
  let rest ← run p
  return c :: rest

theorem run1_append {p : Char → Bool} {text rest : List Char} (hne : text ≠ [])
    (h : ∀ c ∈ text, p c = true) (hrest : ∀ c ∈ rest.head?, p c = false) :
    run1 p (text ++ rest) = some (text, rest) := by
  obtain ⟨c, text, rfl⟩ := List.exists_cons_of_ne_nil hne
  obtain ⟨hc, htext⟩ := List.forall_mem_cons.1 h
  simp [run1, hc, run_append htext hrest]

/-- The end of the text. -/
def atEnd : Reader Unit
  | [] => some ((), [])
  | _ :: _ => none

/-- What `p` reads, or nothing where it fails. -/
def maybe (p : Reader α) : Reader (Option α) := (some <$> p) <|> pure none

/-- As many values as there are, one after the other.  A value that takes no text ends the
list. -/
def many (p : Reader α) : Reader (List α) := fun cs =>
  match p cs with
  | none => some ([], cs)
  | some (a, rest) =>
    if rest.length < cs.length then
      (many p rest).map fun (as, rest) => (a :: as, rest)
    else
      some ([], cs)
termination_by cs => cs.length

theorem many_of_eq_none {p : Reader α} {cs : List Char} (h : p cs = none) :
    many p cs = some ([], cs) := by
  rw [many]
  simp [h]

theorem many_of_eq_some {p : Reader α} {cs rest : List Char} {a : α} (h : p cs = some (a, rest))
    (hlt : rest.length < cs.length) :
    many p cs = (many p rest).map fun r => (a :: r.1, r.2) := by
  rw [many]
  simp [h, hlt]

/-- Texts that `p` reads are read one after the other.  `q` says what may follow a text. -/
theorem many_flatMap {p : Reader β} {write : γ → List Char} {f : γ → β} {q : List Char → Prop}
    {as : List γ} {rest : List Char}
    (hread : ∀ a ∈ as, ∀ rest, q rest → p (write a ++ rest) = some (f a, rest))
    (hq : ∀ a rest, q (write a ++ rest)) (hne : ∀ a, write a ≠ []) (hrest : q rest)
    (hstop : p rest = none) :
    many p (as.flatMap write ++ rest) = some (as.map f, rest) := by
  induction as with
  | nil => exact many_of_eq_none hstop
  | cons a as ih =>
    obtain ⟨ha, has⟩ := List.forall_mem_cons.1 hread
    have hnext : q (as.flatMap write ++ rest) := by
      cases as with
      | nil => simpa using hrest
      | cons a as => simpa using hq a _
    have hlt (l : List Char) : l.length < (write a ++ l).length := by
      rw [List.length_append]
      have := List.length_pos_iff.2 (hne a)
      omega
    rw [List.flatMap_cons, List.append_assoc, many_of_eq_some (ha _ hnext) (hlt _), ih has]
    rfl

/-- Characters that `p` reads one by one. -/
theorem many_append {p : Reader Char} {text rest : List Char}
    (hread : ∀ c ∈ text, ∀ rest, p (c :: rest) = some (c, rest)) (hstop : p rest = none) :
    many p (text ++ rest) = some (text, rest) := by
  have h : many p (text.flatMap (fun c => [c]) ++ rest) = some (text.map id, rest) :=
    many_flatMap (q := fun _ => True) (fun c hc rest _ => hread c hc rest) (fun _ _ => trivial)
      (by simp) trivial hstop
  simpa using h

/-- At least one value, with a separator between each two.  A separator that no value follows is
left in the text. -/
def separated (p : Reader α) (separator : Reader β) : Reader (List α) := do
  let first ← p
  let rest ← many (separator *> p)
  return first :: rest

/-- One value alone. -/
theorem separated_one {p : Reader α} {separator : Reader β} {cs rest : List Char} {a : α}
    (h : p cs = some (a, rest)) (hstop : separator rest = none) :
    separated p separator cs = some ([a], rest) := by
  have hmany : many (separator *> p) rest = some ([], rest) := many_of_eq_none (by simp [hstop])
  simp [separated, h, hmany]

end Reader

end Toml

end FieldAutomation
