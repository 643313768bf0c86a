import FieldAutomation.Proofs.Comparing.Continuing

/-!
# Numbers compare modulo a power of two

A field of at most 64 bits is compared as two words under a mask, and a wider one as two numbers of
any width.  Which route is taken cannot be seen: on both of them numbers are the same when they
agree modulo `2 ^ size`, and a difference is told by the texts of the numbers that were given, with
all the bits above the field that they may have.

* `Comparer.Misses`: a comparer before and after it kept one miscompare of a field.

Main statement: `Comparer.compareNumber_modulo`.
-/

namespace FieldAutomation

-- Powers are those of the core library, whatever else is in scope.
attribute [local instance (high)] instPowNat

namespace Comparer

/-- `d` is `c` with one more miscompare, of the field `name`, and otherwise the same but for what
was reported.  The name of the field is not pending any more. -/
structure Misses (c : Comparer) (name message : String) (d : Comparer) : Prop where
  tallies : c.Tallies [⟨(c.scope.setPending name).path, message⟩] d
  calls : d.calls = c.calls
  pairs : d.pairs = c.pairs
  settings : d.settings = c.settings
  notes : d.notes = c.notes
  scope : d.scope = (c.scope.setPending name).unsetPending name

theorem notes_tally (c : Comparer) (message : String) : (c.tally message).notes = c.notes := by
  simp only [tally, report]
  split <;> rfl

theorem misses_tallyField (c : Comparer) (name message : String) :
    c.Misses name message (c.tallyField name message) where
  tallies := tallies_tallyField ..
  calls := calls_tally ..
  pairs := pairs_tally ..
  settings := settings_tally ..
  notes := notes_tally ..
  scope := congrArg (Scope.unsetPending · name) (scope_tally ..)

/-- **Numbers compare modulo `2 ^ size`**, for every size and radix and whatever bits they have
above the field.  If they agree nothing changes at all; if not, there is one more miscompare, which
shows the two numbers as they were given.  Comparing them as numbers of any width comes to the
same for all sizes, and so does comparing words, also for sizes above theirs. -/
theorem compareNumber_modulo (c : Comparer) (name : String) (left right size : Nat)
    (radix : Radix) :
    (∃ d, c.Misses name
        ("lhs = " ++ radix.render left size ++ " : rhs = " ++ radix.render right size) d ∧
      c.compareNumber name left right size radix =
        if left % 2 ^ size = right % 2 ^ size then (true, c) else (false, d)) ∧
    c.compareWide name left right size radix = c.compareNumber name left right size radix ∧
    ∀ l r : UInt64,
      c.compareWord name l r size radix = c.compareNumber name l.toNat r.toNat size radix := by
  refine ⟨⟨_, c.misses_tallyField name _, ?_⟩,
    (c.compareNumber_eq_compareWide ..).symm, fun l r => ?_⟩
  · rw [compareNumber_eq, Bits.truncate_eq_mod, Bits.truncate_eq_mod]
    rfl
  · rw [compareWord_eq, compareNumber_eq_compareWide]

/-- Two numbers that differ above a field of eight bits only, and a word against a wider field. -/
example :
    let c : Comparer := {}
    c.compareNumber "x" 0x1FF 0x2FF 8 .dec = (true, c) ∧
      (c.compareWord "x" 1 2 70 .hex).2.text = "x: lhs = 1 : rhs = 2\n" := by
  refine ⟨rfl, ?_⟩
  decide

end Comparer

end FieldAutomation
