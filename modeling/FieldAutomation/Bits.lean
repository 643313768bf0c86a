/-!
# Low bits and reversed bits

A field of `size` bits holds a natural number below `2 ^ size`.  This module has the two
operations on such fields that do not need a store:

* `Bits.truncate`: the low bits of a value, `v % 2 ^ size`, also for sizes far above the value;
* `Bits.reverse`: the low bits in the opposite order.

Main statements: `Bits.testBit_truncate`, `Bits.testBit_reverse` (bit by bit), and
`Bits.reverse_reverse` (reversing twice keeps the low bits).
-/

namespace FieldAutomation

-- Powers are those of the core library, whatever else is in scope.
attribute [local instance (high)] instPowNat

namespace Bits

/-- The low `size` bits of `v`.  A value that fits is returned as it is, so that a large `size`
costs nothing. -/
def truncate (v size : Nat) : Nat :=
  if v.log2 < size then v else v % 2 ^ size

theorem truncate_eq_mod (v size : Nat) : truncate v size = v % 2 ^ size := by
  unfold truncate
  split
  case isTrue h =>
    by_cases hv : v = 0
    · simp [hv]
    · exact (Nat.mod_eq_of_lt ((Nat.log2_lt hv).1 h)).symm
  case isFalse => rfl

@[simp] theorem truncate_zero (v : Nat) : truncate v 0 = 0 := by
  simp [truncate_eq_mod, Nat.mod_one]

theorem truncate_lt (v size : Nat) : truncate v size < 2 ^ size := by
  rw [truncate_eq_mod]
  exact Nat.mod_lt _ (Nat.two_pow_pos size)

theorem truncate_of_lt {v size : Nat} (h : v < 2 ^ size) : truncate v size = v := by
  rw [truncate_eq_mod, Nat.mod_eq_of_lt h]

@[simp] theorem truncate_truncate (v size : Nat) :
    truncate (truncate v size) size = truncate v size :=
  truncate_of_lt (truncate_lt v size)

theorem testBit_truncate (v size i : Nat) :
    (truncate v size).testBit i = (decide (i < size) && v.testBit i) := by
  rw [truncate_eq_mod, Nat.testBit_mod_two_pow]

/-- The low `width` bits of `v` in the opposite order: bit `j` goes to `width - 1 - j`. -/
def reverse (v : Nat) : Nat → Nat
  | 0 => 0
  | width + 1 => reverse (v / 2) width + (v % 2) <<< width

@[simp] theorem reverse_zero (v : Nat) : reverse v 0 = 0 := rfl

theorem reverse_lt (v width : Nat) : reverse v width < 2 ^ width := by
  induction width generalizing v with
  | zero => simp
  | succ width ih =>
    have h := ih (v / 2)
    have hb : v % 2 < 2 := Nat.mod_lt _ (by decide)
    simp only [reverse, Nat.shiftLeft_eq, Nat.pow_succ]
    have : v % 2 * 2 ^ width ≤ 1 * 2 ^ width := Nat.mul_le_mul_right _ (by omega)
    omega

theorem testBit_reverse (v width j : Nat) :
    (reverse v width).testBit j = (decide (j < width) && v.testBit (width - 1 - j)) := by
  induction width generalizing v j with
  | zero => simp
  | succ width ih =>
    have hlt := reverse_lt (v / 2) width
    rw [reverse, Nat.shiftLeft_eq, Nat.add_comm, Nat.mul_comm,
      Nat.testBit_two_pow_mul_add (v % 2) hlt j]
    by_cases h : j < width
    · have hsub : width - j = (width - 1 - j) + 1 := by omega
      simp [h, ih, Nat.lt_succ_of_lt h, hsub, Nat.testBit_succ v]
    · by_cases he : j = width
      · subst he
        simp [Nat.testBit_zero]
      · have h1 : ¬ j < width + 1 := by omega
        have h2 : j - width ≠ 0 := by omega
        obtain ⟨k, hk⟩ := Nat.exists_eq_succ_of_ne_zero h2
        have hz : v % 2 / 2 = 0 := by omega
        simp [h, h1, hk, Nat.testBit_succ, hz]

/-- Reversing twice keeps the low bits. -/
theorem reverse_reverse (v width : Nat) : reverse (reverse v width) width = truncate v width := by
  apply Nat.eq_of_testBit_eq
  intro j
  rw [testBit_reverse, testBit_reverse, testBit_truncate]
  by_cases h : j < width
  · have h1 : width - 1 - j < width := by omega
    have h2 : width - 1 - (width - 1 - j) = j := by omega
    simp [h, h1, h2]
  · simp [h]

end Bits

end FieldAutomation
