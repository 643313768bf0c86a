/-!
# Sizes

A width, a position or the size of a store is kept in a machine word, so sums and products of them
wrap around at the end of that word.

* `Size.wrap`: what a word keeps of a number;
* `Size.add`, `Size.mul`: the sum and the product of sizes.

Main statement: `Size.wrap_of_lt`, the range in which all of this is exact.
-/

namespace FieldAutomation

namespace Size

/-- What a word keeps of a number. -/
def wrap (n : Nat) : Nat := n % UInt64.size

/-- The sum of two sizes. -/
def add (m n : Nat) : Nat := wrap (m + n)

/-- The product of two sizes. -/
def mul (m n : Nat) : Nat := wrap (m * n)

/-- A number that fits into a word is kept as it is. -/
theorem wrap_of_lt {n : Nat} (h : n < UInt64.size) : wrap n = n := Nat.mod_eq_of_lt h

theorem wrap_le (n : Nat) : wrap n ≤ n := Nat.mod_le ..

theorem wrap_lt (n : Nat) : wrap n < UInt64.size := Nat.mod_lt _ (by decide)

theorem add_of_lt {m n : Nat} (h : m + n < UInt64.size) : add m n = m + n := wrap_of_lt h

theorem mul_of_lt {m n : Nat} (h : m * n < UInt64.size) : mul m n = m * n := wrap_of_lt h

theorem mul_le (m n : Nat) : mul m n ≤ m * n := wrap_le ..

end Size

end FieldAutomation
