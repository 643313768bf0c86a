import FieldAutomation.Bits

/-!
# Double-precision numbers by their bits

A real field travels through a packed stream as 64 bits and has to come back with every bit in
place, the payload of a NaN included, so `Binary64` is the word itself.  The module reads the
parts of the word and has the comparison of IEEE 754, under which a NaN differs from everything
and the two zeros are equal.

A finite magnitude is `significand * 2 ^ exponent`.
-/

namespace FieldAutomation

/-- A double-precision number, as its 64-bit word. -/
structure Binary64 where
  bits : UInt64
  deriving DecidableEq, Inhabited

namespace Binary64

/-- The number whose word holds the low 64 bits of `n`. -/
def ofNat (n : Nat) : Binary64 := ⟨UInt64.ofNat n⟩

/-- The word as a natural number. -/
def toNat (x : Binary64) : Nat := x.bits.toNat

/-- The sign bit. -/
def isNegative (x : Binary64) : Bool := x.toNat.testBit 63

/-- The eleven bits of the exponent, as stored. -/
def exponentField (x : Binary64) : Nat := Bits.truncate (x.toNat >>> 52) 11

/-- The fifty-two bits below the exponent. -/
def fraction (x : Binary64) : Nat := Bits.truncate x.toNat 52

/-- The exponent of ones with a fraction. -/
def isNaN (x : Binary64) : Bool := x.exponentField == 2047 && x.fraction != 0

/-- The exponent of ones without a fraction. -/
def isInfinite (x : Binary64) : Bool := x.exponentField == 2047 && x.fraction == 0

/-- No magnitude, whatever the sign. -/
def isZero (x : Binary64) : Bool := x.exponentField == 0 && x.fraction == 0

/-- The significand of a finite number; normal numbers have an implied leading bit. -/
def significand (x : Binary64) : Nat :=
  if x.exponentField = 0 then x.fraction else (1 <<< 52) + x.fraction

/-- The power of two that the significand counts. -/
def exponent (x : Binary64) : Int := (max x.exponentField 1 : Nat) - 1075

/-- Equality of IEEE 754: a NaN differs from everything, zeros of both signs are equal. -/
def agrees (x y : Binary64) : Bool :=
  !x.isNaN && !y.isNaN && (x.bits == y.bits || (x.isZero && y.isZero))

@[simp] theorem ofNat_toNat (x : Binary64) : ofNat x.toNat = x := by
  simp [ofNat, toNat]

theorem toNat_ofNat (n : Nat) : (ofNat n).toNat = n % UInt64.size := by
  simp [ofNat, toNat]

theorem toNat_lt (x : Binary64) : x.toNat < UInt64.size := x.bits.toNat_lt_size

theorem agrees_self {x : Binary64} (h : x.isNaN = false) : x.agrees x = true := by
  simp [agrees, h]

theorem agrees_comm (x y : Binary64) : x.agrees y = y.agrees x := by
  simp only [agrees, Bool.and_comm (!x.isNaN), Bool.and_comm x.isZero,
    show (x.bits == y.bits) = (y.bits == x.bits) from BEq.comm]

end Binary64

end FieldAutomation
