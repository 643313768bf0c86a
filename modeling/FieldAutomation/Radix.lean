import FieldAutomation.Binary64.Shortest
import FieldAutomation.Bits

/-!
# Radices and the text of a field

A field of `size` bits is shown in one of the radices of verification logs: a positional
numeral, a two's complement decimal, the characters of its bytes, or the double that its bits
spell.  Bits above `size` never show.

* `Radix.name`: the name of a radix in records;
* `Radix.signed`: the two's complement reading of a field;
* `Radix.render`: the text of a field.
-/

namespace FieldAutomation

/-- How a field is shown. -/
inductive Radix where
  | bin
  | oct
  | dec
  | unsigned
  | hex
  | string
  | time
  | enum
  | real
  | noRadix
  deriving DecidableEq, Repr, Inhabited

namespace Radix

/-- All radices. -/
def all : List Radix := [bin, oct, dec, unsigned, hex, string, time, enum, real, noRadix]

theorem mem_all (r : Radix) : r ∈ all := by
  cases r <;> simp [all]

/-- The name of a radix in records. -/
def name : Radix → String
  | bin => "UVM_BIN"
  | oct => "UVM_OCT"
  | dec => "UVM_DEC"
  | unsigned => "UVM_UNSIGNED"
  | hex => "UVM_HEX"
  | string => "UVM_STRING"
  | time => "UVM_TIME"
  | enum => "UVM_ENUM"
  | real => "UVM_REAL"
  | noRadix => "UVM_NORADIX"

theorem name_injective {r s : Radix} (h : r.name = s.name) : r = s := by
  cases r <;> cases s <;> simp_all [name]

/-- The numeral of `n` in base `b`, without leading zeros and with lower-case letters. -/
def numeral (b n : Nat) : String := String.ofList (Nat.toDigits b n)

/-- The low `size` bits of `v` read as two's complement: the top bit of the field counts
negatively.  An empty field is zero. -/
def signed (v size : Nat) : Int :=
  let low := Bits.truncate v size
  if 0 < size ∧ low.testBit (size - 1) then (low : Int) - (1 <<< size : Nat) else low

/-- The decimal numeral of an integer. -/
def integerNumeral : Int → String
  | .ofNat n => numeral 10 n
  | .negSucc n => "-" ++ numeral 10 (n + 1)

/-- The bytes of `n`, least significant first, none for zero. -/
def littleEndianBytes (n : Nat) : List Nat :=
  if n = 0 then [] else n % 256 :: littleEndianBytes (n / 256)
termination_by n

/-- The bytes of `n` from the most significant one down as characters; zero bytes are left
out. -/
def byteText (n : Nat) : String :=
  String.ofList (((littleEndianBytes n).reverse.filter (· ≠ 0)).map Char.ofNat)

/-- The text of the low `size` bits of `v`. -/
def render (v size : Nat) : Radix → String
  | bin => numeral 2 (Bits.truncate v size)
  | oct => numeral 8 (Bits.truncate v size)
  | hex | noRadix => numeral 16 (Bits.truncate v size)
  | unsigned | time | enum => numeral 10 (Bits.truncate v size)
  | dec => integerNumeral (signed v size)
  | string => byteText (Bits.truncate v size)
  | real => (Binary64.ofNat (Bits.truncate v size)).text

/-- Bits above the field never show. -/
theorem render_truncate (v size : Nat) (r : Radix) :
    render (Bits.truncate v size) size r = render v size r := by
  cases r <;> simp [render, signed]

end Radix

end FieldAutomation
