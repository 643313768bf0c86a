/-!
# Bytes in hexadecimal

`Hex.encode` writes each byte as two lower-case digits.
-/

namespace FieldAutomation

namespace Hex

/-- The digit of a number below sixteen. -/
def digit (n : Nat) : Char := Nat.digitChar n

/-- Two digits per byte. -/
def encode (bytes : List Nat) : String :=
  String.ofList (bytes.flatMap fun b => [digit (b / 16 % 16), digit (b % 16)])

theorem length_encode (bytes : List Nat) : (encode bytes).length = 2 * bytes.length := by
  induction bytes with
  | nil => rfl
  | cons b rest ih =>
    simp only [encode, List.flatMap_cons, String.length_ofList, List.length_append,
      List.length_cons, List.length_nil] at ih ⊢
    omega

end Hex

end FieldAutomation
