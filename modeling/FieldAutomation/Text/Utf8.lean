/-!
# UTF-8

A packed string travels as the bytes of its UTF-8 form.

* `Utf8.encode`: the bytes of a string;
* `Utf8.decodeLossy`: the text of any bytes.  Bytes that start a character without completing it
  become one replacement character, as far as they could have been completed; any other byte that
  fits nowhere becomes one by itself.
-/

namespace FieldAutomation

namespace Utf8

/-- The bytes of a string. -/
def encode (s : String) : List Nat := (s.toList.flatMap String.utf8EncodeChar).map UInt8.toNat

/-- The number of bytes of a string. -/
def size (s : String) : Nat := s.utf8ByteSize

/-- The mark of bytes that are no text. -/
def replacement : Char := '\ufffd'

/-- How many bytes follow a byte that starts a character of several bytes, and how much of its
value the byte itself holds. -/
def leading? (byte : Nat) : Option (Nat × Nat) :=
  if 0xC2 ≤ byte ∧ byte ≤ 0xDF then some (1, byte - 0xC0)
  else if 0xE0 ≤ byte ∧ byte ≤ 0xEF then some (2, byte - 0xE0)
  else if 0xF0 ≤ byte ∧ byte ≤ 0xF4 then some (3, byte - 0xF0)
  else none

/-- The bounds of the byte after `byte`: they leave out overlong forms, surrogates, and values
past the last code point. -/
def secondBounds (byte : Nat) : Nat × Nat :=
  if byte = 0xE0 then (0xA0, 0xBF)
  else if byte = 0xED then (0x80, 0x9F)
  else if byte = 0xF0 then (0x90, 0xBF)
  else if byte = 0xF4 then (0x80, 0x8F)
  else (0x80, 0xBF)

/-- Takes up to `n` bytes that continue a character, the first within the bounds given. -/
def takeContinuation : Nat → Nat × Nat → List Nat → List Nat × List Nat
  | n + 1, (low, high), byte :: rest =>
    if low ≤ byte ∧ byte ≤ high then
      let (taken, left) := takeContinuation n (0x80, 0xBF) rest
      (byte :: taken, left)
    else ([], byte :: rest)
  | _, _, bytes => ([], bytes)

theorem length_takeContinuation_le (n : Nat) (bounds : Nat × Nat) (bytes : List Nat) :
    (takeContinuation n bounds bytes).2.length ≤ bytes.length := by
  induction bytes generalizing n bounds with
  | nil => cases n <;> simp [takeContinuation]
  | cons byte rest ih =>
    cases n with
    | zero => simp [takeContinuation]
    | succ n =>
      simp only [takeContinuation]
      split
      · exact Nat.le_succ_of_le (ih n _)
      · exact Nat.le_refl _

/-- The characters of any bytes. -/
def decodeChars : List Nat → List Char
  | [] => []
  | byte :: rest =>
    if byte < 0x80 then Char.ofNat byte :: decodeChars rest
    else
      match leading? byte with
      | none => replacement :: decodeChars rest
      | some (n, value) =>
        let taken := (takeContinuation n (secondBounds byte) rest).1
        let c :=
          if taken.length = n then
            Char.ofNat (taken.foldl (fun value b => 64 * value + (b - 0x80)) value)
          else replacement
        c :: decodeChars (takeContinuation n (secondBounds byte) rest).2
termination_by bytes => bytes.length
decreasing_by
  all_goals
    have := length_takeContinuation_le
    simp only [List.length_cons]
    grind

/-- The text of any bytes. -/
def decodeLossy (bytes : List Nat) : String := String.ofList (decodeChars bytes)

end Utf8

end FieldAutomation
