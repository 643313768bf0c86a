import FieldAutomation.Text.Utf8
import Mathlib.Tactic.SplitIfs

/-!
# Texts and their bytes

Main statements: `Utf8.decodeLossy_encode` (a text is the one that its bytes decode to),
`Utf8.length_encode_eq_size`, `Utf8.lt_of_mem_encode`, `Utf8.zero_mem_encode_iff` (a text has a
zero byte only where it has a zero character), `Utf8.encode_of_ascii` and
`Utf8.lt_of_length_encode` (characters below 128, and they alone, are one byte each).
-/

namespace FieldAutomation

namespace Utf8

theorem toNat_lt (c : Char) : c.toNat < 0x110000 := by
  have h := c.valid
  change c.toNat < 0xD800 ∨ 0xDFFF < c.toNat ∧ c.toNat < 0x110000 at h
  omega

/-- Surrogates are no characters. -/
theorem toNat_not_surrogate (c : Char) : c.toNat < 0xD800 ∨ 0xDFFF < c.toNat := by
  have h := c.valid
  change c.toNat < 0xD800 ∨ 0xDFFF < c.toNat ∧ c.toNat < 0x110000 at h
  omega

/-- The bytes of a character. -/
theorem map_utf8EncodeChar (c : Char) :
    (String.utf8EncodeChar c).map UInt8.toNat =
      if c.toNat ≤ 0x7F then [c.toNat]
      else if c.toNat ≤ 0x7FF then [c.toNat / 64 + 0xC0, c.toNat % 64 + 0x80]
      else if c.toNat ≤ 0xFFFF then
        [c.toNat / 4096 + 0xE0, c.toNat / 64 % 64 + 0x80, c.toNat % 64 + 0x80]
      else
        [c.toNat / 262144 + 0xF0, c.toNat / 4096 % 64 + 0x80, c.toNat / 64 % 64 + 0x80,
          c.toNat % 64 + 0x80] := by
  have hc := toNat_lt c
  simp only [String.utf8EncodeChar, Char.toNat] at hc ⊢
  split_ifs <;> simp only [List.map_cons, List.map_nil, UInt8.toNat_ofNat', List.cons.injEq,
    and_true] <;> omega

@[simp] theorem takeContinuation_zero (bounds : Nat × Nat) (bytes : List Nat) :
    takeContinuation 0 bounds bytes = ([], bytes) := by
  unfold takeContinuation
  rfl

theorem takeContinuation_succ {n byte : Nat} {bounds : Nat × Nat} {rest : List Nat}
    (h : bounds.1 ≤ byte ∧ byte ≤ bounds.2) :
    takeContinuation (n + 1) bounds (byte :: rest) =
      (byte :: (takeContinuation n (0x80, 0xBF) rest).1,
        (takeContinuation n (0x80, 0xBF) rest).2) := by
  obtain ⟨low, high⟩ := bounds
  rw [takeContinuation, if_pos h]

/-- A character of several bytes, once the bytes that continue it are known. -/
theorem decodeChars_leading {byte n value : Nat} {taken left rest : List Nat}
    (hb : ¬ byte < 0x80) (hl : leading? byte = some (n, value))
    (ht : takeContinuation n (secondBounds byte) rest = (taken, left)) (hn : taken.length = n) :
    decodeChars (byte :: rest) =
      Char.ofNat (taken.foldl (fun value b => 64 * value + (b - 0x80)) value) ::
        decodeChars left := by
  rw [decodeChars, if_neg hb, hl]
  simp only [ht, hn, if_true]

/-- A character is read back from its bytes, whatever follows. -/
theorem decodeChars_encodeChar_append (c : Char) (rest : List Nat) :
    decodeChars ((String.utf8EncodeChar c).map UInt8.toNat ++ rest) = c :: decodeChars rest := by
  have hc := toNat_lt c
  have hs := toNat_not_surrogate c
  rw [map_utf8EncodeChar]
  split_ifs with h₁ h₂ h₃
  · rw [List.singleton_append, decodeChars, if_pos (by omega), Char.ofNat_toNat]
  · have hl : leading? (c.toNat / 64 + 0xC0) = some (1, c.toNat / 64) := by
      rw [leading?, if_pos (by omega), Nat.add_sub_cancel]
    have hb : (secondBounds (c.toNat / 64 + 0xC0)).1 ≤ c.toNat % 64 + 0x80 ∧
        c.toNat % 64 + 0x80 ≤ (secondBounds (c.toNat / 64 + 0xC0)).2 := by
      unfold secondBounds
      split_ifs <;> omega
    have ht : takeContinuation 1 (secondBounds (c.toNat / 64 + 0xC0))
        ([c.toNat % 64 + 0x80] ++ rest) = ([c.toNat % 64 + 0x80], rest) := by
      rw [List.singleton_append, takeContinuation_succ hb, takeContinuation_zero]
    rw [List.cons_append, decodeChars_leading (by omega) hl ht rfl]
    have hv : 64 * (c.toNat / 64) + c.toNat % 64 = c.toNat := by omega
    simp [hv, Char.ofNat_toNat]
  · have hl : leading? (c.toNat / 4096 + 0xE0) = some (2, c.toNat / 4096) := by
      rw [leading?, if_neg (by omega), if_pos (by omega), Nat.add_sub_cancel]
    have hb : (secondBounds (c.toNat / 4096 + 0xE0)).1 ≤ c.toNat / 64 % 64 + 0x80 ∧
        c.toNat / 64 % 64 + 0x80 ≤ (secondBounds (c.toNat / 4096 + 0xE0)).2 := by
      unfold secondBounds
      split_ifs <;> omega
    have ht : takeContinuation 2 (secondBounds (c.toNat / 4096 + 0xE0))
        ([c.toNat / 64 % 64 + 0x80, c.toNat % 64 + 0x80] ++ rest) =
          ([c.toNat / 64 % 64 + 0x80, c.toNat % 64 + 0x80], rest) := by
      rw [List.cons_append, List.singleton_append, takeContinuation_succ hb,
        takeContinuation_succ (by simp only; omega), takeContinuation_zero]
    rw [List.cons_append, decodeChars_leading (by omega) hl ht rfl]
    have hv : 64 * (64 * (c.toNat / 4096) + c.toNat / 64 % 64) + c.toNat % 64 = c.toNat := by
      omega
    simp [hv, Char.ofNat_toNat]
  · have hl : leading? (c.toNat / 262144 + 0xF0) = some (3, c.toNat / 262144) := by
      rw [leading?, if_neg (by omega), if_neg (by omega), if_pos (by omega), Nat.add_sub_cancel]
    have hb : (secondBounds (c.toNat / 262144 + 0xF0)).1 ≤ c.toNat / 4096 % 64 + 0x80 ∧
        c.toNat / 4096 % 64 + 0x80 ≤ (secondBounds (c.toNat / 262144 + 0xF0)).2 := by
      unfold secondBounds
      split_ifs <;> omega
    have ht : takeContinuation 3 (secondBounds (c.toNat / 262144 + 0xF0))
        ([c.toNat / 4096 % 64 + 0x80, c.toNat / 64 % 64 + 0x80, c.toNat % 64 + 0x80] ++ rest) =
          ([c.toNat / 4096 % 64 + 0x80, c.toNat / 64 % 64 + 0x80, c.toNat % 64 + 0x80], rest) := by
      rw [List.cons_append, List.cons_append, List.singleton_append, takeContinuation_succ hb,
        takeContinuation_succ (by simp only; omega), takeContinuation_succ (by simp only; omega),
        takeContinuation_zero]
    rw [List.cons_append, decodeChars_leading (by omega) hl ht rfl]
    have hv : 64 * (64 * (64 * (c.toNat / 262144) + c.toNat / 4096 % 64) + c.toNat / 64 % 64) +
        c.toNat % 64 = c.toNat := by
      omega
    simp [hv, Char.ofNat_toNat]

/-- A text is read back from its bytes. -/
theorem decodeLossy_encode (text : String) : decodeLossy (encode text) = text := by
  have h : ∀ chars : List Char,
      decodeChars ((chars.flatMap String.utf8EncodeChar).map UInt8.toNat) = chars := by
    intro chars
    induction chars with
    | nil => simp [decodeChars]
    | cons c rest ih =>
      rw [List.flatMap_cons, List.map_append, decodeChars_encodeChar_append, ih]
  rw [decodeLossy, encode, h, String.ofList_toList]

theorem length_encode_eq_size (text : String) : (encode text).length = size text := by
  rw [encode, List.length_map, size, ← String.size_toByteArray, ← String.utf8Encode_toList]
  simp [List.utf8Encode]

theorem lt_of_mem_encode {text : String} {b : Nat} (h : b ∈ encode text) : b < 256 := by
  obtain ⟨byte, -, rfl⟩ := List.mem_map.1 h
  exact byte.toNat_lt

/-- Only the zero character has a zero byte. -/
theorem zero_mem_encode_iff {text : String} : 0 ∈ encode text ↔ '\x00' ∈ text.toList := by
  have key : ∀ c : Char, 0 ∈ (String.utf8EncodeChar c).map UInt8.toNat ↔ c = '\x00' := by
    intro c
    have hz : c = '\x00' ↔ c.toNat = 0 := by
      constructor
      · rintro rfl
        rfl
      · intro h
        rw [← Char.ofNat_toNat c, h]
    rw [map_utf8EncodeChar, hz]
    split_ifs <;> simp only [List.mem_cons, List.not_mem_nil, or_false] <;> omega
  rw [encode, List.map_flatMap, List.mem_flatMap]
  simp [key]

/-- A text of characters below 128 is its own bytes. -/
theorem encode_of_ascii {text : String} (h : ∀ c ∈ text.toList, c.toNat < 128) :
    encode text = text.toList.map Char.toNat := by
  rw [encode, List.map_flatMap, List.map_eq_flatMap, List.flatMap_def, List.flatMap_def]
  refine congrArg List.flatten (List.map_congr_left fun c hc => ?_)
  have := h c hc
  rw [map_utf8EncodeChar, if_pos (by omega)]

/-- A character has one byte exactly if it is below 128. -/
theorem length_map_utf8EncodeChar (c : Char) :
    1 ≤ ((String.utf8EncodeChar c).map UInt8.toNat).length ∧
      (((String.utf8EncodeChar c).map UInt8.toNat).length = 1 → c.toNat < 128) := by
  rw [map_utf8EncodeChar]
  split_ifs with h
  · exact ⟨Nat.le_refl 1, fun _ => by omega⟩
  all_goals simp

theorem length_le_length_bytes (chars : List Char) :
    chars.length ≤ (chars.flatMap fun c => (String.utf8EncodeChar c).map UInt8.toNat).length := by
  induction chars with
  | nil => simp
  | cons c rest ih =>
    have := (length_map_utf8EncodeChar c).1
    rw [List.flatMap_cons, List.length_append, List.length_cons]
    omega

/-- A text with a character from 128 on has more bytes than characters. -/
theorem lt_of_length_encode {text : String} (h : (encode text).length = text.toList.length) :
    ∀ c ∈ text.toList, c.toNat < 128 := by
  rw [encode, List.map_flatMap] at h
  generalize text.toList = chars at h ⊢
  induction chars with
  | nil => simp
  | cons c rest ih =>
    rw [List.flatMap_cons, List.length_append, List.length_cons] at h
    obtain ⟨hpos, hone⟩ := length_map_utf8EncodeChar c
    have hrest := length_le_length_bytes rest
    rw [List.forall_mem_cons]
    exact ⟨hone (by omega), ih (by omega)⟩

end Utf8

end FieldAutomation
