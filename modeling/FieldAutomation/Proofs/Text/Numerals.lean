import FieldAutomation.Radix

/-!
# Numerals and what they stand for

A numeral is a row of digits, and the number that it stands for is read off its digits.  It is
canonical when it has no leading zero; the number zero is one digit.  Every number has one
canonical numeral in every base, and so has every integer, after a minus sign when it is negative.

* `Numeral.digits`, `Numeral.digitValue`, `Numeral.value`: reading a row of digits;
* `IsNumeral`: the canonical numerals of a number in a base;
* `IsIntegerNumeral`: the canonical decimals of an integer.

Main statements: `isNumeral_iff` and `isIntegerNumeral_iff` (there is one of them, and it is the
one that is written).
-/

namespace FieldAutomation

namespace Numeral

/-- The digits of all bases up to sixteen, in order. -/
def digits : List Char :=
  ['0', '1', '2', '3', '4', '5', '6', '7', '8', '9', 'a', 'b', 'c', 'd', 'e', 'f']

/-- The number that a digit stands for. -/
def digitValue (c : Char) : Nat := digits.idxOf c

/-- The number that a row of digits stands for in a base, the most significant digit first. -/
def value (base : Nat) (text : List Char) : Nat :=
  text.foldl (fun n c => base * n + digitValue c) 0

/-- The digits of a base. -/
def IsDigit (base : Nat) (c : Char) : Prop := c ∈ digits ∧ digitValue c < base

theorem digitChar_digitValue {c : Char} (h : c ∈ digits) : (digitValue c).digitChar = c := by
  have hall : digits.all (fun c => (digitValue c).digitChar == c) = true := rfl
  simpa using List.all_eq_true.1 hall c h

theorem digitValue_digitChar {d : Nat} (h : d < 16) :
    d.digitChar ∈ digits ∧ digitValue d.digitChar = d := by
  have hall : ∀ d < 16, d.digitChar ∈ digits ∧ digitValue d.digitChar = d := by decide
  exact hall d h

theorem value_zero (base : Nat) : value base ['0'] = 0 := by
  simp [value, digitValue, digits]

theorem value_append_singleton (base : Nat) (text : List Char) (c : Char) :
    value base (text ++ [c]) = base * value base text + digitValue c := by
  simp [value]

end Numeral

open Numeral

/-- `text` is a canonical numeral of `n` in a base. -/
structure IsNumeral (base n : Nat) (text : List Char) : Prop where
  ne_nil : text ≠ []
  digit : ∀ c ∈ text, IsDigit base c
  /-- Nothing follows a zero at the front. -/
  leading : text.head? = some '0' → text = ['0']
  value : value base text = n

section

variable {base n : Nat} {text : List Char}

/-- What is written is a numeral. -/
theorem isNumeral_toDigits (hb : 1 < base) (hb' : base ≤ 16) (n : Nat) :
    IsNumeral base n (Nat.toDigits base n) := by
  induction n using Nat.strongRecOn with
  | ind n ih =>
    rcases Nat.lt_or_ge n base with hn | hn
    · obtain ⟨hmem, hvalue⟩ := digitValue_digitChar (show n < 16 by omega)
      rw [Nat.toDigits_of_lt_base hn]
      refine ⟨by simp, ?_, ?_, ?_⟩
      · simpa using ⟨hmem, by rw [hvalue]; exact hn⟩
      · simp
      · simp [Numeral.value, hvalue]
    · -- the digits before the last one are those of a smaller number, which is not zero
      have hlt : n % base < base := Nat.mod_lt _ (by omega)
      have hpos : 0 < n / base := Nat.div_pos hn (by omega)
      have hfront := ih (n / base) (Nat.div_lt_self (by omega) hb)
      obtain ⟨hmem, hvalue⟩ := digitValue_digitChar (show n % base < 16 by omega)
      rw [Nat.toDigits_of_base_le hb hn]
      refine ⟨by simp, fun c hc => ?_, fun hhead => ?_, ?_⟩
      · rcases List.mem_append.1 hc with hc | hc
        · exact hfront.digit c hc
        · obtain rfl := List.mem_singleton.1 hc
          exact ⟨hmem, by rw [hvalue]; exact hlt⟩
      · have hfirst : (Nat.toDigits base (n / base)).head? = some '0' := by
          obtain ⟨d, front, hcons⟩ := List.exists_cons_of_ne_nil hfront.ne_nil
          rw [hcons] at hhead ⊢
          exact hhead
        have hzero := hfront.value
        rw [hfront.leading hfirst, value_zero] at hzero
        omega
      · rw [value_append_singleton, hfront.value, hvalue, Nat.div_add_mod]

/-- Digits that follow those of a number are the last digits of a greater one. -/
theorem toDigits_append (hb : 1 < base) {acc : Nat} (hacc : 0 < acc)
    (htext : ∀ c ∈ text, IsDigit base c) :
    Nat.toDigits base acc ++ text =
      Nat.toDigits base (text.foldl (fun n c => base * n + digitValue c) acc) := by
  induction text generalizing acc with
  | nil => simp
  | cons c rest ih =>
    obtain ⟨hmem, hlt⟩ := htext c (by simp)
    have hnext : 0 < base * acc + digitValue c := by
      have := Nat.mul_pos (Nat.lt_trans Nat.one_pos hb) hacc
      omega
    calc Nat.toDigits base acc ++ c :: rest
        = (Nat.toDigits base acc ++ Nat.toDigits base (digitValue c)) ++ rest := by
          rw [Nat.toDigits_of_lt_base hlt, digitChar_digitValue hmem, List.append_assoc,
            List.singleton_append]
      _ = Nat.toDigits base (base * acc + digitValue c) ++ rest := by
          rw [Nat.toDigits_append_toDigits hb hacc hlt]
      _ = _ := ih hnext fun d hd => htext d (by simp [hd])

/-- A canonical numeral is the one that is written. -/
theorem IsNumeral.eq_toDigits (hb : 1 < base) (h : IsNumeral base n text) :
    text = Nat.toDigits base n := by
  obtain ⟨hne, hdigit, hleading, rfl⟩ := h
  cases text with
  | nil => exact absurd rfl hne
  | cons c rest =>
    obtain ⟨hmem, hlt⟩ := hdigit c (by simp)
    by_cases hc : digitValue c = 0
    · have hzero : c = '0' := by rw [← digitChar_digitValue hmem, hc]; rfl
      rw [hleading (by simp [hzero]), value_zero, Nat.toDigits_of_lt_base (by omega)]
      rfl
    · have hrest := toDigits_append hb (Nat.pos_of_ne_zero hc) fun d hd =>
        hdigit d (List.mem_cons_of_mem c hd)
      rw [Nat.toDigits_of_lt_base hlt, digitChar_digitValue hmem] at hrest
      simpa [Numeral.value] using hrest

/-- **Every number has one canonical numeral** in every base, the one that is written. -/
theorem isNumeral_iff (hb : 1 < base) (hb' : base ≤ 16) (n : Nat) (text : String) :
    IsNumeral base n text.toList ↔ text = Radix.numeral base n := by
  rw [Radix.numeral, ← String.toList_inj, String.toList_ofList]
  exact ⟨IsNumeral.eq_toDigits hb, fun h => h ▸ isNumeral_toDigits hb hb' n⟩

end

/-! ### Integers -/

/-- `text` is a canonical decimal of the integer `n`. -/
def IsIntegerNumeral : Int → List Char → Prop
  | .ofNat n, text => IsNumeral 10 n text
  | .negSucc n, text => ∃ magnitude, text = '-' :: magnitude ∧ IsNumeral 10 (n + 1) magnitude

/-- A decimal tells which integer it is of. -/
theorem IsIntegerNumeral.unique {m n : Int} {text : List Char} (h : IsIntegerNumeral m text)
    (h' : IsIntegerNumeral n text) : m = n := by
  -- no numeral starts with a minus sign
  have hminus : ∀ {k : Nat} {magnitude : List Char}, ¬ IsNumeral 10 k ('-' :: magnitude) :=
    fun hk => absurd (hk.digit '-' (by simp)).1 (by decide)
  match m, n with
  | .ofNat m, .ofNat n =>
    obtain rfl : m = n := h.value.symm.trans h'.value
    rfl
  | .ofNat m, .negSucc n =>
    obtain ⟨magnitude, rfl, -⟩ := h'
    exact absurd h hminus
  | .negSucc m, .ofNat n =>
    obtain ⟨magnitude, rfl, -⟩ := h
    exact absurd h' hminus
  | .negSucc m, .negSucc n =>
    obtain ⟨magnitude, rfl, hm⟩ := h
    obtain ⟨magnitude', hcons, hn⟩ := h'
    obtain rfl := (List.cons.inj hcons).2
    have := hm.value.symm.trans hn.value
    rw [Nat.succ.inj this]

/-- **Every integer has one canonical decimal**, the one that is written. -/
theorem isIntegerNumeral_iff (n : Int) (text : String) :
    IsIntegerNumeral n text.toList ↔ text = Radix.integerNumeral n := by
  match n with
  | .ofNat n => exact isNumeral_iff (by decide) (by decide) n text
  | .negSucc n =>
    constructor
    · rintro ⟨magnitude, htext, hm⟩
      have hwritten : String.ofList magnitude = Radix.numeral 10 (n + 1) :=
        (isNumeral_iff (by decide) (by decide) _ _).1 (by rwa [String.toList_ofList])
      rw [Radix.integerNumeral, ← hwritten, ← String.toList_inj, htext]
      simp
    · rintro rfl
      refine ⟨Nat.toDigits 10 (n + 1), ?_, isNumeral_toDigits (by decide) (by decide) _⟩
      simp [Radix.integerNumeral, Radix.numeral]

end FieldAutomation
