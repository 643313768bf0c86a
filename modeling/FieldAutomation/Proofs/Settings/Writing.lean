import FieldAutomation.Proofs.Settings.Defaults
import FieldAutomation.Proofs.Text.Numerals
import Mathlib.Data.List.Basic

/-!
# Settings as text

Settings are written as a document: a header for each section and a line for each entry.  Reading
the document gives the settings back, and what it does not mention has its default.

* `quoted`, `keyChars`, `Plain.chars`: strings, keys and values as they are written;
* `Line`: a line of a document with sections;
* `Sections.text`: the document of sections.

The readers are followed piece by piece, and each lemma says what is read off the front of a text
and what is left.  Where the grammar tries several readers, those before the right one fail on the
first character that is not theirs.

Main statements: `statements_chars` (lines are read as they were written), `Settings.load_text`
(a file gives the settings that it states), `Settings.load_text_sections` (settings that are
written out are read back), `Settings.load_empty` (an empty file gives the defaults).
-/

namespace FieldAutomation

-- Powers are those of the core library, whatever else is in scope.
attribute [local instance (high)] instPowNat

namespace Toml

open Reader

/-! ### First characters -/

/-- A character of a class is none outside it. -/
theorem ne_of_class {p : Char → Bool} {c d : Char} (hc : p c = true) (hd : p d = false) :
    c ≠ d := by
  rintro rfl
  exact Bool.false_ne_true (hd ▸ hc)

theorem isBlank_of_class {p : Char → Bool} {c : Char} (hc : p c = true) (hspace : p ' ' = false)
    (htab : p '\t' = false) : isBlank c = false := by
  simp [isBlank, ne_of_class hc hspace, ne_of_class hc htab]

theorem blank_of_head {cs : List Char} (h : ∀ c ∈ cs.head?, isBlank c = false) :
    blank cs = some ((), cs) := by
  have hrun : run isBlank ([] ++ cs) = some ([], cs) := run_append (by simp) h
  rw [List.nil_append] at hrun
  simp [blank, hrun]

theorem blank_space {cs : List Char} (h : ∀ c ∈ cs.head?, isBlank c = false) :
    blank (' ' :: cs) = some ((), cs) := by
  have hrun : run isBlank ([' '] ++ cs) = some ([' '], cs) :=
    run_append (by simp [isBlank]) h
  rw [List.singleton_append] at hrun
  simp [blank, hrun]

/-! ### Escapes -/

/-- The last `k` hexadecimal digits of a number. -/
def hexDigits : Nat → Nat → List Char
  | 0, _ => []
  | k + 1, n => hexDigits k (n / 16) ++ [(n % 16).digitChar]

theorem hexDigit?_digitChar {d : Nat} (h : d < 16) : hexDigit? d.digitChar = some d := by
  have hall : ∀ d < 16, hexDigit? d.digitChar = some d := by decide
  exact hall d h

theorem isHexDigit_of_mem_hexDigits {k n : Nat} {c : Char} (h : c ∈ hexDigits k n) :
    isHexDigit c = true := by
  induction k generalizing n with
  | zero => cases h
  | succ k ih =>
    obtain h | h := List.mem_append.1 h
    · exact ih h
    · rw [List.mem_singleton.1 h, isHexDigit, hexDigit?_digitChar (Nat.mod_lt _ (by decide))]
      rfl

@[simp] theorem length_hexDigits (k n : Nat) : (hexDigits k n).length = k := by
  induction k generalizing n with
  | zero => rfl
  | succ k ih => simp [hexDigits, ih]

theorem digitsValue_hexDigits (k n : Nat) : digitsValue 16 (hexDigits k n) = n % 16 ^ k := by
  induction k generalizing n with
  | zero => simp [hexDigits, digitsValue, Nat.mod_one]
  | succ k ih =>
    have hlast := hexDigit?_digitChar (Nat.mod_lt n (show 0 < 16 by decide))
    have hfront := ih (n / 16)
    rw [digitsValue] at hfront ⊢
    rw [hexDigits, List.foldl_append, hfront, List.foldl_cons, List.foldl_nil, hlast,
      Option.getD_some, Nat.pow_succ', Nat.mod_mul]
    omega

theorem exactly_append {p : Char → Bool} {text : List Char} (h : ∀ c ∈ text, p c = true)
    (rest : List Char) : exactly p text.length (text ++ rest) = some (text, rest) := by
  induction text with
  | nil => rfl
  | cons c text ih =>
    obtain ⟨hc, htext⟩ := List.forall_mem_cons.1 h
    simp [exactly, hc, ih htext]

theorem ofNatAux_of_eq {c : Char} {n : Nat} (hn : n.isValidChar) (h : n = c.toNat) :
    Char.ofNatAux n hn = c := by
  subst h
  rfl

theorem codePoint_hexDigits (c : Char) (rest : List Char) :
    codePoint 8 (hexDigits 8 c.toNat ++ rest) = some (c, rest) := by
  have hread := exactly_append (fun _ => isHexDigit_of_mem_hexDigits (k := 8) (n := c.toNat)) rest
  have hvalue : digitsValue 16 (hexDigits 8 c.toNat) = c.toNat := by
    rw [digitsValue_hexDigits, Nat.mod_eq_of_lt]
    have := c.val.toNat_lt
    exact this
  have hvalid : (digitsValue 16 (hexDigits 8 c.toNat)).isValidChar := by
    rw [hvalue]
    exact c.valid
  rw [length_hexDigits] at hread
  rw [codePoint, bind_apply, hread, Option.bind_some]
  dsimp only
  rw [dif_pos hvalid, ofNatAux_of_eq hvalid hvalue, pure_apply]

/-! ### Strings -/

/-- A character as it stands in a string with escapes. -/
def escaped (c : Char) : List Char :=
  if isBasic c then [c] else '\\' :: 'U' :: hexDigits 8 c.toNat

/-- A string of one line with escapes. -/
def quoted (s : String) : List Char := '"' :: (s.toList.flatMap escaped ++ ['"'])

theorem escaped_ne_nil (c : Char) : escaped c ≠ [] := by
  unfold escaped
  split <;> simp

theorem read_escaped (c : Char) (rest : List Char) :
    (satisfy isBasic <|> escape) (escaped c ++ rest) = some (c, rest) := by
  by_cases h : isBasic c
  · simp [escaped, h]
  · have hmark : isBasic '\\' = false := by decide
    simp [escaped, h, hmark, escape, codePoint_hexDigits]

theorem basicString_quoted (s : String) (rest : List Char) :
    basicString (quoted s ++ rest) = some (s.toList, rest) := by
  have hstop : (satisfy isBasic <|> escape) ('"' :: rest) = none := by
    have hquote : isBasic '"' = false := by decide
    simp [hquote, escape]
  have hmany : many (satisfy isBasic <|> escape) (s.toList.flatMap escaped ++ '"' :: rest) =
      some (s.toList.map id, '"' :: rest) :=
    many_flatMap (q := fun _ => True) (fun c _ rest _ => read_escaped c rest)
      (fun _ _ => trivial) escaped_ne_nil trivial hstop
  simp [basicString, quoted, hmany]

/-- One quote opens a string; three would open one over several lines. -/
theorem literal_quoted (s : String) (rest : List Char) :
    literal ['"', '"', '"'] (quoted s ++ '\n' :: rest) = none := by
  cases h : s.toList with
  | nil => simp [quoted, h]
  | cons c cs =>
    by_cases hc : isBasic c
    · have hne : c ≠ '"' := by rintro rfl; exact absurd hc (by decide)
      simp [quoted, h, escaped, hc, hne]
    · simp [quoted, h, escaped, hc]

theorem text_quoted (s : String) (rest : List Char) :
    text (quoted s ++ '\n' :: rest) = some (s, '\n' :: rest) := by
  have hmulti : multiline '"' basicPiece (quoted s ++ '\n' :: rest) = none := by
    rw [multiline, bind_apply, literal_quoted]
    rfl
  simp [text, hmulti, basicString_quoted]

/-- Other values do not begin with a quote. -/
theorem text_eq_none {c : Char} (h : c ≠ '"') (h' : c ≠ '\'') (rest : List Char) :
    text (c :: rest) = none := by
  have hmulti (quote : Char) (piece : Reader (List Char)) (hq : c ≠ quote) :
      multiline quote piece (c :: rest) = none := by
    simp [multiline, hq]
  simp [text, hmulti _ _ h, hmulti _ _ h', basicString, literalString, h, h']

/-! ### Numbers -/

section

open Numeral

theorem hexDigit?_of_mem_digits {c : Char} (h : c ∈ Numeral.digits) :
    hexDigit? c = some (digitValue c) := by
  have hall : Numeral.digits.all (fun c => hexDigit? c == some (digitValue c)) = true := by decide
  simpa using List.all_eq_true.1 hall c h

theorem digitsValue_eq_value {text : List Char} (base : Nat) (h : ∀ c ∈ text, c ∈ Numeral.digits) :
    digitsValue base text = Numeral.value base text :=
  List.foldl_ext _ _ 0 fun n c hc => by
    rw [hexDigit?_of_mem_digits (h c hc), Option.getD_some]

theorem isDigit_of_mem {c : Char} (h : Numeral.IsDigit 10 c) : isDigit c = true := by
  have hall : Numeral.digits.all (fun c => decide (digitValue c < 10 → isDigit c)) = true := by
    decide
  have := List.all_eq_true.1 hall c h.1
  exact of_decide_eq_true this h.2

variable {text : List Char}

/-- What stands where a row of digits is cut, or behind it. -/
theorem exactly_isDigit (h : ∀ c ∈ text, isDigit c = true) (n : Nat) (rest : List Char) :
    exactly isDigit n (text ++ '\n' :: rest) =
      if n ≤ text.length then some (text.take n, text.drop n ++ '\n' :: rest) else none := by
  induction n generalizing text with
  | zero => simp [exactly]
  | succ n ih =>
    cases text with
    | nil =>
      have hend : isDigit '\n' = false := by decide
      simp [exactly, hend]
    | cons c text =>
      obtain ⟨hc, htext⟩ := List.forall_mem_cons.1 h
      by_cases hn : n ≤ text.length <;> simp [exactly, hc, ih htext, hn]

/-- A number of a date or a time is followed by a sign that a row of digits does not have. -/
theorem char_drop_eq_none {sign : Char} (h : ∀ c ∈ text, isDigit c = true)
    (hs : isDigit sign = false) (hs' : sign ≠ '\n') (n : Nat) (rest : List Char) :
    char sign (text.drop n ++ '\n' :: rest) = none := by
  cases hd : text.drop n with
  | nil => simp [Ne.symm hs']
  | cons c more =>
    have hc : isDigit c = true := h c (List.mem_of_mem_drop (hd ▸ List.mem_cons_self))
    simp [ne_of_class hc hs]

theorem numberIn_eq_none {α : Type} {sign : Char} (h : ∀ c ∈ text, isDigit c = true)
    (hs : isDigit sign = false) (hs' : sign ≠ '\n') (n low high : Nat) (next : Nat → Reader α)
    (rest : List Char) :
    (do let value ← numberIn n low high; char sign; next value) (text ++ '\n' :: rest) = none := by
  simp only [numberIn, bind_apply, exactly_isDigit h]
  split
  · rw [Option.bind_some]
    split <;> simp [char_drop_eq_none h hs hs']
  · rfl

theorem dateTime_eq_none (h : ∀ c ∈ text, isDigit c = true) (rest : List Char) :
    dateTime (text ++ '\n' :: rest) = none := by
  have hdate : date (text ++ '\n' :: rest) = none :=
    numberIn_eq_none h (by decide) (by decide) ..
  have htime : timeOfDay (text ++ '\n' :: rest) = none :=
    numberIn_eq_none h (by decide) (by decide) ..
  simp [dateTime, hdate, htime]

theorem isDigit_of_isNumeral {n : Nat} (h : IsNumeral 10 n text) :
    ∀ c ∈ text, isDigit c = true := fun c hc => isDigit_of_mem (h.digit c hc)

theorem wholeDigits_of_isNumeral {n : Nat} (h : IsNumeral 10 n text) (rest : List Char) :
    wholeDigits (text ++ '\n' :: rest) = some (text, '\n' :: rest) := by
  obtain ⟨c, more, rfl⟩ := List.exists_cons_of_ne_nil h.ne_nil
  obtain ⟨hc, hmore⟩ := List.forall_mem_cons.1 (isDigit_of_isNumeral h)
  by_cases hzero : c = '0'
  · obtain rfl : more = [] := by simpa [hzero] using h.leading
    simp [wholeDigits, hzero, hzero ▸ hc]
  · have hend : isDigit '\n' = false := by decide
    have hmany : many (satisfy isDigit <|> (do char '_'; satisfy isDigit))
        (more ++ '\n' :: rest) = some (more, '\n' :: rest) :=
      many_append (fun c hc rest => by simp [hmore c hc]) (by simp [hend])
    simp [wholeDigits, hc, hzero, hmany]

theorem minus_of_isDigit {c : Char} (hc : isDigit c = true) (rest : List Char) :
    minus (c :: rest) = some (false, c :: rest) := by
  have hdash := ne_of_class hc (d := '-') (by decide)
  have hplus := ne_of_class hc (d := '+') (by decide)
  simp [minus, hdash, hplus]

theorem boolean_eq_none {c : Char} (hc : isDigit c = true) (rest : List Char) :
    boolean (c :: rest) = none := by
  have ht := ne_of_class hc (d := 't') (by decide)
  have hf := ne_of_class hc (d := 'f') (by decide)
  simp [boolean, ht, hf]

theorem specialFloat_eq_none {c : Char} (hc : isDigit c = true) (rest : List Char) :
    specialFloat (c :: rest) = none := by
  have hi := ne_of_class hc (d := 'i') (by decide)
  have hn := ne_of_class hc (d := 'n') (by decide)
  simp [specialFloat, minus_of_isDigit hc, hi, hn]

theorem decimalFloat_eq_none {n : Nat} (h : IsNumeral 10 n text) (rest : List Char) :
    decimalFloat (text ++ '\n' :: rest) = none := by
  have hwhole := wholeDigits_of_isNumeral h rest
  obtain ⟨c, more, rfl⟩ := List.exists_cons_of_ne_nil h.ne_nil
  have hc := isDigit_of_isNumeral h c List.mem_cons_self
  rw [List.cons_append] at hwhole ⊢
  simp [decimalFloat, minus_of_isDigit hc, hwhole, exponentPart]

/-- The mark of a base would follow a zero, and nothing follows a zero. -/
theorem radixInteger_eq_none {n : Nat} (h : IsNumeral 10 n text) {mark : Char} (hmark : mark ≠ '\n')
    (base : Nat) (rest : List Char) : radixInteger mark base (text ++ '\n' :: rest) = none := by
  have hleading := h.leading
  obtain ⟨c, more, rfl⟩ := List.exists_cons_of_ne_nil h.ne_nil
  by_cases hzero : c = '0'
  · obtain rfl : more = [] := by simpa [hzero] using hleading
    simp [radixInteger, hzero, Ne.symm hmark]
  · simp [radixInteger, hzero]

theorem decimalInteger_of_isNumeral {n : Nat} (h : IsNumeral 10 n text)
    (hn : (n : Int) ≤ Int64.maxValue.toInt) (rest : List Char) :
    decimalInteger (text ++ '\n' :: rest) = some (.integer n, '\n' :: rest) := by
  have hwhole := wholeDigits_of_isNumeral h rest
  have hvalue : digitsValue 10 text = n := by
    rw [digitsValue_eq_value 10 fun c hc => (h.digit c hc).1, h.value]
  have hmin : Int64.minValue.toInt ≤ (n : Int) :=
    Int.le_trans (b := 0) (by decide) (Int.natCast_nonneg n)
  have hbounded : bounded n = pure (.integer n) := if_pos ⟨hmin, hn⟩
  obtain ⟨c, more, rfl⟩ := List.exists_cons_of_ne_nil h.ne_nil
  have hc := isDigit_of_isNumeral h c List.mem_cons_self
  rw [List.cons_append] at hwhole ⊢
  simp [decimalInteger, minus_of_isDigit hc, hwhole, hvalue, hbounded]

theorem scalar_toDigits {n : Nat} (hn : (n : Int) ≤ Int64.maxValue.toInt) (rest : List Char) :
    scalar (Nat.toDigits 10 n ++ '\n' :: rest) = some (.integer n, '\n' :: rest) := by
  have h := isNumeral_toDigits (show 1 < 10 by decide) (by decide) n
  generalize Nat.toDigits 10 n = text at h
  have hdate := dateTime_eq_none (isDigit_of_isNumeral h) rest
  have hfloat := decimalFloat_eq_none h rest
  have hradix (mark : Char) (hmark : mark ≠ '\n') (base : Nat) :=
    radixInteger_eq_none h hmark base rest
  have hinteger := decimalInteger_of_isNumeral h hn rest
  obtain ⟨c, more, rfl⟩ := List.exists_cons_of_ne_nil h.ne_nil
  have hc := isDigit_of_isNumeral h c List.mem_cons_self
  have htext : text (c :: (more ++ '\n' :: rest)) = none :=
    text_eq_none (ne_of_class hc (by decide)) (ne_of_class hc (by decide)) _
  rw [List.cons_append] at hdate hfloat hinteger ⊢
  simp only [List.cons_append] at hradix
  simp [scalar, htext, boolean_eq_none hc, hdate, hfloat, specialFloat_eq_none hc, integer, hradix,
    hinteger]

end

/-! ### Lines -/

theorem scalar_boolean (b : Bool) (rest : List Char) :
    scalar ((if b then "true" else "false").toList ++ rest) = some (.boolean b, rest) := by
  have htext (c : Char) (hc : c = 't' ∨ c = 'f') (rest : List Char) : text (c :: rest) = none := by
    obtain rfl | rfl := hc <;> exact text_eq_none (by decide) (by decide) rest
  cases b <;> simp [scalar, htext, boolean]

end Toml

open Toml

namespace Plain

/-- As it is written. -/
def chars : Plain → List Char
  | boolean b => (if b then "true" else "false").toList
  | number n => Nat.toDigits 10 n
  | text s => quoted s

/-- Whether the value can be written; integers have 64 bits with sign. -/
def Fits : Plain → Prop
  | number n => (n : Int) ≤ Int64.maxValue.toInt
  | _ => True

@[simp] theorem fits_boolean (b : Bool) : (boolean b).Fits := trivial

@[simp] theorem fits_number (n : Nat) :
    (number n).Fits ↔ (n : Int) ≤ Int64.maxValue.toInt := Iff.rfl

@[simp] theorem fits_text (s : String) : (text s).Fits := trivial

@[simp] theorem fits_keyword {α : Type} [Keyword α] (a : α) : (keyword a).Fits := trivial

theorem scalar_chars {v : Plain} (h : v.Fits) (rest : List Char) :
    scalar (v.chars ++ '\n' :: rest) = some (v.value, '\n' :: rest) := by
  cases v with
  | boolean b => exact scalar_boolean b _
  | number n => exact scalar_toDigits h rest
  | text s => simp [scalar, chars, text_quoted, value]

theorem head_chars (v : Plain) : ∃ c more, v.chars = c :: more ∧ isBlank c = false := by
  cases v with
  | boolean b => cases b <;> exact ⟨_, _, rfl, by decide⟩
  | number n =>
    have h := isNumeral_toDigits (show 1 < 10 by decide) (by decide) n
    obtain ⟨c, more, hcons⟩ := List.exists_cons_of_ne_nil h.ne_nil
    have hc := isDigit_of_isNumeral h c (hcons ▸ List.mem_cons_self)
    exact ⟨c, more, hcons, isBlank_of_class hc (by decide) (by decide)⟩
  | text s => exact ⟨_, _, rfl, by decide⟩

end Plain

namespace Toml

open Reader

/-- A key as it is written: bare where it can be. -/
def keyChars (name : String) : List Char :=
  if name.toList ≠ [] ∧ name.toList.all isBareKey then name.toList else quoted name

/-- The first character of a key. -/
def startsKey (c : Char) : Bool := isBareKey c || c == '"'

theorem head_keyChars (name : String) :
    ∃ c more, keyChars name = c :: more ∧ startsKey c = true := by
  unfold keyChars
  split
  · next h =>
    obtain ⟨c, more, hcons⟩ := List.exists_cons_of_ne_nil h.1
    have hc : isBareKey c = true := List.all_eq_true.1 h.2 c (hcons ▸ List.mem_cons_self)
    exact ⟨c, more, hcons, by simp [startsKey, hc]⟩
  · exact ⟨_, _, rfl, by decide⟩

theorem key_keyChars (name : String) {rest : List Char}
    (hrest : ∀ c ∈ rest.head?, isBareKey c = false) :
    key (keyChars name ++ rest) = some (name, rest) := by
  unfold keyChars
  split
  · next h =>
    have hrun := run1_append h.1 (List.all_eq_true.1 h.2) hrest
    obtain ⟨c, more, hcons⟩ := List.exists_cons_of_ne_nil h.1
    have hc : isBareKey c = true := List.all_eq_true.1 h.2 c (hcons ▸ List.mem_cons_self)
    have hquote := ne_of_class hc (d := '"') (by decide)
    have hquote' := ne_of_class hc (d := '\'') (by decide)
    have hbasic : basicString (name.toList ++ rest) = none := by
      simp [hcons, basicString, hquote]
    have hliteral : literalString (name.toList ++ rest) = none := by
      simp [hcons, literalString, hquote']
    simp [key, hbasic, hliteral, hrun]
  · simp [key, basicString_quoted]

/-- A key alone, which a blank may follow. -/
theorem pathAndKey_keyChars (name : String) {after rest : List Char}
    (hafter : ∀ c ∈ after.head?, isBareKey c = false) (hblank : blank after = some ((), rest))
    (hdot : char '.' rest = none) :
    pathAndKey (keyChars name ++ after) = some (([], name), rest) := by
  obtain ⟨c, more, hcons, hc⟩ := head_keyChars name
  have hfront : blank (keyChars name ++ after) = some ((), keyChars name ++ after) :=
    blank_of_head (by simp [hcons, isBlank_of_class hc (by decide) (by decide)])
  have hone : separated (do blank; let k ← key; blank; return k) (char '.')
      (keyChars name ++ after) = some ([name], rest) :=
    separated_one (by simp [hfront, key_keyChars name hafter, hblank]) hdot
  have hpath : keyPath (keyChars name ++ after) = some ([name], rest) := by
    rw [keyPath, bind_apply, hone]
    simp [depthLimit]
  simp [pathAndKey, hpath]

/-- A line of a document with sections. -/
inductive Line where
  | header (name : String)
  | pair (key : String) (v : Plain)

namespace Line

/-- What the line defines. -/
def statement : Line → Statement
  | header name => .header [] name
  | pair key v => .pair ⟨[], key, v.value⟩

/-- The line as it is written. -/
def chars : Line → List Char
  | header name => '[' :: (keyChars name ++ [']', '\n'])
  | pair key v => keyChars key ++ (' ' :: '=' :: ' ' :: (v.chars ++ ['\n']))

/-- Whether the line can be written. -/
def Fits : Line → Prop
  | header _ => True
  | pair _ v => v.Fits

end Line

theorem lineRest_newline (rest : List Char) : lineRest ('\n' :: rest) = some ((), rest) := by
  have hblank : blank ('\n' :: rest) = some ((), '\n' :: rest) := blank_of_head (by simp [isBlank])
  simp [lineRest, hblank, maybe, comment, lineEnd, newline]

theorem headerLine_header (name : String) (rest : List Char) :
    headerLine ((Line.header name).chars ++ rest) = some (.header [] name, rest) := by
  obtain ⟨c, more, hcons, hc⟩ := head_keyChars name
  have hopen := ne_of_class hc (d := '[') (by decide)
  have hkey : pathAndKey (keyChars name ++ ']' :: '\n' :: rest) =
      some (([], name), ']' :: '\n' :: rest) :=
    pathAndKey_keyChars name (fun c hc => by cases hc; decide)
      (blank_of_head (fun c hc => by cases hc; decide)) (by simp)
  have hone : literal ['[', '['] ('[' :: (keyChars name ++ ']' :: '\n' :: rest)) = none := by
    simp [hcons, hopen]
  simp [headerLine, Line.chars, hkey, hone, lineRest_newline]

theorem headerLine_pair (key : String) (v : Plain) (rest : List Char) :
    headerLine ((Line.pair key v).chars ++ rest) = none := by
  obtain ⟨c, more, hcons, hc⟩ := head_keyChars key
  have hopen := ne_of_class hc (d := '[') (by decide)
  simp [headerLine, Line.chars, hcons, hopen]

theorem value_of_scalar {cs rest : List Char} {v : Value} (h : scalar cs = some (v, rest))
    (depth : Nat) : value depth cs = some (v, rest) := by
  cases depth <;> simp [value, h]

theorem pairLine_pair (key : String) {v : Plain} (h : v.Fits) (rest : List Char) :
    pairLine ((Line.pair key v).chars ++ rest) = some (.pair ⟨[], key, v.value⟩, rest) := by
  obtain ⟨c, more, hcons, hc⟩ := v.head_chars
  have hspace : blank (' ' :: (v.chars ++ '\n' :: rest)) = some ((), v.chars ++ '\n' :: rest) :=
    blank_space (by simp [hcons, hc])
  have hkey : pathAndKey (keyChars key ++ ' ' :: '=' :: ' ' :: (v.chars ++ '\n' :: rest)) =
      some (([], key), '=' :: ' ' :: (v.chars ++ '\n' :: rest)) :=
    pathAndKey_keyChars key (fun c hc => by cases hc; decide)
      (blank_space (fun c hc => by cases hc; decide)) (by simp)
  have hvalue := value_of_scalar (v.scalar_chars h rest) (depthLimit - 1)
  simp [pairLine, pair, Line.chars, hkey, hspace, hvalue, lineRest_newline]

/-- The first character of a line. -/
def startsLine (c : Char) : Bool := startsKey c || c == '['

theorem Line.head_chars (l : Line) : ∃ c more, l.chars = c :: more ∧ startsLine c = true := by
  cases l with
  | header name => exact ⟨_, _, rfl, by decide⟩
  | pair key v =>
    obtain ⟨c, more, hcons, hc⟩ := head_keyChars key
    refine ⟨c, more ++ (' ' :: '=' :: ' ' :: (v.chars ++ ['\n'])), ?_, by simp [startsLine, hc]⟩
    rw [Line.chars, hcons, List.cons_append]

theorem isBlank_of_startsLine {c : Char} (hc : startsLine c = true) : isBlank c = false :=
  isBlank_of_class hc (by decide) (by decide)

theorem line_chars {l : Line} (h : l.Fits) {rest : List Char}
    (hrest : ∀ c ∈ rest.head?, isBlank c = false) :
    line (l.chars ++ rest) = some (some l.statement, rest) := by
  have hend := blank_of_head hrest
  obtain ⟨c, more, hcons, hc⟩ := l.head_chars
  have hcomment : comment (l.chars ++ rest) = none := by
    simp [comment, hcons, ne_of_class hc (d := '#') (by decide)]
  have hnewline : newline (l.chars ++ rest) = none := by
    simp [newline, hcons, ne_of_class hc (d := '\n') (by decide),
      ne_of_class hc (d := '\r') (by decide)]
  cases l with
  | header name =>
    simp [line, hcomment, hnewline, headerLine_header, hend, Line.statement]
  | pair key v =>
    simp [line, hcomment, hnewline, headerLine_pair, pairLine_pair key h, hend, Line.statement]

theorem line_nil : line [] = none := by
  have hblank : blank [] = some ((), []) := rfl
  have hkey : key [] = none := rfl
  have hpath : pathAndKey [] = none := by
    simp [pathAndKey, keyPath, separated, hblank, hkey]
  simp [line, comment, newline, headerLine, pairLine, pair, hpath]

theorem head_lines (lines : List Line) :
    ∀ c ∈ (lines.flatMap Line.chars).head?, startsLine c = true := by
  cases lines with
  | nil => simp
  | cons l lines =>
    obtain ⟨c, more, hcons, hc⟩ := l.head_chars
    simp [hcons, hc]

/-- A text of lines has no byte order mark. -/
theorem maybe_mark (lines : List Line) :
    maybe (char '\ufeff') (lines.flatMap Line.chars) = some (none, lines.flatMap Line.chars) := by
  have hhead := head_lines lines
  generalize lines.flatMap Line.chars = cs at hhead
  cases cs with
  | nil => simp [maybe]
  | cons c more => simp [maybe, ne_of_class (hhead c rfl) (d := '\ufeff') (by decide)]

/-- **Lines are read as they were written.** -/
theorem statements_chars {lines : List Line} (h : ∀ l ∈ lines, l.Fits) :
    statements (lines.flatMap Line.chars) = some (lines.map Line.statement, []) := by
  have hblank : blank (lines.flatMap Line.chars) = some ((), lines.flatMap Line.chars) :=
    blank_of_head fun c hc => isBlank_of_startsLine (head_lines lines c hc)
  -- what follows a line is another line or the end of the text, and neither begins with a blank
  have hmany : many line (lines.flatMap Line.chars ++ []) =
      some (lines.map (some ·.statement), []) := by
    apply many_flatMap (q := fun rest => ∀ c ∈ rest.head?, isBlank c = false)
    · exact fun l hl rest hrest => line_chars (h l hl) hrest
    · intro l rest
      obtain ⟨c, more, hcons, hc⟩ := l.head_chars
      simp [hcons, isBlank_of_startsLine hc]
    · intro l
      obtain ⟨c, more, hcons, -⟩ := l.head_chars
      simp [hcons]
    · simp
    · exact line_nil
  rw [List.append_nil] at hmany
  simp [statements, maybe_mark, hblank, hmany, atEnd]

end Toml

namespace Sections

/-- The lines of sections, one after the other. -/
def lines (sections : Sections) : List Line :=
  sections.flatMap fun s => .header s.1 :: s.2.map fun e => .pair e.1 e.2

/-- Sections as they are written: a header, and a line for each entry. -/
def text (sections : Sections) : String := String.ofList (sections.lines.flatMap Line.chars)

/-- Whether all values can be written. -/
def Fit (sections : Sections) : Prop := ∀ s ∈ sections, ∀ e ∈ s.2, e.2.Fits

theorem fits_of_mem_lines {sections : Sections} (h : sections.Fit) {l : Line}
    (hl : l ∈ sections.lines) : l.Fits := by
  obtain ⟨s, hs, hl⟩ := List.mem_flatMap.1 hl
  obtain rfl | hl := List.mem_cons.1 hl
  · trivial
  · obtain ⟨e, he, rfl⟩ := List.mem_map.1 hl
    exact h s hs e he

theorem map_statement_lines (sections : Sections) :
    sections.lines.map Line.statement = Document.ofSections sections.tables := by
  simp [lines, Document.ofSections, tables, List.map_flatMap, List.flatMap_map, pairsOf,
    Entries.table, Line.statement, Function.comp_def]

/-- A text of sections is a document. -/
theorem parse_text {sections : Sections} (h : sections.Fit) :
    Document.parse sections.text = Document.assemble (Document.ofSections sections.tables) := by
  have hread := statements_chars fun l => fits_of_mem_lines h (l := l)
  simp [Document.parse, text, hread, map_statement_lines]

end Sections

namespace Settings

/-- **A file gives the settings that it states**; what it leaves out has its default. -/
theorem load_text {s : Settings} {sections : Sections} (hd : sections.Distinct)
    (hf : sections.Fit) (h : s.StatedBy sections) :
    load (some sections.text.toUTF8) = .ok s := by
  have hparse : parse sections.text = .ok s := by
    rw [parse, Sections.parse_text hf, ofTable?_assemble hd h]
  have hbytes : String.fromUTF8? sections.text.toUTF8 = some sections.text :=
    dif_pos sections.text.isValidUTF8
  rw [load, Option.bind_some, hbytes]
  exact hparse

/-- Settings that are written out are read back. -/
theorem load_text_sections (s : Settings)
    (h : (s.comparer.showMax : Int) ≤ Int64.maxValue.toInt) :
    load (some s.sections.text.toUTF8) = .ok s := by
  refine load_text s.distinct_sections ?_ s.statedBy_sections
  simp only [Sections.Fit, sections, PackerSettings.entries, ComparerSettings.entries,
    RecorderSettings.entries, ReportSettings.entries, TranscriptSettings.entries,
    List.forall_mem_cons]
  simp [h]

/-- Every default is taken when nothing is said. -/
theorem load_empty : load (some "".toUTF8) = .ok {} := by
  have hdistinct : Sections.Distinct [] := ⟨.nil, by simp⟩
  exact load_text hdistinct (by simp [Sections.Fit]) statedBy_nil

end Settings

end FieldAutomation
