import FieldAutomation.Toml.Reader
import FieldAutomation.Toml.Value

/-!
# Strings, numbers and dates of TOML

The values without parts, and the keys.  Text is checked while it is read: an escape has to name
a character, an integer has to fit 64 bits with sign, a date has to be one of the calendar, and a
positive float has to be finite after rounding.

* `blank`, `comment`, `newline`, `lineEnd`: what stands between values;
* `key`, `keyPath`: bare, quoted and dotted keys;
* `text`: strings in their four forms;
* `scalar`: every value without parts.
-/

namespace FieldAutomation

namespace Toml

open Reader

/-! ### Between values -/

/-- Blanks within a line. -/
def isBlank (c : Char) : Bool := c == ' ' || c == '\t'

/-- Characters outside ASCII. -/
def isWide (c : Char) : Bool := decide (0x80 ≤ c.toNat)

/-- Characters of a comment: everything but control characters, the tab excepted. -/
def isComment (c : Char) : Bool :=
  c == '\t' || (decide (0x20 ≤ c.toNat) && decide (c.toNat ≤ 0x7E)) || isWide c

/-- Blanks within a line, if any. -/
def blank : Reader Unit := (fun _ => ()) <$> run isBlank

/-- A line feed, with or without a carriage return before it. -/
def newline : Reader Unit := char '\n' <|> literal ['\r', '\n']

/-- A comment, up to the end of its line. -/
def comment : Reader Unit := do
  char '#'
  let _ ← run isComment

/-- The end of a line: a newline or the end of the text. -/
def lineEnd : Reader Unit := newline <|> atEnd

/-- What may follow a definition on its line. -/
def lineRest : Reader Unit := do
  blank
  let _ ← maybe comment
  lineEnd

/-- Blanks, comments and newlines, if any. -/
def filler : Reader Unit := do
  let _ ← many (((fun _ => ()) <$> run1 isBlank) <|> newline <|> comment)

/-! ### Escapes -/

/-- The digit that a hexadecimal digit stands for. -/
def hexDigit? (c : Char) : Option Nat :=
  if '0' ≤ c ∧ c ≤ '9' then some (c.toNat - '0'.toNat)
  else if 'a' ≤ c ∧ c ≤ 'f' then some (c.toNat - 'a'.toNat + 10)
  else if 'A' ≤ c ∧ c ≤ 'F' then some (c.toNat - 'A'.toNat + 10)
  else none

/-- Hexadecimal digits, with letters of either case. -/
def isHexDigit (c : Char) : Bool := (hexDigit? c).isSome

/-- The number that digits spell in a base. -/
def digitsValue (base : Nat) (digits : List Char) : Nat :=
  digits.foldl (fun n c => base * n + (hexDigit? c).getD 0) 0

/-- Exactly `n` characters of a class. -/
def exactly (p : Char → Bool) : Nat → Reader (List Char)
  | 0 => pure []
  | n + 1 => do
    let c ← satisfy p
    let rest ← exactly p n
    return c :: rest

/-- A code point in `n` hexadecimal digits; surrogates are no characters. -/
def codePoint (n : Nat) : Reader Char := do
  let value := digitsValue 16 (← exactly isHexDigit n)
  if h : value.isValidChar then return Char.ofNatAux value h else failure

/-- An escape sequence in a string. -/
def escape : Reader Char := do
  char '\\'
  match ← satisfy (fun _ => true) with
  | 'b' => return '\x08'
  | 'f' => return '\x0c'
  | 'n' => return '\n'
  | 'r' => return '\r'
  | 't' => return '\t'
  | 'u' => codePoint 4
  | 'U' => codePoint 8
  | '\\' => return '\\'
  | '"' => return '"'
  | _ => failure

/-! ### Strings -/

/-- Characters that stand for themselves in a string with escapes. -/
def isBasic (c : Char) : Bool := isComment c && c != '"' && c != '\\'

/-- Characters of a string without escapes. -/
def isLiteral (c : Char) : Bool := isComment c && c != '\''

/-- A string of one line with escapes. -/
def basicString : Reader (List Char) := do
  char '"'
  let body ← many (satisfy isBasic <|> escape)
  char '"'
  return body

/-- A string of one line without escapes. -/
def literalString : Reader (List Char) := do
  char '\''
  let body ← run isLiteral
  char '\''
  return body

/-- A backslash at the end of a line, which takes all blank space up to the next visible
character with it. -/
def lineJoin : Reader (List Char) := do
  char '\\'
  blank
  newline
  let _ ← many (newline <|> ((fun _ => ()) <$> satisfy isBlank))
  return []

/-- The body of a string over several lines and its closing quotes.  One or two quotes belong to
the body if more of it follows them, or if the three closing quotes do. -/
def multiline (quote : Char) (piece : Reader (List Char)) : Reader (List Char) := do
  let quotes (n : Nat) : Reader (List Char) := do
    literal (List.replicate n quote)
    return List.replicate n quote
  let quoted (n : Nat) : Reader (List Char) := do
    let before ← quotes n
    let after ← piece
    return before ++ after
  literal [quote, quote, quote]
  let _ ← maybe newline
  let body ← many (piece <|> quoted 2 <|> quoted 1)
  let close (n : Nat) : Reader (List Char) := do
    let last ← quotes n
    literal [quote, quote, quote]
    return last
  let last ← close 2 <|> close 1 <|> close 0
  return body.flatten ++ last

/-- A piece of a string over several lines with escapes. -/
def basicPiece : Reader (List Char) :=
  run1 isBasic <|> lineJoin <|> ((fun c => [c]) <$> escape) <|> ((fun _ => ['\n']) <$> newline)

/-- A piece of a string over several lines without escapes. -/
def literalPiece : Reader (List Char) := run1 isLiteral <|> ((fun _ => ['\n']) <$> newline)

/-- A string. -/
def text : Reader String :=
  String.ofList <$>
    (multiline '"' basicPiece <|> basicString <|> multiline '\'' literalPiece <|> literalString)

/-! ### Keys -/

/-- Characters of a key without quotes. -/
def isBareKey (c : Char) : Bool := c.isAlphanum || c == '-' || c == '_'

/-- A key: bare, or a string of one line. -/
def key : Reader String :=
  String.ofList <$> (basicString <|> literalString <|> run1 isBareKey)

/-- How deep a document may nest: dotted keys have fewer parts than this, and fewer brackets than
this are open at any place. -/
def depthLimit : Nat := 80

/-- Keys joined by dots. -/
def keyPath : Reader (List String) := do
  let path ← separated (do blank; let k ← key; blank; return k) (char '.')
  if path.length < depthLimit then return path else failure

/-! ### Numbers -/

/-- Decimal digits. -/
def isDigit (c : Char) : Bool := decide ('0' ≤ c) && decide (c ≤ '9')

/-- Digits with single underscores between them. -/
def digits (p : Char → Bool) : Reader (List Char) := do
  let first ← satisfy p
  let rest ← many (satisfy p <|> (do char '_'; satisfy p))
  return first :: rest

/-- Decimal digits without a leading zero, or a single zero. -/
def wholeDigits : Reader (List Char) :=
  (do
    let first ← satisfy fun c => isDigit c && c != '0'
    let rest ← many (satisfy isDigit <|> (do char '_'; satisfy isDigit))
    return first :: rest) <|>
  ((fun c => [c]) <$> satisfy isDigit)

/-- An optional sign; true for minus. -/
def minus : Reader Bool :=
  ((fun _ => true) <$> char '-') <|> ((fun _ => false) <$> char '+') <|> pure false

/-- The exponent of a float. -/
def exponentPart : Reader Int := do
  let _ ← satisfy fun c => c == 'e' || c == 'E'
  let negative ← minus
  let value := digitsValue 10 (← digits isDigit)
  return if negative then -(value : Int) else value

-- Powers are those of the core library, whatever else is in scope.
attribute [local instance (high)] instPowNat

/-- Whether `digits * 10 ^ exponent` rounds to infinity in double precision: from half a step
above the largest double on. -/
def overflows (digits : Nat) (exponent : Int) : Bool :=
  let places : Int := (Nat.toDigits 10 digits).length + exponent
  if digits = 0 ∨ places < 309 then false
  else if 310 < places then true
  else
    let largestAndHalf := (1 <<< 1024) - (1 <<< 970)
    decide (largestAndHalf * 10 ^ (-exponent).toNat ≤ digits * 10 ^ exponent.toNat)

/-- A decimal float.  It is positive infinity only if it says so. -/
def decimalFloat : Reader Value := do
  let negative ← minus
  let whole ← wholeDigits
  let (fraction, exponent) ←
    (do return ([], ← exponentPart)) <|>
    (do
      char '.'
      let fraction ← digits isDigit
      return (fraction, (← maybe exponentPart).getD 0))
  if !negative && overflows (digitsValue 10 (whole ++ fraction)) (exponent - fraction.length) then
    failure
  else
    return .float

/-- Infinity or not a number. -/
def specialFloat : Reader Value := do
  let _ ← minus
  literal "inf".toList <|> literal "nan".toList
  return .float

/-- An integer of 64 bits with sign. -/
def bounded (value : Int) : Reader Value :=
  if Int64.minValue.toInt ≤ value ∧ value ≤ Int64.maxValue.toInt then return .integer value
  else failure

/-- An integer in a base other than ten, after its mark. -/
def radixInteger (mark : Char) (base : Nat) : Reader Value := do
  literal ['0', mark]
  let read ← digits fun c => ((hexDigit? c).any (· < base))
  bounded (digitsValue base read)

/-- A decimal integer. -/
def decimalInteger : Reader Value := do
  let negative ← minus
  let value := digitsValue 10 (← wholeDigits)
  bounded (if negative then -(value : Int) else value)

/-- An integer in one of the four bases. -/
def integer : Reader Value :=
  radixInteger 'x' 16 <|> radixInteger 'o' 8 <|> radixInteger 'b' 2 <|> decimalInteger

/-! ### Dates and times -/

/-- A number of `n` digits within bounds. -/
def numberIn (n low high : Nat) : Reader Nat := do
  let value := digitsValue 10 (← exactly isDigit n)
  if low ≤ value ∧ value ≤ high then return value else failure

/-- The number of days of a month. -/
def daysIn (year month : Nat) : Nat :=
  if month = 2 then
    if year % 4 = 0 ∧ (year % 100 ≠ 0 ∨ year % 400 = 0) then 29 else 28
  else if month ∈ [4, 6, 9, 11] then 30
  else 31

/-- A date of the calendar. -/
def date : Reader Unit := do
  let year ← numberIn 4 0 9999
  char '-'
  let month ← numberIn 2 1 12
  char '-'
  let _ ← numberIn 2 1 (daysIn year month)

/-- A time of day, to the second or finer.  Second 60 is the leap second. -/
def timeOfDay : Reader Unit := do
  let _ ← numberIn 2 0 23
  char ':'
  let _ ← numberIn 2 0 59
  char ':'
  let _ ← numberIn 2 0 60
  let _ ← maybe (do char '.'; run1 isDigit)

/-- The offset of a time from universal time. -/
def offset : Reader Unit :=
  ((fun _ => ()) <$> satisfy fun c => c == 'Z' || c == 'z') <|> do
    let _ ← satisfy fun c => c == '+' || c == '-'
    let _ ← numberIn 2 0 23
    char ':'
    let _ ← numberIn 2 0 59

/-- A date, a time of day, or a date with a time, which may have an offset. -/
def dateTime : Reader Value := do
  (do
    date
    let _ ← maybe do
      let _ ← satisfy fun c => c == 'T' || c == 't' || c == ' '
      timeOfDay
      maybe offset) <|> timeOfDay
  return .dateTime

/-! ### All values without parts -/

/-- A truth value. -/
def boolean : Reader Value :=
  (do literal "true".toList; return .boolean true) <|>
  (do literal "false".toList; return .boolean false)

/-- A value without parts. -/
def scalar : Reader Value :=
  (.string <$> text) <|> boolean <|> dateTime <|> decimalFloat <|> specialFloat <|> integer

end Toml

end FieldAutomation
