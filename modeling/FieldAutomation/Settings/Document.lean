import FieldAutomation.Settings.Keyword
import FieldAutomation.Toml.Document

/-!
# Settings from TOML

Each section of the settings is a table of the document, or an array with its fields in order of
declaration.  A field that is missing takes its default, and names that no setting has are
ignored.  A value of a wrong kind refuses the whole document.

* `Section`: a section by name or by position;
* `Settings.parse`: the settings that a text gives;
* `Settings.load`: the settings that the bytes of a file give.
-/

namespace FieldAutomation

open Toml (Value Table)

/-- Why there are no settings. -/
inductive SettingsError where
  /-- The file is missing, or it is no text. -/
  | unreadable
  /-- The text is no document, or a value is of a wrong kind. -/
  | malformed
  deriving DecidableEq, Repr

/-- The fields of a section. -/
inductive Section where
  | named (entries : Table)
  | positional (elements : List Value)

namespace Section

/-- A section is a table or an array.  A date counts as a table without known names. -/
def ofValue? : Value → Option Section
  | .table _ entries => some (named entries)
  | .array elements => some (positional elements)
  | .tables last earlier => some (positional ((last :: earlier).reverse.map (.table .header)))
  | .dateTime => some (named [])
  | _ => none

/-- The field with a name, which is the field at `index` in order of declaration. -/
def get? (s : Section) (index : Nat) (name : String) : Option Value :=
  match s with
  | named entries => entries.lookup name
  | positional elements => elements[index]?

/-- Reads a field; a missing one takes its default. -/
def read {α : Type} (s : Section) (index : Nat) (name : String) (decode : Value → Option α)
    (default : α) : Option α :=
  match s.get? index name with
  | none => some default
  | some v => decode v

end Section

/-! ### Values of fields -/

/-- A truth value. -/
def decodeBool : Value → Option Bool
  | .boolean b => some b
  | _ => none

/-- A number from zero on. -/
def decodeNat : Value → Option Nat
  | .integer i => if 0 ≤ i then some i.toNat else none
  | _ => none

/-- A text. -/
def decodeString : Value → Option String
  | .string s => some s
  | _ => none

/-- Whether a value is a table or an array without entries. -/
def isVoid : Value → Bool
  | .table _ entries => entries.isEmpty
  | .array elements => elements.isEmpty
  | _ => false

/-- A value of an enumeration is its word, or a table whose only key is the word and holds
nothing. -/
def decodeKeyword {α : Type} [Keyword α] : Value → Option α
  | .string s => Keyword.ofText? s
  | .table _ [(word, v)] => if isVoid v then Keyword.ofText? word else none
  | _ => none

/-! ### Sections -/

/-- The knobs of the packer that a section gives. -/
def PackerSettings.ofValue? (v : Value) : Option PackerSettings := do
  let s ← Section.ofValue? v
  let d : PackerSettings := {}
  return {
    bigEndian := ← s.read 0 "big-endian" decodeBool d.bigEndian
    useMetadata := ← s.read 1 "use-metadata" decodeBool d.useMetadata
    physicalFields := ← s.read 2 "physical" decodeBool d.physicalFields
    abstractFields := ← s.read 3 "abstract" decodeBool d.abstractFields
    policy := ← s.read 4 "policy" decodeKeyword d.policy }

/-- The knobs of the comparer that a section gives. -/
def ComparerSettings.ofValue? (v : Value) : Option ComparerSettings := do
  let s ← Section.ofValue? v
  let d : ComparerSettings := {}
  return {
    policy := ← s.read 0 "policy" decodeKeyword d.policy
    checkType := ← s.read 1 "check-type" decodeBool d.checkType
    showMax := ← s.read 2 "show-max" decodeNat d.showMax
    severity := ← s.read 3 "severity" decodeKeyword d.severity
    verbosity := ← s.read 4 "verbosity" decodeKeyword d.verbosity
    physicalFields := ← s.read 5 "physical" decodeBool d.physicalFields
    abstractFields := ← s.read 6 "abstract" decodeBool d.abstractFields }

/-- The knobs of the recorder that a section gives. -/
def RecorderSettings.ofValue? (v : Value) : Option RecorderSettings := do
  let s ← Section.ofValue? v
  let d : RecorderSettings := {}
  return {
    policy := ← s.read 0 "policy" decodeKeyword d.policy
    identifier := ← s.read 1 "identifier" decodeBool d.identifier
    defaultRadix := ← s.read 2 "default-radix" decodeKeyword d.defaultRadix
    physicalFields := ← s.read 3 "physical" decodeBool d.physicalFields
    abstractFields := ← s.read 4 "abstract" decodeBool d.abstractFields }

/-- The filter of the reporters that a section gives. -/
def ReportSettings.ofValue? (v : Value) : Option ReportSettings := do
  let s ← Section.ofValue? v
  let d : ReportSettings := {}
  return { maxVerbosity := ← s.read 0 "max-verbosity" decodeKeyword d.maxVerbosity }

/-- The transcript that a section names. -/
def TranscriptSettings.ofValue? (v : Value) : Option TranscriptSettings := do
  let s ← Section.ofValue? v
  let d : TranscriptSettings := {}
  return { fileName := ← s.read 0 "file-name" decodeString d.fileName }

namespace Settings

/-- The settings of a document. -/
def ofTable? (entries : Table) : Option Settings := do
  let s := Section.named entries
  return {
    packer := ← s.read 0 "packer" PackerSettings.ofValue? {}
    comparer := ← s.read 1 "comparer" ComparerSettings.ofValue? {}
    recorder := ← s.read 2 "recorder" RecorderSettings.ofValue? {}
    report := ← s.read 3 "report" ReportSettings.ofValue? {}
    transcript := ← s.read 4 "recording" TranscriptSettings.ofValue? {} }

/-- The settings that a text gives. -/
def parse (text : String) : Except SettingsError Settings :=
  match (Toml.Document.parse text).bind ofTable? with
  | some settings => .ok settings
  | none => .error .malformed

/-- The settings that a file gives; its bytes have to be UTF-8. -/
def load (bytes : Option ByteArray) : Except SettingsError Settings :=
  match bytes.bind String.fromUTF8? with
  | some text => parse text
  | none => .error .unreadable

end Settings

end FieldAutomation
