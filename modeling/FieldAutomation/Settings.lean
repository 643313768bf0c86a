import FieldAutomation.Radix
import FieldAutomation.Report

/-!
# Settings

The knobs of the packer, the comparer and the recorder, the threshold of their reporters, and the
file of the text transcript.  `Settings` gathers all sections; every field has a default.
-/

namespace FieldAutomation

/-- How the objects that an object refers to are visited. -/
inductive RecursionPolicy where
  /-- Their fields are visited too. -/
  | deep
  /-- At present the same as `deep`. -/
  | shallow
  /-- Only their identity counts. -/
  | reference
  deriving DecidableEq, Repr, Inhabited

namespace RecursionPolicy

/-- All policies. -/
def all : List RecursionPolicy := [deep, shallow, reference]

theorem mem_all (p : RecursionPolicy) : p ∈ all := by
  cases p <;> simp [all]

end RecursionPolicy

/-- Knobs of the packer. -/
structure PackerSettings where
  /-- Each field enters the stream with its bits reversed. -/
  bigEndian : Bool := true
  /-- Objects carry a null marker and strings a terminator. -/
  useMetadata : Bool := false
  /-- Physical fields take part. -/
  physicalFields : Bool := true
  /-- Abstract fields take part. -/
  abstractFields : Bool := false
  policy : RecursionPolicy := .deep
  deriving DecidableEq, Repr, Inhabited

/-- Knobs of the comparer. -/
structure ComparerSettings where
  policy : RecursionPolicy := .deep
  /-- Objects with different type names miscompare. -/
  checkType : Bool := true
  /-- How many miscompares of a comparison are reported one by one. -/
  showMax : Nat := 1
  severity : Severity := .info
  verbosity : Verbosity := .low
  physicalFields : Bool := true
  abstractFields : Bool := false
  deriving DecidableEq, Repr, Inhabited

/-- Knobs of the recorder. -/
structure RecorderSettings where
  policy : RecursionPolicy := .deep
  /-- The instance ids of sub-objects are recorded. -/
  identifier : Bool := true
  /-- Used for fields that name no radix. -/
  defaultRadix : Radix := .hex
  physicalFields : Bool := true
  abstractFields : Bool := true
  deriving DecidableEq, Repr, Inhabited

/-- Filter of the reporters. -/
structure ReportSettings where
  maxVerbosity : Verbosity := .medium
  deriving DecidableEq, Repr, Inhabited

/-- The text transcript. -/
structure TranscriptSettings where
  fileName : String := "tr_db.log"
  deriving DecidableEq, Repr, Inhabited

/-- All sections. -/
structure Settings where
  packer : PackerSettings := {}
  comparer : ComparerSettings := {}
  recorder : RecorderSettings := {}
  report : ReportSettings := {}
  transcript : TranscriptSettings := {}
  deriving DecidableEq, Repr, Inhabited

end FieldAutomation
