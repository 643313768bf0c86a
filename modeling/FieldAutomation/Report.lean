/-!
# Reports

Packer, comparer and recorder tell what they found in reports.  A `Reporter` drops the info
reports above its verbosity threshold and keeps all others, oldest first.

* `Report`, `Severity`, `Verbosity`;
* `Reporter.report` and its short forms `Reporter.info`, `warning`, `error`;
* `Reporter.accepts`: which reports are kept;
* `LogEntry`, `Report.logEntry`: what a kept report writes to the log.
-/

namespace FieldAutomation

/-- How serious a report is. -/
inductive Severity where
  | info
  | warning
  | error
  | fatal
  deriving DecidableEq, Repr, Inhabited

/-- How much detail a report is. -/
inductive Verbosity where
  | none
  | low
  | medium
  | high
  | full
  | debug
  deriving DecidableEq, Repr, Inhabited

namespace Severity

/-- All severities, mildest first. -/
def all : List Severity := [info, warning, error, fatal]

theorem mem_all (s : Severity) : s ∈ all := by
  cases s <;> simp [all]

end Severity

namespace Verbosity

/-- All verbosities, least detail first. -/
def all : List Verbosity := [none, low, medium, high, full, debug]

theorem mem_all (v : Verbosity) : v ∈ all := by
  cases v <;> simp [all]

/-- The numeric level of a verbosity. -/
def level : Verbosity → Nat
  | none => 0
  | low => 100
  | medium => 200
  | high => 300
  | full => 400
  | debug => 500

end Verbosity

/-- A diagnostic that was kept. -/
structure Report where
  severity : Severity
  verbosity : Verbosity
  id : String
  message : String
  deriving DecidableEq, Repr

/-! ### The log -/

/-- The level of a log entry. -/
inductive LogLevel where
  | debug
  | info
  | warn
  | error
  deriving DecidableEq, Repr

/-- An entry of the log: a message with named attributes. -/
structure LogEntry where
  level : LogLevel
  message : String
  attributes : List (String × String) := []
  deriving DecidableEq, Repr

/-- The level at which reports of a severity are logged. -/
def Severity.logLevel : Severity → LogLevel
  | info => .info
  | warning => .warn
  | error | fatal => .error

/-- The log entry of a report. -/
def Report.logEntry (r : Report) : LogEntry where
  level := r.severity.logLevel
  message := r.message
  attributes := [("id", r.id)]

/-! ### The reporter -/

/-- Keeps reports, oldest first. -/
structure Reporter where
  maxVerbosity : Verbosity := .medium
  reports : List Report := []
  deriving DecidableEq, Repr, Inhabited

namespace Reporter

variable (r : Reporter)

/-- Only info reports are filtered, by their verbosity. -/
def accepts (report : Report) : Bool :=
  report.severity ≠ .info || decide (report.verbosity.level ≤ r.maxVerbosity.level)

/-- Keeps a report if it is accepted. -/
def report (report : Report) : Reporter :=
  if r.accepts report then { r with reports := r.reports ++ [report] } else r

/-- An info report. -/
def info (id : String) (verbosity : Verbosity) (message : String) : Reporter :=
  r.report ⟨.info, verbosity, id, message⟩

/-- A warning. -/
def warning (id message : String) : Reporter := r.report ⟨.warning, .none, id, message⟩

/-- An error report. -/
def error (id message : String) : Reporter := r.report ⟨.error, .none, id, message⟩

/-- The reports with an id, oldest first. -/
def withId (id : String) : List Report := r.reports.filter (·.id = id)

/-- How many reports of a severity are kept. -/
def count (severity : Severity) : Nat := r.reports.countP (·.severity = severity)

/-- Forgets all reports. -/
def clear : Reporter := { r with reports := [] }

variable {r}

theorem reports_report_of_accepts {report : Report} (h : r.accepts report = true) :
    (r.report report).reports = r.reports ++ [report] := by
  simp [Reporter.report, h]

theorem report_of_not_accepts {report : Report} (h : r.accepts report = false) :
    r.report report = r := by
  simp [Reporter.report, h]

@[simp] theorem maxVerbosity_report (report : Report) :
    (r.report report).maxVerbosity = r.maxVerbosity := by
  unfold Reporter.report
  split <;> rfl

@[simp] theorem reports_warning (id message : String) :
    (r.warning id message).reports = r.reports ++ [⟨.warning, .none, id, message⟩] :=
  reports_report_of_accepts rfl

@[simp] theorem reports_error (id message : String) :
    (r.error id message).reports = r.reports ++ [⟨.error, .none, id, message⟩] :=
  reports_report_of_accepts rfl

end Reporter

end FieldAutomation
