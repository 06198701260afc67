import MarkupRouting.Log

/-!
# Reports

How a drive ended, what it cost, and what was observed on the way.

* **Severity**, **Diagnostic** — one observation; **Diagnostic.toTable** gives it as named values.
* **Report** — the outcome of a drive that returned.
* **Report.add**, **ofSeverity**, **hasErrors** — observations added and looked up.
* **Report.summary** — the report in brief, as details of a record.
-/

namespace MarkupRouting

/-- How much an observation matters (`DiagnosticSeverity`). -/
inductive Severity where
  | debug
  | info
  | warning
  | error
  deriving DecidableEq, Repr, Inhabited

namespace Severity

/-- The name of a severity. -/
def name : Severity → String
  | debug => "DEBUG"
  | info => "INFO"
  | warning => "WARNING"
  | error => "ERROR"

/-- All severities. -/
def all : List Severity := [debug, info, warning, error]

/-- The severity of a given name. -/
def ofName? (n : String) : Option Severity := all.find? (fun s => s.name == n)

end Severity

/-- One observation (`DiagnosticEntry`). A caller may give any values; only an empty message and an
empty component are refused. -/
structure Diagnostic where
  /-- How much it matters. -/
  severity : Severity
  /-- What was observed. -/
  message : Value
  /-- The component that observed it. -/
  component : Value
  /-- The path of the element concerned. -/
  path : Value := .null
  /-- Named details. -/
  details : Value := .null
  /-- The identity of the run. -/
  correlation : Value := .null
  deriving Repr, Inhabited

namespace Diagnostic

/-- Why there is no diagnostic. -/
inductive Flaw where
  /-- The message is empty. -/
  | noMessage
  /-- The component is empty. -/
  | noComponent
  deriving DecidableEq, Repr

/-- The flaw in words. -/
def Flaw.message : Flaw → String
  | noMessage => "Diagnostic message cannot be empty"
  | noComponent => "Diagnostic component cannot be empty"

/-- A diagnostic that has a message and a component (`DiagnosticEntry.__post_init__`). -/
def check (d : Diagnostic) : Except Flaw Diagnostic :=
  if !d.message.isTruthy then .error .noMessage
  else if !d.component.isTruthy then .error .noComponent
  else .ok d

/-- The diagnostic as named values. -/
def toTable (d : Diagnostic) : Table Value :=
  [("severity", .text d.severity.name), ("message", d.message), ("component", d.component),
    ("path", d.path), ("details", d.details), ("correlation_id", d.correlation)]

end Diagnostic

/-- The outcome of a drive that returned (`DriveResult`). -/
structure Report where
  /-- The document was consumed to its end. -/
  completed : Bool := false
  /-- A handler stopped the drive. -/
  cancelled : Bool := false
  /-- What was counted. -/
  statistics : Statistics := {}
  /-- What was observed, in order. -/
  diagnostics : List Diagnostic := []
  /-- The identity of the run. -/
  correlation : Value := .null
  deriving Repr, Inhabited

namespace Report

/-- The names of the fields of a report. -/
def fieldNames : List String :=
  ["completed", "cancelled", "statistics", "diagnostics", "correlation_id"]

/-- The report with one observation more, made under the identity of its run (`add_diagnostic`). -/
def add (r : Report) (d : Diagnostic) : Except Diagnostic.Flaw Report :=
  ({ d with correlation := r.correlation }.check).map
    fun d => { r with diagnostics := r.diagnostics ++ [d] }

/-- The observations of a severity (`get_diagnostics_by_severity`). -/
def ofSeverity (r : Report) (s : Severity) : List Diagnostic :=
  r.diagnostics.filter (fun d => d.severity == s)

/-- Something observed was an error (`has_errors`). -/
def hasErrors (r : Report) : Bool := r.diagnostics.any (fun d => d.severity == .error)

/-- How many observations there are of each severity, in the order in which severities first
come. -/
def bySeverity (r : Report) : Table Nat :=
  r.diagnostics.foldl
    (fun counts d => counts.put d.severity.name ((counts.get? d.severity.name).getD 0 + 1)) []

/-- The report in brief (`DriveResult.summary`). -/
def summary (r : Report) : Table Log.Detail :=
  [("completed", .value (.bool r.completed)), ("cancelled", .value (.bool r.cancelled)),
    ("correlation_id", .value r.correlation), ("statistics", .statistics r.statistics),
    ("diagnostics_by_severity",
      .value (.record (r.bySeverity.map (fun (name, n) => (name, .int n)))))]

end Report

end MarkupRouting
