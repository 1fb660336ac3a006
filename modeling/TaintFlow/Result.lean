import TaintFlow.Finding
import TaintFlow.Json.Basic
import TaintFlow.Metrics

/-!
# Results of scans

What a scan has found, with the views of it that reports use.
-/

namespace TaintFlow

/-- The location as JSON. -/
def Location.toJson (l : Location) : Json :=
  .object [("file_path", .text l.file), ("line_number", .nat l.line),
    ("column", .ofOption .nat l.column), ("snippet", .ofOption .text l.snippet)]

/-- The finding as JSON. -/
def Finding.toJson (f : Finding) : Json :=
  .object [("rule_id", .text f.vulnerability.ruleId),
    ("rule_name", .text f.vulnerability.displayName),
    ("vulnerability", .text f.vulnerability.key), ("kind", .text f.kind.toText),
    ("message", .text f.message), ("description", .text f.description),
    ("severity", .text f.severity.toText), ("confidence", .text f.confidence.toText),
    ("file_path", .text f.location.file), ("line_number", .nat f.location.line),
    ("snippet", .ofOption .text f.location.snippet),
    ("parameter_index", .ofOption .nat f.parameter), ("cwe", .text f.vulnerability.cwe),
    ("paths", .list (f.paths.map fun path => .list (path.map Location.toJson)))]

/-- The result of a scan. -/
structure ScanResult where
  target : String
  findings : List Finding := []
  filesScanned : Nat := 0
  /-- Keys of the families that were looked for. -/
  checked : List String := []
  /-- The duration in seconds. -/
  duration : Float := 0.0
  errors : List String := []
  /-- Whether the scan was stopped before its end. -/
  cancelled : Bool := false
  metrics : Metrics := {}

namespace ScanResult

variable (r : ScanResult)

/-- The findings of a severity. -/
def ofSeverity (s : Severity) : List Finding :=
  r.findings.filter (·.severity = s)

/-- The findings of a family. -/
def ofVulnerability (v : Vulnerability) : List Finding :=
  r.findings.filter (·.vulnerability = v)

/-- The findings in a file. -/
def ofFile (file : String) : List Finding :=
  r.findings.filter (·.location.file = file)

/-- The number of findings of each severity. -/
def summary : List (Severity × Nat) :=
  Severity.all.map fun s => (s, (r.ofSeverity s).length)

/-- Whether there is a critical finding. -/
def hasCritical : Bool :=
  r.findings.any (·.severity = .critical)

/-- The order of findings in reports: by severity, the highest first, then by file and line. -/
def precedes (a b : Finding) : Bool :=
  if a.severity.priority ≠ b.severity.priority then a.severity.priority > b.severity.priority
  else if a.location.file ≠ b.location.file then a.location.file < b.location.file
  else a.location.line ≤ b.location.line

/-- The result with its findings in order; findings that are equal in the order stay as they
are. -/
def sorted : ScanResult :=
  { r with findings := r.findings.mergeSort precedes }

/-- The files with findings, in order and each once. -/
def affectedFiles : List String :=
  ((r.findings.map (·.location.file)).eraseDups).mergeSort fun a b => !decide (b < a)

/-- The code that tells the outcome of a scan to other programs. -/
def exitCode : Nat :=
  if !(r.ofSeverity .critical).isEmpty then 3
  else if !r.errors.isEmpty || !(r.ofSeverity .high).isEmpty then 2
  else if !r.findings.isEmpty then 1
  else 0

/-- The summary as JSON. -/
def summaryJson : Json :=
  .object (r.summary.map fun (s, n) => (s.toText, .nat n))

/-- The result as JSON. -/
def toJson : Json :=
  .object [("target_path", .text r.target), ("findings", .list (r.findings.map Finding.toJson)),
    ("files_scanned", .nat r.filesScanned), ("vulnerabilities_checked", .texts r.checked),
    ("scan_duration_seconds", .float r.duration), ("errors", .texts r.errors),
    ("cancelled", .bool r.cancelled), ("summary", r.summaryJson)]

end ScanResult

end TaintFlow
