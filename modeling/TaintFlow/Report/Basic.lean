import TaintFlow.Files.Basic
import TaintFlow.Report.Console
import TaintFlow.Report.Csv
import TaintFlow.Report.Json
import TaintFlow.Report.Sarif

/-!
# Reports

The formats of reports, and where a report goes: into a file, or else to standard output.  A table
is not printed.
-/

namespace TaintFlow

open TaintFlow.Files

/-- The formats of reports. -/
inductive ReportFormat where
  | console (style : Report.ConsoleStyle)
  | csv
  | json
  | sarif
  deriving DecidableEq, Repr

namespace ReportFormat

/-- The names of the formats, in order. -/
def names : List String :=
  ["console", "csv", "json", "sarif"]

/-- The format with a name, in any case. -/
def ofName? (style : Report.ConsoleStyle) (name : String) : Option ReportFormat :=
  match Text.lower name with
  | "console" => some (console style)
  | "csv" => some csv
  | "json" => some json
  | "sarif" => some sarif
  | _ => none

/-- What is said of a name that no format has. -/
def unknownMessage (name : String) : String :=
  "Unknown report format: " ++ name ++ ". Supported: ["
    ++ ", ".intercalate (names.map Text.quoted) ++ "]"

/-- Whether a report without a file is printed. -/
def isPrinted : ReportFormat → Bool
  | csv => false
  | _ => true

/-- The report of a result. -/
def render (format : ReportFormat) (timestamp : String) (r : ScanResult) : String :=
  match format with
  | console style => Report.console style r
  | csv => Report.csv r
  | json => Report.json timestamp r
  | sarif => Report.sarif r

end ReportFormat

namespace Report

/-- A report on its way. -/
structure Delivery where
  text : String
  /-- What goes to standard output. -/
  printed : String
  files : FileSystem

/-- Delivers a report: into a file if one is named. -/
def deliver (fs : FileSystem) (format : ReportFormat) (timestamp : String) (r : ScanResult)
    (output : Option String) : Except Files.Fault Delivery :=
  let text := format.render timestamp r
  match output.filter (· ≠ "") with
  | some path =>
    match fs.write path text.toUTF8 with
    | .error f => .error f
    | .ok files => .ok ⟨text, "", files⟩
  | none => .ok ⟨text, if format.isPrinted then text ++ "\n" else "", fs⟩

end Report

end TaintFlow
