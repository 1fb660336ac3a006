import TaintFlow.Result

/-!
# JSON reports

A result with all its findings as a JSON document.
-/

namespace TaintFlow.Report

/-- The JSON document of a result that was reported at some time. -/
def jsonDocument (timestamp : String) (r : ScanResult) : Json :=
  .object [
    ("scan_info", .object [
      ("target", .text r.target),
      ("timestamp", .text timestamp),
      ("files_scanned", .nat r.filesScanned),
      ("vulnerabilities_checked", .texts r.checked),
      ("duration_seconds", .float r.duration),
      ("cancelled", .bool r.cancelled)]),
    ("summary", r.summaryJson),
    ("total_findings", .nat r.findings.length),
    ("findings", .list (r.findings.map Finding.toJson)),
    ("errors", .texts r.errors)]

/-- The JSON report of a result. -/
def json (timestamp : String) (r : ScanResult) : String :=
  (jsonDocument timestamp r).pretty

end TaintFlow.Report
