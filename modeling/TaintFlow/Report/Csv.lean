import TaintFlow.Result

/-!
# Tables of findings

Reports as comma-separated values.  A field with a comma, a quote or a line break stands between
quotes, and a quote inside of it is written twice.
-/

namespace TaintFlow.Report

/-- Whether a character forces quotes around its field. -/
def needsQuotes (c : Char) : Bool :=
  c == ',' || c == '"' || c == '\r' || c == '\n'

/-- The characters of a field with every quote written twice. -/
def doubleQuotes : List Char → List Char
  | [] => []
  | c :: rest => if c == '"' then '"' :: '"' :: doubleQuotes rest else c :: doubleQuotes rest

/-- A field as it is written. -/
def csvField (text : String) : String :=
  if text.toList.any needsQuotes then "\"" ++ String.ofList (doubleQuotes text.toList) ++ "\""
  else text

/-- A row as it is written. -/
def csvRow (fields : List String) : String :=
  ",".intercalate (fields.map csvField) ++ "\r\n"

/-- The names of the columns. -/
def csvColumns : List String :=
  ["finding_id", "rule_id", "rule_name", "severity", "confidence", "kind", "file_path",
   "line_number", "parameter_index", "cwe", "message", "snippet", "path_count"]

/-- The name of the finding with a number: at least four digits. -/
def findingId (n : Nat) : String :=
  let digits := toString n
  "F" ++ String.ofList (List.replicate (4 - digits.length) '0') ++ digits

/-- The fields of a finding. -/
def csvFields (n : Nat) (f : Finding) : List String :=
  [findingId n, f.vulnerability.ruleId, f.vulnerability.displayName, f.severity.toText,
   f.confidence.toText, f.kind.toText, f.location.file, toString f.location.line,
   (f.parameter.map toString).getD "", f.vulnerability.cwe, f.message,
   f.location.snippet.getD "", toString f.paths.length]

/-- The fields of findings, numbered from `n` on. -/
def csvRows (n : Nat) : List Finding → List (List String)
  | [] => []
  | f :: rest => csvFields n f :: csvRows (n + 1) rest

/-- The table of the findings of a result. -/
def csv (r : ScanResult) : String :=
  String.join ((csvColumns :: csvRows 1 r.findings).map csvRow)

end TaintFlow.Report
