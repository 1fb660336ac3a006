import TaintFlow.Result
import TaintFlow.Text.Case

/-!
# SARIF reports

A result in the Static Analysis Results Interchange Format.  Each rule that a finding breaks is
listed once, and the paths of a finding run from the source to the sink.
-/

namespace TaintFlow.Report

/-- Name and version of the program. -/
def programName : String := "taintscan"

/-- The version of the program. -/
def programVersion : String := "0.3.0"

/-- The level of a severity. -/
def sarifLevel : Severity → String
  | .critical => "error"
  | .high => "error"
  | .medium => "warning"
  | .low => "note"
  | .info => "note"

/-- The score of a severity. -/
def sarifScore : Severity → String
  | .critical => "9.0"
  | .high => "7.0"
  | .medium => "5.0"
  | .low => "3.0"
  | .info => "1.0"

/-- A text as the value of its only member. -/
def textObject (text : String) : Json :=
  .object [("text", .text text)]

/-- A location; a column of zero and an empty snippet are left out. -/
def sarifLocation (l : Location) : Json :=
  let column :=
    match l.column with
    | some (n + 1) => [("startColumn", Json.nat (n + 1))]
    | _ => []
  let snippet :=
    match l.snippet with
    | some s => if s == "" then [] else [("snippet", textObject s)]
    | none => []
  .object [("physicalLocation", .object [
    ("artifactLocation", .object [("uri", .text l.file)]),
    ("region", .object ([("startLine", .nat l.line)] ++ column ++ snippet))])]

/-- The rule that a finding breaks. -/
def sarifRule (f : Finding) : Json :=
  let v := f.vulnerability
  .object [
    ("id", .text v.ruleId),
    ("name", .text v.key),
    ("shortDescription", textObject v.displayName),
    ("fullDescription",
      textObject ("Untrusted data reaches a " ++ Text.lower v.displayName ++ " sink")),
    ("properties", .object [
      ("tags", .texts ["security", v.cwe]),
      ("security-severity", .text (sarifScore f.severity)),
      ("cwe", .text v.cwe)])]

/-- The findings that are the first ones to break their rule, given the rules broken before. -/
def firstOfRule (before : List String) : List Finding → List Finding
  | [] => []
  | f :: rest =>
    let id := f.vulnerability.ruleId
    if before.contains id then firstOfRule before rest
    else f :: firstOfRule (id :: before) rest

/-- A path from the source to the sink. -/
def sarifFlow (path : List Location) : Json :=
  .object [("threadFlows", .list [
    .object [("locations",
      .list (path.reverse.map fun l => .object [("location", sarifLocation l)]))]])]

/-- A finding. -/
def sarifResult (f : Finding) : Json :=
  let flows :=
    if f.paths.isEmpty then [] else [("codeFlows", Json.list (f.paths.map sarifFlow))]
  .object ([
    ("ruleId", .text f.vulnerability.ruleId),
    ("level", .text (sarifLevel f.severity)),
    ("message", textObject f.description),
    ("locations", .list [sarifLocation f.location]),
    ("properties", .object [
      ("kind", .text f.kind.toText), ("confidence", .text f.confidence.toText)])] ++ flows)

/-- What went wrong, as a notice. -/
def sarifNotice (error : String) : Json :=
  .object [("message", textObject error), ("level", .text "error")]

/-- The SARIF document of a result. -/
def sarifDocument (r : ScanResult) : Json :=
  .object [
    ("$schema", .text
      "https://raw.githubusercontent.com/oasis-tcs/sarif-spec/master/Schemata/sarif-schema-2.1.0.json"),
    ("version", .text "2.1.0"),
    ("runs", .list [
      .object [
        ("tool", .object [
          ("driver", .object [
            ("name", .text programName),
            ("version", .text programVersion),
            ("rules", .list ((firstOfRule [] r.findings).map sarifRule))])]),
        ("results", .list (r.findings.map sarifResult)),
        ("invocations", .list [
          .object [
            ("executionSuccessful", .bool r.errors.isEmpty),
            ("toolExecutionNotifications", .list (r.errors.map sarifNotice))]])]])]

/-- The SARIF report of a result. -/
def sarif (r : ScanResult) : String :=
  (sarifDocument r).pretty

end TaintFlow.Report
