import TaintFlow.Result
import TaintFlow.Text.Case

/-!
# Console reports

A report for people: a summary, the findings by severity, and what went wrong.
-/

namespace TaintFlow.Report

/-- How a console report looks. -/
structure ConsoleStyle where
  /-- Whether parts are painted. -/
  colors : Bool := false
  /-- Whether the paths of findings are shown. -/
  verbose : Bool := false
  deriving DecidableEq, Repr

/-- The paints of a console report. -/
inductive Paint where
  | bold
  | green
  | ofSeverity (s : Severity)
  deriving DecidableEq, Repr

/-- The number of a paint in a terminal's escape sequences. -/
def Paint.number : Paint → Nat
  | bold => 1
  | green => 92
  | ofSeverity .critical => 91
  | ofSeverity .high => 93
  | ofSeverity .medium => 94
  | ofSeverity .low => 96
  | ofSeverity .info => 90

/-- An escape sequence. -/
def escape (n : Nat) : String :=
  String.ofList [Char.ofNat 0x1b, '['] ++ toString n ++ "m"

namespace ConsoleStyle

variable (style : ConsoleStyle)

/-- A painted text. -/
def paint (p : Paint) (text : String) : String :=
  if style.colors then escape p.number ++ text ++ escape 0 else text

/-- A line of 60 characters. -/
def line (c : Char) : String :=
  String.ofList (List.replicate 60 c)

/-- The line above and below a report. -/
def rule : String :=
  style.paint .bold (line '=')

/-- The first characters of a text. -/
def clip (n : Nat) (text : String) : String :=
  String.ofList (text.toList.take n)

/-- A step of a path: its words, or else where it stands. -/
def stepText (l : Location) : String :=
  match l.snippet with
  | some s => if s == "" then l.toText else s
  | none => l.toText

/-- The lines on paths, numbered from `n` on. -/
def pathLines (n : Nat) : List (List Location) → List String
  | [] => []
  | path :: rest =>
    let steps := " <- ".intercalate (path.map stepText)
    ("  Path " ++ toString n ++ ": " ++ clip 200 steps) :: pathLines (n + 1) rest

/-- The lines on a finding. -/
def findingLines (f : Finding) : List String :=
  let head := ["",
    "  " ++ style.paint .bold f.vulnerability.ruleId ++ ": " ++ f.vulnerability.displayName,
    "  Location: " ++ f.location.toText]
  let sink :=
    match f.location.snippet with
    | some s => if s == "" then [] else ["  Sink: " ++ clip 80 s]
    | none => []
  let more :=
    if style.verbose then
      ["  Kind: " ++ f.kind.toText ++ " (" ++ f.confidence.toText ++ " confidence)",
       "  CWE: " ++ f.vulnerability.cwe] ++ pathLines 1 f.paths
    else []
  head ++ sink ++ ["  Source: " ++ f.message] ++ more

/-- The lines on the findings of a severity, if there are any. -/
def severityLines (r : ScanResult) (s : Severity) : List String :=
  match r.ofSeverity s with
  | [] => []
  | findings =>
    ["", style.paint (.ofSeverity s) ("[" ++ Text.upper s.toText ++ "]")]
      ++ findings.flatMap style.findingLines

/-- The lines before the findings. -/
def headLines (r : ScanResult) : List String :=
  ["", style.rule, style.paint .bold "  TAINT SCAN RESULTS", style.rule, "",
   "Target: " ++ r.target,
   "Files scanned: " ++ toString r.filesScanned,
   "Vulnerability classes: " ++ toString r.checked.length,
   "Scan duration: " ++ Text.fixed 2 r.duration ++ " seconds"]
    ++ (if r.cancelled then
        [style.paint (.ofSeverity .high) "Scan cancelled, results are partial"]
      else [])

/-- The lines with the numbers of findings. -/
def summaryLines (r : ScanResult) : List String :=
  ["", style.paint .bold "SUMMARY BY SEVERITY:"]
    ++ (r.summary.filter fun p => p.2 ≠ 0).map (fun (s, n) =>
      "  " ++ style.paint (.ofSeverity s) (Text.upper s.toText) ++ ": " ++ toString n)
    ++ [""]

/-- The lines with the findings. -/
def findingsLines (r : ScanResult) : List String :=
  if r.findings.isEmpty then [style.paint .green "No tainted data flows found!"]
  else
    [style.paint .bold ("FINDINGS (" ++ toString r.findings.length ++ " total):"), line '-']
      ++ Severity.all.flatMap (style.severityLines r)

/-- The lines with what went wrong. -/
def errorLines (r : ScanResult) : List String :=
  if r.errors.isEmpty then []
  else
    ["", style.paint (.ofSeverity .critical) "ERRORS:"] ++ r.errors.map fun e => "  - " ++ e

end ConsoleStyle

/-- The console report of a result. -/
def console (style : ConsoleStyle) (r : ScanResult) : String :=
  "\n".intercalate
    (style.headLines r ++ style.summaryLines r ++ style.findingsLines r ++ style.errorLines r
      ++ ["", style.rule])

end TaintFlow.Report
