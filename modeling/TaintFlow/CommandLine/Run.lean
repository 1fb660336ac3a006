import TaintFlow.CommandLine.Arguments
import TaintFlow.Config.Load
import TaintFlow.Scanner

/-!
# Runs of the program

A run reads its arguments, scans the target and reports the result.  It takes the files, the
environment and the readers of texts as values, and answers what it prints, the files it leaves
behind and how it ends.
-/

namespace TaintFlow.CommandLine

open TaintFlow.Files

/-- What a run depends on besides its arguments. -/
structure World where
  readers : Readers
  files : FileSystem
  environment : Config.Environment := []
  /-- Whether standard output is a terminal. -/
  isTerminal : Bool := false
  /-- The time of a report. -/
  timestamp : String := ""

/-- Why a run fails. -/
inductive RunError where
  | config (e : ConfigError)
  | catalog (e : CatalogError)
  | scan (f : ScanFault)
  | output (path : String) (f : Files.Fault)

/-- The text of an error. -/
def RunError.message : RunError → String
  | config e => e.message
  | catalog e => e.message
  | scan f => f.message
  | output path f => f.message path

/-- How a run ends. -/
inductive Ending where
  | exit (code : Nat)
  /-- Arguments that cannot be used, or an option that only shows something. -/
  | usage (code : Nat)
  /-- An error that is not caught. -/
  | crash (e : RunError)

/-- What a run does. -/
structure Outcome where
  ending : Ending
  printed : String := ""
  /-- What goes to standard error. -/
  complaint : String := ""
  files : FileSystem

/-! ### Listing -/

/-- The mark of a severity in listings. -/
def severityMark : Severity → String
  | .critical => "!"
  | .high => "*"
  | .medium => "+"
  | .low => "-"
  | .info => " "

/-- A text with blanks after it up to a width. -/
def padRight (width : Nat) (text : String) : String :=
  text ++ String.ofList (List.replicate (width - text.length) ' ')

/-- A text with blanks before it up to a width. -/
def padLeft (width : Nat) (text : String) : String :=
  String.ofList (List.replicate (width - text.length) ' ') ++ text

/-- What the listing says of the catalog of a family. -/
def catalogDetail (read : ValueReader) (fs : FileSystem) (v : Vulnerability)
    (s : Catalog.Store) : Except CatalogError String × Catalog.Store :=
  if !(s.available fs).contains v then (.ok "no catalog", s)
  else
    match (Catalog.Store.load read fs v).run.run s with
    | (.ok c, s) =>
      (.ok (toString c.exitPoints.length ++ " sinks, "
        ++ toString c.sanitizationPoints.length ++ " sanitizers"), s)
    | (.error e, s) =>
      if e.isOfCatalog then (.ok ("invalid catalog: " ++ e.message), s) else (.error e, s)

/-- A line of the listing. -/
def listingLine (v : Vulnerability) (detail : String) : String :=
  severityMark v.severity ++ " " ++ padLeft 2 (toString v.number) ++ " " ++ padRight 26 v.key
    ++ " " ++ padRight 8 v.cwe ++ " " ++ padRight 9 v.severity.toText ++ " " ++ detail ++ "\n"

/-- The listing of families, and the error at which it stops. -/
def listing (read : ValueReader) (fs : FileSystem) :
    List Vulnerability → Catalog.Store → String × Option CatalogError
  | [], _ => ("", none)
  | v :: vs, s =>
    match catalogDetail read fs v s with
    | (.error e, _) => ("", some e)
    | (.ok detail, s) =>
      let (rest, error) := listing read fs vs s
      (listingLine v detail ++ rest, error)

/-- Lists the families with the sizes of their catalogs. -/
def listClasses (w : World) (a : Arguments) : Outcome :=
  let origin := Catalog.Origin.ofDirectory?
    ((a.catalogDir.filter (· ≠ "")).map Path.normal)
  let order := Vulnerability.all.mergeSort fun u v => u.number ≤ v.number
  match listing w.readers.document w.files order { origin } with
  | (printed, none) => { ending := .exit 0, printed, files := w.files }
  | (printed, some e) => { ending := .crash (.catalog e), printed, files := w.files }

/-! ### Scanning -/

/-- The options of the configuration among the arguments. -/
def configOptions (a : Arguments) : Config.Options where
  configFile := a.config
  vulnerabilities := (a.vulnerabilities.map fun vs => .list (vs.map Value.text)).getD .null
  catalogDir := (a.catalogDir.map Value.text).getD .null
  maxDepth := (a.maxDepth.map Value.int).getD .null
  endings := (a.endings.map fun es => .list (es.map Value.text)).getD .null
  directive := (a.directive.map Value.text).getD .null

/-- The outcome of a run that fails. -/
def failed (w : World) (a : Arguments) (e : RunError) : Outcome :=
  let complain (text : String) : Outcome :=
    { ending := .exit 1, complaint := text ++ "\n", files := w.files }
  match e with
  | .config c =>
    if c.isOfConfig then complain ("Configuration error: " ++ c.message)
    else if a.debug then { ending := .crash e, files := w.files }
    else complain ("Error: " ++ e.message)
  | _ =>
    if a.debug then { ending := .crash e, files := w.files }
    else complain ("Error: " ++ e.message)

/-- Scans the target. -/
def scanTarget (w : World) (a : Arguments) (target : String) : Except RunError ScanResult :=
  match Config.create w.readers.document w.files w.environment (configOptions a) with
  | .error e => .error (.config e)
  | .ok c =>
    let excludes := a.excludes.map Value.text
    match (Scanner.new w.readers c).scan w.files target excludes .never with
    | (_, .error f) => .error (.scan f)
    | (_, .ok r) => .ok r

/-- The format of the report. -/
def reportFormat (w : World) (a : Arguments) : ReportFormat :=
  let style : Report.ConsoleStyle := { colors := !a.noColor && w.isTerminal, verbose := a.verbose }
  (ReportFormat.ofName? style a.format).getD (.console style)

/-- Reports the result of a scan. -/
def report (w : World) (a : Arguments) (r : ScanResult) : Outcome :=
  match Report.deliver w.files (reportFormat w a) w.timestamp r a.output with
  | .error f => failed w a (.output (a.output.getD "") f)
  | .ok d => { ending := .exit r.exitCode, printed := d.printed, files := d.files }

/-! ### Runs -/

/-- What is shown for the option that asks for help. -/
def helpText : String :=
  "usage: " ++ Report.programName ++ " [options] [target]\n\n"
    ++ "Trace untrusted input into dangerous Java calls\n\noptions:\n"
    ++ String.join (Flag.all.map fun f => "  " ++ ", ".intercalate f.names ++ "\n")

/-- The outcome of arguments that end a run early. -/
def stopped (w : World) : Stop → Outcome
  | .help => { ending := .usage 0, printed := helpText, files := w.files }
  | .version =>
    { ending := .usage 0
      printed := Report.programName ++ " " ++ Report.programVersion ++ "\n"
      files := w.files }
  | .error e =>
    { ending := .usage 2
      complaint := Report.programName ++ ": error: " ++ e.message ++ "\n"
      files := w.files }

/-- A run up to the report: its outcome, or the result that is to be reported. -/
def prepare (w : World) (texts : List String) : Outcome ⊕ (Arguments × ScanResult) :=
  match Arguments.ofTexts texts with
  | .error stop => .inl (stopped w stop)
  | .ok a =>
    if a.listClasses then .inl (listClasses w a)
    else
      let complain (text : String) : Outcome :=
        { ending := .exit 1, complaint := text ++ "\n", files := w.files }
      match a.target.filter (· ≠ "") with
      | none => .inl (complain "Error: a target path is required")
      | some target =>
        if !w.files.contains target then
          .inl (complain ("Error: Target path does not exist: " ++ target))
        else
          match scanTarget w a target with
          | .error e => .inl (failed w a e)
          | .ok r => .inr (a, r)

/-- A run of the program. -/
def run (w : World) (texts : List String) : Outcome :=
  match prepare w texts with
  | .inl o => o
  | .inr (a, r) => report w a r

end TaintFlow.CommandLine
