import TaintFlow.Text.Blank
import TaintFlow.Text.Case

/-!
# Vulnerability classes

The families of vulnerabilities that are checked, each with its number, its weakness identifier
and its severity.
-/

namespace TaintFlow

/-- How serious a finding is. -/
inductive Severity where
  | critical
  | high
  | medium
  | low
  | info
  deriving DecidableEq, Repr

namespace Severity

/-- All severities, the most serious first. -/
def all : List Severity :=
  [critical, high, medium, low, info]

/-- The word for a severity. -/
def toText : Severity → String
  | critical => "critical"
  | high => "high"
  | medium => "medium"
  | low => "low"
  | info => "info"

/-- Rank of a severity; a more serious one ranks higher. -/
def priority : Severity → Nat
  | critical => 5
  | high => 4
  | medium => 3
  | low => 2
  | info => 1

end Severity

/-- How certain a finding is. -/
inductive Confidence where
  | high
  | medium
  | low
  deriving DecidableEq, Repr

/-- The word for a confidence. -/
def Confidence.toText : Confidence → String
  | high => "high"
  | medium => "medium"
  | low => "low"

/-- Why a data flow counts as vulnerable. -/
inductive TaintKind where
  /-- It starts at a registered source of tainted data. -/
  | entryPoint
  /-- It starts at a call whose source is not available. -/
  | unknown
  deriving DecidableEq, Repr

/-- The word for the cause of a vulnerable flow. -/
def TaintKind.toText : TaintKind → String
  | entryPoint => "entry_point"
  | unknown => "unknown"

/-- A family of vulnerabilities. -/
inductive Vulnerability where
  | cookiePoisoning
  | crossSiteScripting
  | sqlInjection
  | unvalidatedRedirecting
  | commandInjection
  | httpResponseSplitting
  | logForging
  | pathTraversal
  | reflectionInjection
  deriving DecidableEq, Repr

namespace Vulnerability

/-- All families, by increasing number. -/
def all : List Vulnerability :=
  [cookiePoisoning, crossSiteScripting, sqlInjection, unvalidatedRedirecting, commandInjection,
   httpResponseSplitting, logForging, pathTraversal, reflectionInjection]

/-- Identifier of a family, also the name of its catalog file. -/
def key : Vulnerability → String
  | cookiePoisoning => "cookie_poisoning"
  | crossSiteScripting => "cross_site_scripting"
  | sqlInjection => "sql_injection"
  | unvalidatedRedirecting => "unvalidated_redirecting"
  | commandInjection => "command_injection"
  | httpResponseSplitting => "http_response_splitting"
  | logForging => "log_forging"
  | pathTraversal => "path_traversal"
  | reflectionInjection => "reflection_injection"

/-- Number of a family; the number 3 is not used. -/
def number : Vulnerability → Nat
  | cookiePoisoning => 1
  | crossSiteScripting => 2
  | sqlInjection => 4
  | unvalidatedRedirecting => 5
  | commandInjection => 6
  | httpResponseSplitting => 7
  | logForging => 8
  | pathTraversal => 9
  | reflectionInjection => 10

/-- Name of a family in reports. -/
def displayName : Vulnerability → String
  | cookiePoisoning => "Cookie Poisoning"
  | crossSiteScripting => "Cross Site Scripting"
  | sqlInjection => "Sql Injection"
  | unvalidatedRedirecting => "Unvalidated Redirecting"
  | commandInjection => "Command Injection"
  | httpResponseSplitting => "Http Response Splitting"
  | logForging => "Log Forging"
  | pathTraversal => "Path Traversal"
  | reflectionInjection => "Reflection Injection"

/-- A number written with at least three digits. -/
def threeDigits (n : Nat) : String :=
  let digits := toString n
  String.ofList (List.replicate (3 - digits.length) '0') ++ digits

/-- Identifier of the rule that reports a family. -/
def ruleId (v : Vulnerability) : String :=
  "TAINT-" ++ threeDigits v.number

/-- Identifier of the weakness in the common enumeration. -/
def cwe : Vulnerability → String
  | cookiePoisoning => "CWE-472"
  | crossSiteScripting => "CWE-79"
  | sqlInjection => "CWE-89"
  | unvalidatedRedirecting => "CWE-601"
  | commandInjection => "CWE-78"
  | httpResponseSplitting => "CWE-113"
  | logForging => "CWE-117"
  | pathTraversal => "CWE-22"
  | reflectionInjection => "CWE-470"

/-- Severity of the findings of a family. -/
def severity : Vulnerability → Severity
  | cookiePoisoning => .medium
  | crossSiteScripting => .high
  | sqlInjection => .critical
  | unvalidatedRedirecting => .medium
  | commandInjection => .critical
  | httpResponseSplitting => .medium
  | logForging => .low
  | pathTraversal => .high
  | reflectionInjection => .high

/-- The family with the given identifier. -/
def ofKey? (text : String) : Option Vulnerability :=
  all.find? fun v => v.key == text

/-- The family that a user names by identifier or number; case, blanks around the name and
hyphens in place of underscores do not matter. -/
def ofName? (name : String) : Option Vulnerability :=
  let text := (Text.lower (Text.trim name)).map fun c => if c == '-' then '_' else c
  all.find? fun v => text == v.key || text == toString v.number

/-- What is said of a name that denotes no family. -/
def unknownMessage (name : String) : String :=
  "Unknown vulnerability class: " ++ name

end Vulnerability

end TaintFlow
