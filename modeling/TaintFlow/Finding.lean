import TaintFlow.Flow.Record
import TaintFlow.Text.Blank

/-!
# Findings

A finding reports a parameter of a sink that tainted data can reach.  It is made from a record
with at least one vulnerable path, and keeps all of them.
-/

namespace TaintFlow

open TaintFlow.Code TaintFlow.Flow

/-- Where a finding, or a step of its data flow, stands. -/
structure Location where
  file : String
  line : Nat
  column : Option Nat := none
  snippet : Option String := none
  deriving DecidableEq, Repr

namespace Location

/-- File and line. -/
def toText (l : Location) : String :=
  l.file ++ ":" ++ toString l.line

/-- Where an expression stands, with its words. -/
def ofExpr (e : Expr) : Location where
  file := e.position.unit
  line := e.position.line
  column := some e.position.column
  snippet := some (Text.trim e.text)

end Location

/-- A sink parameter that tainted data can reach. -/
structure Finding where
  vulnerability : Vulnerability
  kind : TaintKind
  message : String
  severity : Severity
  confidence : Confidence
  location : Location
  /-- Place of the argument in the sink. -/
  parameter : Option Nat := none
  /-- The vulnerable paths, each from the sink backwards. -/
  paths : List (List Location) := []
  deriving DecidableEq, Repr

namespace Finding

/-- One sentence on the finding. -/
def description (f : Finding) : String :=
  let argument :=
    match f.parameter with
    | none => ""
    | some i => " (argument " ++ toString (i + 1) ++ ")"
  f.vulnerability.displayName ++ ": tainted data reaches sink" ++ argument ++ ". " ++ f.message

/-- The witness that a finding quotes: the first one that starts at an entry point, else the
first one. -/
def mainWitness? (witnesses : List Record) : Option Record :=
  (witnesses.find? fun w => w.verdict.kind? = some .entryPoint) <|> witnesses.head?

/-- The finding for a traced sink parameter, if its record has a vulnerable path. -/
def ofRecord? (v : Vulnerability) (unit : String) (record : Record) : Option Finding :=
  match record.sink, mainWitness? record.witnesses with
  | some sink, some main =>
    let fromEntry := main.verdict.kind? = some .entryPoint
    some
      { vulnerability := v
        kind := if fromEntry then .entryPoint else .unknown
        message := main.verdict.message?.getD ""
        severity := v.severity
        confidence := if fromEntry then .high else .medium
        location := { Location.ofExpr sink with file := unit }
        parameter := record.parameter
        paths := record.witnesses.map fun w => w.path.map Location.ofExpr }
  | _, _ => none

end Finding

end TaintFlow
