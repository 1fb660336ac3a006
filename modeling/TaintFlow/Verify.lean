import TaintFlow.Cancellation
import TaintFlow.Finding
import TaintFlow.Flow.Trace

/-!
# Verification

The check of one family of vulnerabilities: every call that fits an exit point is traced, and each
vulnerable record becomes a finding and is counted.  Units and methods are visited in order; before
each of them the cancellation token is asked.
-/

namespace TaintFlow.Verify

open TaintFlow.Code TaintFlow.Flow

/-- A traced sink.  It has no records when the trace could not go on. -/
structure Sink where
  call : Expr
  records : List Record
  deriving Repr

/-- What a check has seen and found so far. -/
structure Outcome where
  sinks : List Sink := []
  findings : List Finding := []
  /-- The number of problems, counted one by one. -/
  reported : Nat := 0
  cancellation : Cancellation := .never
  deriving Repr

/-- Reports the record of a parameter of a sink if it is vulnerable. -/
def report (v : Vulnerability) (unit : String) (o : Outcome) (record : Record) : Outcome :=
  if record.isVulnerable then
    match Finding.ofRecord? v unit record with
    | none => o
    | some finding =>
      { o with findings := o.findings ++ [finding], reported := o.reported + 1 }
  else o

/-- Traces a call if it fits an exit point, and reports its records. -/
def checkCall (E : Engine) (unit : String) (o : Outcome) (call : Expr) : Outcome :=
  match E.catalog.exitPoint? call with
  | none => o
  | some exit =>
    match checkSink E call exit with
    | .error _ => { o with sinks := o.sinks ++ [⟨call, []⟩] }
    | .ok records =>
      records.foldl (report E.catalog.vulnerability unit)
        { o with sinks := o.sinks ++ [⟨call, records⟩] }

/-- Checks the calls of the methods, one after the other. -/
def checkMethods (E : Engine) (unit : String) : List Method → Outcome → Outcome
  | [], o => o
  | m :: ms, o =>
    let (stop, token) := o.cancellation.poll
    let o := { o with cancellation := token }
    if stop then o
    else checkMethods E unit ms ((E.graph.calls unit m.signature).foldl (checkCall E unit) o)

/-- Checks the units, one after the other. -/
def checkUnits (E : Engine) : List String → Outcome → Outcome
  | [], o => o
  | unit :: units, o =>
    let (stop, token) := o.cancellation.poll
    let o := { o with cancellation := token }
    if stop then o else checkUnits E units (checkMethods E unit (E.graph.methods unit) o)

/-- Checks the given units of the call graph. -/
def run (E : Engine) (units : List String) (cancellation : Cancellation) : Outcome :=
  checkUnits E units { cancellation }

end TaintFlow.Verify
