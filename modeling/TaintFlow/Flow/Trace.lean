import TaintFlow.CallGraph
import TaintFlow.Catalog.Basic
import TaintFlow.Flow.Record
import TaintFlow.TrustedLines

/-!
# Backward tracing

Starting at an argument of a sink, a trace walks backwards towards the possible origins of the
argument's value:

* from an expression to its operands, each in a branch of the record,
* from a variable to its value,
* from a parameter to the arguments at the places that call the method,
* from a call to the expressions that the called method returns.

The last three are *hops*, and a trace makes a bounded number of them.  `visit` walks one
expression with a given continuation for hops; `traceFrom` ties the knot by recursion on the
number of hops that are left.
-/

namespace TaintFlow.Flow

open TaintFlow.Code TaintFlow.Types TaintFlow.Catalog

/-- Why a trace cannot go on. -/
inductive Fault where
  /-- An expression of a form that has no rule. -/
  | noRule
  /-- A place, counted from the end, before the first argument. -/
  | noArgument (index : Int)
  /-- A record that has its verdict already. -/
  | closed (cause : Closed)
  deriving DecidableEq, Repr

/-- What a trace is made against. -/
structure Engine where
  graph : CallGraph
  catalog : Catalog
  trusted : TrustedLines := {}
  /-- The number of hops that a trace makes at most. -/
  maxDepth : Nat := 10
  deriving Repr

/-- What is said of a bound on the number of hops that is not positive. -/
def depthMessage (maxDepth : Int) : String :=
  "max_depth must be positive, got " ++ toString maxDepth

/-- A trace that continues a record one hop further. -/
abbrev Hop := Record → Option Expr → Except Fault Record

/-- Appends an expression to a record. -/
def extend (r : Record) (e : Expr) : Except Fault Record :=
  (r.append e).mapError Fault.closed

/-- Continues a record in one branch for each item. -/
def branchEach {α : Type} (go : α → Record → Except Fault Record) :
    List α → Record → Except Fault Record
  | [], r => .ok r
  | x :: xs, r => do
    let child ← (r.branch).mapError Fault.closed
    let child ← go x child
    branchEach go xs (r.addChild child)

/-- The argument at a place; there is none beyond the last one, and a negative place counts from
the end. -/
def argumentAt (arguments : List Expr) (index : Int) : Except Fault (Option Expr) :=
  if index < 0 then
    if index + arguments.length < 0 then .error (.noArgument index)
    else .ok arguments[(index + arguments.length).toNat]?
  else .ok arguments[index.toNat]?

section

variable (E : Engine) (rule : Rule)

/-- The steps common to all expressions: an accepted expression is safe, any other joins the path.
Then the trace ends if no hop is left or the expression is trusted. -/
def enter (next : Option Hop) (e : Expr) (r : Record)
    (go : Hop → Record → Except Fault Record) : Except Fault Record :=
  if rule.accepts e then .ok (r.close .safe)
  else do
    let r ← extend r e
    match next with
    | none => .ok (r.close .depthExceeded)
    | some hop => if E.trusted.covers e then .ok (r.close .safe) else go hop r

/-- Continues at the arguments of every call of the method that owns a parameter. -/
def visitInvokers (hop : Hop) (owner : Signature) (index : Int) (r : Record) :
    Except Fault Record :=
  match E.graph.invokers owner with
  | [] => .ok (r.close .safe)
  | invokers =>
    branchEach (fun invoker child => do
      let argument ← argumentAt invoker.2.arguments index
      hop child argument) invokers r

/-- Continues at the value of a variable, or at the call sites of a parameter. -/
def visitBinding (hop : Hop) (n : Name) (r : Record) : Except Fault Record :=
  match E.graph.valueOf n with
  | some value => hop r (some value)
  | none =>
    match n.binding with
    | some ⟨_, _, .parameter, _, some owner, _, index, _, _⟩ =>
      visitInvokers E hop owner index r
    | _ => .ok (r.close .safe)

/-- Traces a simple name. -/
def visitName (next : Option Hop) (n : Name) (r : Record) : Except Fault Record :=
  enter E rule next (.name n) r fun hop r => visitBinding E hop n r

/-- Decides a call: cleaned by a sanitizer, tainted by an entry point, as safe as what the called
method returns, or unknown. -/
def visitCall (hop : Hop) (call : Expr) (method : String) (r : Record) : Except Fault Record :=
  if (E.catalog.sanitizationPoint? call).isSome then .ok (r.close .safe)
  else
    match E.catalog.entryPoint? call with
    | some p => .ok (r.close (.vulnerable .entryPoint ("Entry point method: " ++ p.toText)))
    | none =>
      match E.graph.resolve (some call.position.unit) call with
      | some ⟨_, _, _, _, some body, _⟩ =>
        match body.returns with
        | [] => .ok (r.close .safe)
        | returned => branchEach (fun e child => hop child (some e)) returned r
      | _ => .ok (r.close (.vulnerable .unknown ("unresolvable call: " ++ method)))

/-- The steps for an expression whose value comes from its operands; without any it is safe. -/
def enterOperands (next : Option Hop) (e : Expr) (r : Record)
    (go : Record → Except Fault Record) : Except Fault Record :=
  enter E rule next e r fun _ r => if e.operands.isEmpty then .ok (r.close .safe) else go r

mutual

/-- Traces an expression, with `next` for the hops. -/
def visit (next : Option Hop) : Expr → Record → Except Fault Record
  | e@(.literal ..), r => enter E rule next e r fun _ r => .ok (r.close .safe)
  | e@(.binary _ _ a b), r => enterOperands E rule next e r fun r => do
      visitOpt next b (← visitOpt next a r)
  | e@(.unary _ _ a), r => enterOperands E rule next e r (visitOpt next a)
  | e@(.conditional _ _ a b), r => enterOperands E rule next e r fun r => do
      visitOpt next b (← visitOpt next a r)
  | e@(.assignment _ _ a b), r => enterOperands E rule next e r fun r => do
      visitOpt next b (← visitOpt next a r)
  | e@(.cast _ _ a), r => enterOperands E rule next e r (visitOpt next a)
  | e@(.creation _ _ es), r => enterOperands E rule next e r (visitAll next es)
  | e@(.array _ es _), r => enterOperands E rule next e r (visitAll next es)
  | e@(.parenthesized _ a), r => enterOperands E rule next e r (visitOpt next a)
  | .name n, r => visitName E rule next n r
  | e@(.qualified _ _ m), r => enter E rule next e r fun _ r =>
      match m with
      | none => .ok (r.close .safe)
      | some n => visitName E rule next n r
  | e@(.call _ method _ _ _ _), r => enter E rule next e r fun hop r => visitCall E hop e method r
  | e@(.unsupported ..), r => enter E rule next e r fun _ r => .ok (r.close .safe)
  | e@(.textOnly _), r => enter E rule next e r fun _ _ => .error .noRule
termination_by structural e => e

/-- Traces an operand in a branch of the record, if there is one. -/
def visitOpt (next : Option Hop) : Option Expr → Record → Except Fault Record
  | none, r => .ok r
  | some e, r => do
    let child ← (r.branch).mapError Fault.closed
    let child ← visit next e child
    .ok (r.addChild child)
termination_by structural e => e

/-- Traces each operand in a branch of the record. -/
def visitAll (next : Option Hop) : List Expr → Record → Except Fault Record
  | [], r => .ok r
  | e :: es, r => do
    let child ← (r.branch).mapError Fault.closed
    let child ← visit next e child
    visitAll next es (r.addChild child)
termination_by structural es => es

end

/-- Continues a record at an expression with the given continuation for hops; nothing to go on
with is safe. -/
def continueAt (next : Option Hop) : Hop
  | r, none => .ok (r.close .safe)
  | r, some e => visit E rule next e r

/-- Continues a record at an expression when `left` hops may still be made. -/
def traceFrom : (left : Nat) → Hop
  | 0, r, e => continueAt E rule none r e
  | left + 1, r, e => continueAt E rule (some (traceFrom left)) r e

/-- Continues a record at an expression after `depth` hops. -/
def trace (depth : Int) : Hop :=
  traceFrom E rule (E.maxDepth - depth).toNat

end

/-- Traces the arguments of a sink for the rules from place `index` on. -/
def traceArguments (E : Engine) (call : Expr) : Nat → List Rule → Except Fault (List Record)
  | _, [] => .ok []
  | index, rule :: rules =>
    if rule.ignore then traceArguments E call (index + 1) rules
    else do
      let start : Record := { sink := some call, parameter := some index }
      let record ← trace E rule 0 start call.arguments[index]?
      let records ← traceArguments E call (index + 1) rules
      .ok (record :: records)

/-- Traces every argument of a sink that its exit point does not ignore. -/
def checkSink (E : Engine) (call : Expr) (exit : ExitPoint) : Except Fault (List Record) :=
  traceArguments E call 0 exit.rules

end TaintFlow.Flow
