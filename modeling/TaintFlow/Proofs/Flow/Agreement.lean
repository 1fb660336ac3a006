import TaintFlow.Proofs.CallGraph.Sources
import TaintFlow.Proofs.Flow.Recursion
import TaintFlow.Proofs.Verify

/-!
# Graphs with the same tables are checked alike

A trace asks its call graph for values, callers and methods only, and graphs with the same tables
give the same answers.  So a trace does the same at every turn, and the equation of a trace has no
other solution.

* `trace_of_same` : traces in graphs with the same tables are equal.
* `run_of_same` : so are the outcomes of checks.
-/

namespace TaintFlow

open TaintFlow.Code TaintFlow.Catalog TaintFlow.Flow

namespace CallGraph.Same

variable {g g' : CallGraph} (h : g.Same g')

include h

theorem valueOf_eq (n : Name) : g.valueOf n = g'.valueOf n := by
  unfold valueOf
  rw [h.bindings]

theorem invokers_eq (s : Signature) : g.invokers s = g'.invokers s := by
  unfold invokers Table.getD
  rw [h.index]

theorem resolve_eq (unit : Option String) (call : Expr) :
    g.resolve unit call = g'.resolve unit call := by
  unfold resolve
  rw [h.units]

theorem methods_eq (unit : String) : g.methods unit = g'.methods unit := by
  unfold methods
  rw [h.units]

theorem calls_eq (unit : String) (s : Signature) : g.calls unit s = g'.calls unit s := by
  unfold calls
  rw [h.units]

end CallGraph.Same

section

variable (E : Engine) {g : CallGraph} (h : E.graph.Same g)

include h

namespace Flow

theorem turn_of_same (rule : Rule) (depth : ℤ) (e : Expr) :
    turn E rule depth e = turn { E with graph := g } rule depth e := by
  have hmove : move E e = move { E with graph := g } e := by
    cases e with
    | name n =>
      simp only [move, moveName]
      rw [h.valueOf_eq n, funext h.invokers_eq]
    | call o method receiver args rt type =>
      simp only [move, moveCall]
      rw [h.resolve_eq]
    | _ => rfl
  unfold turn
  rw [hmove]

/-- **Traces in graphs with the same tables are equal.** -/
theorem trace_of_same (rule : Rule) : trace E rule = trace { E with graph := g } rule := by
  refine eq_trace_of_eq_body fun depth r e => ?_
  rw [trace_eq_body]
  cases e with
  | none => rfl
  | some e => simp only [body, turn_of_same E h]

theorem checkSink_of_same (call : Expr) (exit : ExitPoint) :
    checkSink E call exit = checkSink { E with graph := g } call exit := by
  have harguments : ∀ index rules, traceArguments E call index rules =
      traceArguments { E with graph := g } call index rules := by
    intro index rules
    induction rules generalizing index with
    | nil => rfl
    | cons rule rules ih => simp only [traceArguments, ih, trace_of_same E h]
  exact harguments 0 exit.rules

end Flow

namespace Verify

theorem checkCall_of_same (unit : String) :
    checkCall E unit = checkCall { E with graph := g } unit := by
  funext o call
  unfold checkCall
  simp only [checkSink_of_same E h]

theorem checkMethods_of_same (unit : String) (ms : List Method) (o : Outcome) :
    checkMethods E unit ms o = checkMethods { E with graph := g } unit ms o := by
  induction ms generalizing o with
  | nil => rfl
  | cons m ms ih =>
    unfold checkMethods
    simp only [checkCall_of_same E h, h.calls_eq, ih]

theorem checkUnits_of_same (units : List String) (o : Outcome) :
    checkUnits E units o = checkUnits { E with graph := g } units o := by
  induction units generalizing o with
  | nil => rfl
  | cons unit units ih =>
    unfold checkUnits
    simp only [checkMethods_of_same E h, h.methods_eq, ih]

/-- **Checks in graphs with the same tables have the same outcome.** -/
theorem run_of_same (units : List String) (c : Cancellation) :
    run E units c = run { E with graph := g } units c :=
  checkUnits_of_same E h units { cancellation := c }

end Verify

end

end TaintFlow
