import TaintFlow.Proofs.CallGraph.Occurrence
import TaintFlow.Proofs.Flow.Strategy

/-!
# Unrelated units change nothing

A trace looks up only what occurs in its graph, and what it finds occurs there too.  A source that
is unrelated to the graph gives no answer to any of these lookups, so every turn of a trace is what
it was, in the same order, and so is the whole tree.

* `turnBy_replaceUnit` : the turns of a trace with an unrelated source in the graph.
* `occurs_of_turnBy` : a trace never leaves what occurs in its graph.
* `checkSink_unaffected_by_unrelated_unit` : the records of every sink are the same.
-/

namespace TaintFlow.Flow

open TaintFlow.Code TaintFlow.Catalog

/-- The engine after a unit of its graph was replaced. -/
def Engine.withUnit (E : Engine) (s : SourceUnit) : Engine :=
  { E with graph := E.graph.replaceUnit s }

section

variable {S : Strategy} {E : Engine} {rule : Rule} {s : SourceUnit} (h : E.graph.Unrelated s)

include h

theorem moveName_replaceUnit {n : Name} (hn : E.graph.Occurs (.name n)) :
    moveName (E.withUnit s) n = moveName E n := by
  have hvalue : (E.withUnit s).graph.valueOf n = E.graph.valueOf n := h.valueOf_replaceUnit hn
  unfold moveName
  rw [hvalue]
  cases hp : n.parameter? with
  | none => rfl
  | some p =>
    have hinvokers : (E.withUnit s).graph.invokers p.1 = E.graph.invokers p.1 :=
      h.invokers_replaceUnit hn hp
    simp only [hinvokers]

theorem moveCall_replaceUnit {call : Expr} (hcall : E.graph.Occurs call) (method : String) :
    moveCall (E.withUnit s) call method = moveCall E call method := by
  have hresolve : (E.withUnit s).graph.resolve (some call.position.unit) call =
      E.graph.resolve (some call.position.unit) call := h.resolve_replaceUnit hcall _
  unfold moveCall
  rw [hresolve]
  rfl

theorem moveBy_replaceUnit {e : Expr} (he : E.graph.Occurs e) :
    moveBy S (E.withUnit s) e = moveBy S E e := by
  cases e with
  | name n => exact moveName_replaceUnit h he
  | call o method receiver args rt type =>
    have hmove : move (E.withUnit s).unsanitized (.call o method receiver args rt type) =
        move E.unsanitized (.call o method receiver args rt type) :=
      moveCall_replaceUnit (E := E.unsanitized) h he method
    simp only [moveBy, hmove]
  | _ => rfl

/-- **The turns of a trace** are the same with an unrelated source in the graph. -/
theorem turnBy_replaceUnit (depth : ℤ) {e : Expr} (he : E.graph.Occurs e) :
    turnBy S (E.withUnit s) rule depth e = turnBy S E rule depth e := by
  unfold turnBy
  rw [moveBy_replaceUnit h he]
  rfl

end

/-- Wherever a turn leads, it leads to what occurs in the graph. -/
theorem occurs_of_turnBy {S : Strategy} {E : Engine} {rule : Rule} {depth : ℤ} {e : Expr}
    (he : E.graph.Occurs e) {hops : ℕ} {t : Option Expr}
    (h : (hops, t) ∈ (turnBy S E rule depth e).targets) : ∀ x ∈ t, E.graph.Occurs x := by
  intro x hx
  rcases (targets_turnBy h).2 with ⟨-, hpart⟩ | ⟨-, hlanding⟩
  · exact he.of_mem_parts (hpart x hx)
  · exact CallGraph.occurs_of_mem_landings (hlanding x hx)

/-- **An unrelated unit changes nothing**: with or without it in the graph, the check of a call that
is recorded there comes to the same trees of records, or to the same fault, whatever the exit
point, the catalog, the bound on hops and the strategy are. -/
theorem checkSink_unaffected_by_unrelated_unit (E : Engine) (s : SourceUnit)
    (h : E.graph.Unrelated s) (call : Expr) (hcall : call ∈ E.graph.recordedCalls)
    (exit : ExitPoint) :
    (∀ S : Strategy, checkSinkBy S { E with graph := E.graph.replaceUnit s } call exit =
      checkSinkBy S E call exit) ∧
    checkSink { E with graph := E.graph.replaceUnit s } call exit = checkSink E call exit := by
  have hoccurs := CallGraph.occurs_of_mem_recordedCalls hcall
  have hby : ∀ S : Strategy, checkSinkBy S (E.withUnit s) call exit = checkSinkBy S E call exit :=
    fun S => checkSinkBy_congr (P := E.graph.Occurs)
      (fun rule depth e he => turnBy_replaceUnit h depth he)
      (fun rule depth e he hops t ht => occurs_of_turnBy he ht)
      fun a ha => hoccurs.of_mem_arguments ha
  refine ⟨hby, ?_⟩
  -- the strategy of an engine does not depend on its graph
  have hown := hby E.strategy
  rw [checkSinkBy_strategy] at hown
  rw [← hown]
  exact (checkSinkBy_strategy (E.withUnit s) call exit).symm

/-- A unit with a variable and a method that are called as others are in `Verify.twoCalls`. -/
def namesakes : SourceUnit :=
  { CallGraph.relay "B.java" "run" "read" with
    bindings := ⟨[(⟨"B.java", "x", .localVar, none, none, none, 0, 0, 0⟩, plainCall "read")]⟩ }

/-- What occurs in `Verify.twoCalls`: the two sinks, their arguments, and the call of the entry
point. -/
theorem occurs_twoCalls {e : Expr} (h : Verify.twoCalls.graph.Occurs e) :
    e ∈ [Verify.formlessSink, taintedSink, plainCall "read", .name (localName "x"),
      .literal ⟨"0", "A.java", 2, 5⟩ .numberLiteral, .textOnly ⟨"?", "A.java", 2, 8⟩,
      .literal ⟨"0", "A.java", 3, 5⟩ .numberLiteral] := by
  refine h.closed (P := fun e => e ∈ _) ?_ ?_
  · have hall : Verify.twoCalls.graph.expressions = [Verify.formlessSink, taintedSink,
        Verify.formlessSink, taintedSink, plainCall "read"] := rfl
    rw [hall]
    simp
  · simp [Expr.components, Expr.operands, Verify.formlessSink, taintedSink, plainCall]

/-- Namesakes in another unit do not change what is found at a sink. -/
theorem checkSink_twoCalls_with_namesakes :
    checkSink { Verify.twoCalls with graph := Verify.twoCalls.graph.replaceUnit namesakes }
        taintedSink runPoint = checkSink Verify.twoCalls taintedSink runPoint ∧
      checkSink Verify.twoCalls taintedSink runPoint = .ok [Verify.taintedRecord] := by
  have hunrelated : Verify.twoCalls.graph.Unrelated namesakes := by
    refine ⟨by decide, fun e he m hm => ?_, fun n owner index hn howner => ?_, fun n b hn hb => ?_⟩
    · obtain rfl := List.mem_singleton.1 hm
      have hmem := occurs_twoCalls he
      simp only [List.mem_cons, List.not_mem_nil, or_false] at hmem
      rcases hmem with rfl | rfl | rfl | rfl | rfl | rfl | rfl <;> rfl
    · have hmem := occurs_twoCalls hn
      simp [Verify.formlessSink, taintedSink, plainCall] at hmem
      subst hmem
      cases howner
    · have hmem := occurs_twoCalls hn
      simp [Verify.formlessSink, taintedSink, plainCall] at hmem
      subst hmem
      cases hb
      decide
  have hcall : taintedSink ∈ Verify.twoCalls.graph.recordedCalls := .tail _ (.head _)
  exact ⟨(checkSink_unaffected_by_unrelated_unit Verify.twoCalls namesakes hunrelated taintedSink
    hcall runPoint).2, rfl⟩

end TaintFlow.Flow
