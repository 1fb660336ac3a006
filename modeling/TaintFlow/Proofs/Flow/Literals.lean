import TaintFlow.Proofs.Flow.Chain
import TaintFlow.Proofs.Flow.Exposure

/-!
# Accepting literals is a shortcut only

A rule may accept literals.  Then everything that reduces to a literal is safe as it is written, and
is not looked into.  Without that, a trace walks over the operands down to the literals and finds
nothing: `Expr.reducesToLiteral` knows no form of expression through which taint could come.

* `exposures_trace_of_reducesToLiteral` : what reduces to a literal exposes nothing, under any rule.
* `trace_withLiterals_exposes_same` : so accepting literals changes none of the exposures of a
  trace, wherever on its way it meets them.
-/

namespace TaintFlow

open TaintFlow.Code TaintFlow.Catalog

/-! ### Forms that reduce to a literal -/

namespace Code.Expr

/-- The forms that can reduce to a literal, with operands that do so too. -/
theorem forall_operands_of_reducesToLiteral {e : Expr} (h : e.reducesToLiteral = true) :
    ∀ a ∈ e.operands, a.reducesToLiteral = true := by
  have single : ∀ {o : Option Expr}, reducesToLiteralOpt o = true →
      ∀ a ∈ o.toList, a.reducesToLiteral = true := by
    rintro (_ | x) h a ha
    · cases ha
    · rw [List.mem_singleton.1 ha]
      exact h
  cases e with
  | literal o k => exact nofun
  | parenthesized o a => exact single h
  | cast o t a => exact single h
  | unary o op a => exact single h
  | binary o op l r =>
    rcases l with _ | l <;> rcases r with _ | r
    · cases h
    · exact single (o := some r) h
    · exact single (o := some l) h
    · obtain ⟨hl, hr⟩ := Bool.and_eq_true_iff.1 h
      simp [operands, hl, hr]
  | _ => cases h

/-- The category of literals belongs to no other form. -/
theorem reducesToLiteral_of_kind {e : Expr} (h : e.kind.code = Kind.literal.code) :
    e.reducesToLiteral = true := by
  cases e with
  | literal o k => rfl
  | _ => cases h

end Code.Expr

/-! ### Rules with literals -/

namespace Catalog.Rule

/-- The rule that accepts literals besides what it accepts already. -/
def withLiterals (rule : Rule) : Rule :=
  { rule with accepted := (Kind.literal.code : ℤ) :: rule.accepted }

theorem accepts_withLiterals (rule : Rule) (e : Expr) :
    rule.withLiterals.accepts e = (rule.accepts e || e.reducesToLiteral) := by
  have hkind : ((e.kind.code : ℤ) == Kind.literal.code) = true → e.reducesToLiteral = true :=
    fun h => Expr.reducesToLiteral_of_kind (Int.ofNat.inj (eq_of_beq h))
  have hliterals : rule.withLiterals.acceptsLiterals = true := by
    simp [acceptsLiterals, withLiterals]
  rw [accepts, accepts, hliterals, Bool.true_and]
  simp only [withLiterals, List.contains_cons]
  cases hl : e.reducesToLiteral with
  | true => simp
  | false =>
    rw [Bool.eq_false_iff.2 fun hk => Bool.false_ne_true (hl.symm.trans (hkind hk))]
    simp

end Catalog.Rule

namespace Flow

variable {E : Engine} {rule : Rule}

theorem move_of_reducesToLiteral {e : Expr} (h : e.reducesToLiteral = true) :
    move E e = .spread 0 (e.operands.map fun a => .ok (some a)) := by
  cases e with
  | name n => cases h
  | qualified o q m => cases h
  | call o method receiver args rt t => cases h
  | textOnly o => cases h
  | _ => rfl

variable (E rule) in
/-- **What reduces to a literal exposes nothing**, under any rule, and its trace does not fail. -/
theorem exposures_trace_of_reducesToLiteral :
    ∀ (depth : ℤ) (e : Option Expr), (∀ x ∈ e, x.reducesToLiteral = true) →
      ∀ r : Record, r.Fresh → (trace E rule depth r e).map Record.exposures = .ok [] := by
  refine calls_induction E rule fun depth e ih he r hr => ?_
  cases e with
  | none => exact exposures_trace_none depth hr
  | some e =>
    rw [exposures_trace depth e hr]
    rcases turn_cases E rule depth e with ⟨v, hv, hturn⟩ | ⟨-, -, -, hturn⟩
    · rw [hturn]
      exact Move.exposures_stop_eq_nil hv
    · -- the trace goes on at operands, and these reduce to literals as well
      have hspread := hturn.trans (move_of_reducesToLiteral (he e rfl))
      rw [hspread]
      refine Move.exposures_spread_eq_nil fun t ht => ?_
      obtain ⟨a, ha, rfl⟩ := List.mem_map.1 ht
      refine ⟨some a, rfl, ih _ _ (.intro ?_) ?_ _ (fresh_joined hr e)⟩
      · rw [hspread]
        exact mem_targets_spread.2 ⟨rfl, ht⟩
      · rintro x ⟨⟩
        exact Expr.forall_operands_of_reducesToLiteral (he e rfl) a ha

theorem turn_withLiterals {e : Expr} (h : e.reducesToLiteral = false) (depth : ℤ) :
    turn E rule.withLiterals depth e = turn E rule depth e := by
  rw [turn, turn, Rule.accepts_withLiterals, h, Bool.or_false]

theorem joined_withLiterals {e : Expr} (h : e.reducesToLiteral = false) (r : Record) :
    joined rule.withLiterals e r = joined rule e r := by
  rw [joined, joined, Rule.accepts_withLiterals, h, Bool.or_false]

variable (E rule) in
theorem exposures_trace_withLiterals :
    ∀ (depth : ℤ) (e : Option Expr) (r : Record), r.Fresh →
      (trace E rule.withLiterals depth r e).map Record.exposures =
        (trace E rule depth r e).map Record.exposures := by
  refine calls_induction E rule fun depth e ih r hr => ?_
  cases e with
  | none => rw [exposures_trace_none depth hr, exposures_trace_none depth hr]
  | some e =>
    by_cases hl : e.reducesToLiteral = true
    · -- the shortcut: nothing is exposed with it, and nothing without
      have he : ∀ x ∈ some e, x.reducesToLiteral = true := by
        rintro x ⟨⟩
        exact hl
      rw [exposures_trace_of_reducesToLiteral E _ depth _ he r hr,
        exposures_trace_of_reducesToLiteral E _ depth _ he r hr]
    · have hl' := Bool.eq_false_iff.2 hl
      rw [exposures_trace depth e hr, exposures_trace depth e hr, turn_withLiterals hl',
        joined_withLiterals hl']
      exact Move.exposures_congr fun k t ht => ih _ _ (.intro ht) _ (fresh_joined hr e)

/-- **Accepting literals changes no exposure.**  A trace under a rule and a trace under the same
rule with literals fail alike or expose the same paths with the same verdicts, so they agree on
being vulnerable.  For what reduces to a literal is found harmless by the walk over its operands. -/
theorem trace_withLiterals_exposes_same (E : Engine) (rule : Rule) (depth : ℤ) (e : Option Expr)
    (r : Record) (hr : r.Fresh) :
    (trace E rule.withLiterals depth r e).map Record.exposures =
        (trace E rule depth r e).map Record.exposures ∧
      (trace E rule.withLiterals depth r e).map Record.isVulnerable =
        (trace E rule depth r e).map Record.isVulnerable ∧
      ∀ x : Expr, x.reducesToLiteral = true → ∃ r', trace E rule depth r (some x) = .ok r' ∧
        r'.exposures = [] ∧ r'.isVulnerable = false := by
  have hsame := exposures_trace_withLiterals E rule depth e r hr
  have hverdict : ∀ t : Except Fault Record,
      t.map Record.isVulnerable = (t.map Record.exposures).map (!·.isEmpty) := by
    rintro (f | r')
    · rfl
    · exact congrArg Except.ok r'.isVulnerable_eq_exposures
  refine ⟨hsame, by rw [hverdict, hverdict, hsame], fun x hx => ?_⟩
  have hnil := exposures_trace_of_reducesToLiteral E rule depth (some x)
    (by rintro y ⟨⟩; exact hx) r hr
  cases htrace : trace E rule depth r (some x) with
  | error f => rw [htrace] at hnil; cases hnil
  | ok r' =>
    rw [htrace] at hnil
    have hexposures : r'.exposures = [] := Except.ok.inj hnil
    exact ⟨r', rfl, hexposures, by rw [r'.isVulnerable_eq_exposures, hexposures]; rfl⟩

/-- A literal joined with a variable. -/
def greeting : Expr :=
  .binary ⟨"(\"hi\") + x", "A.java", 3, 1⟩ "+"
    (some (.parenthesized ⟨"(\"hi\")", "A.java", 3, 1⟩
      (some (.literal ⟨"\"hi\"", "A.java", 3, 2⟩ .stringLiteral))))
    (some (.name (localName "x")))

/-- With and without the shortcut for its first operand, a sum is vulnerable for its second one. -/
theorem trace_greeting_exposes :
    Rule.literalOnly = Rule.withLiterals {} ∧
      (trace taintedValue .literalOnly 0 {} (some greeting)).map Record.exposures =
        (trace taintedValue {} 0 {} (some greeting)).map Record.exposures ∧
      (trace taintedValue {} 0 {} (some greeting)).map Record.exposures =
        .ok [([greeting, .name (localName "x"), plainCall "read"],
          .vulnerable .entryPoint "Entry point method: Reader.read")] :=
  ⟨rfl, (trace_withLiterals_exposes_same taintedValue {} 0 (some greeting) {} ⟨rfl, rfl⟩).1, rfl⟩

end Flow

end TaintFlow
