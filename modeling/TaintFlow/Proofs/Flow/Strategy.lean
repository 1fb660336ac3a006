import TaintFlow.Proofs.Findings
import TaintFlow.Proofs.Flow.Recursion

/-!
# Traces under other strategies

Two decisions of a trace can be made by others: which calls clean their results, and which
expressions the user trusts.  `Strategy` holds both, and `traceBy` is the trace that asks it.  An
engine has a strategy of its own, made of the sanitization points of its catalog and of the trusted
lines.

* `traceBy_some` : the equation of such a trace.
* `traceBy_strategy`, `checkSinkBy_strategy` : with the engine's own strategy it is the trace, and
  the check of a sink.
* `traceBy_congr`, `checkSinkBy_congr` : two engines trace alike where their turns agree on a set of
  expressions that no turn leaves.
-/

namespace TaintFlow.Flow

open TaintFlow.Code TaintFlow.Catalog

/-- The decisions that a trace leaves to others. -/
structure Strategy where
  /-- Whether a call cleans its result. -/
  sanitizes : Expr → Bool
  /-- Whether the user trusts an expression. -/
  trusts : Expr → Bool

/-- The decisions that an engine makes by its catalog and its trusted lines. -/
def Engine.strategy (E : Engine) : Strategy where
  sanitizes call := (E.catalog.sanitizationPoint? call).isSome
  trusts := E.trusted.covers

/-- The engine without sanitization points. -/
def Engine.unsanitized (E : Engine) : Engine :=
  { E with catalog := { E.catalog with sanitizationPoints := [] } }

section

variable (S : Strategy) (E : Engine) (rule : Rule)

/-- The move at an expression that is neither accepted nor trusted: at a call that is not cleaned
it is the move of the engine without sanitization points. -/
def moveBy : Expr → Move
  | e@(.call ..) => if S.sanitizes e then .stop .safe else move E.unsanitized e
  | e => move E e

/-- What a trace does at an expression after `depth` hops. -/
def turnBy (depth : ℤ) (e : Expr) : Move :=
  if rule.accepts e then .stop .safe
  else if (E.maxDepth : ℤ) ≤ depth then .stop .depthExceeded
  else if S.trusts e then .stop .safe
  else moveBy S E e

end

/-! ### Turns -/

section

variable {S : Strategy} {E : Engine} {rule : Rule}

theorem moveBy_strategy (e : Expr) : moveBy E.strategy E e = move E e := by
  cases e with
  | call o method receiver args rt type =>
    by_cases h : (E.catalog.sanitizationPoint? (.call o method receiver args rt type)).isSome
    · exact (if_pos h).trans (if_pos h).symm
    · exact (if_neg h).trans (if_neg h).symm
  | _ => rfl

theorem turnBy_strategy (depth : ℤ) (e : Expr) :
    turnBy E.strategy E rule depth e = turn E rule depth e := by
  rw [turnBy, turn, moveBy_strategy]
  rfl

theorem targets_moveBy {e : Expr} {hops : ℕ} {t : Option Expr}
    (h : (hops, t) ∈ (moveBy S E e).targets) :
    (hops = 0 ∧ ∀ p ∈ t, p ∈ e.parts) ∨ (hops = 1 ∧ ∀ p ∈ t, p ∈ E.graph.landings) := by
  cases e with
  | call o method receiver args rt type =>
    rw [moveBy] at h
    split at h
    · cases h
    · exact targets_move (E := E.unsanitized) h
  | _ => exact targets_move h

/-- **Where a turn leads**: it leads on only while hops are left, and then where a move does. -/
theorem targets_turnBy {depth : ℤ} {e : Expr} {hops : ℕ} {t : Option Expr}
    (h : (hops, t) ∈ (turnBy S E rule depth e).targets) :
    depth < E.maxDepth ∧
      ((hops = 0 ∧ ∀ p ∈ t, p ∈ e.parts) ∨ (hops = 1 ∧ ∀ p ∈ t, p ∈ E.graph.landings)) := by
  unfold turnBy at h
  split_ifs at h with _ hd
  · cases h
  · cases h
  · cases h
  · exact ⟨by omega, targets_moveBy h⟩

theorem weight_lt_of_turnBy {depth : ℤ} {e : Expr} {hops : ℕ} {t : Option Expr}
    (h : (hops, t) ∈ (turnBy S E rule depth e).targets) :
    Prod.Lex (· < ·) (· < ·) (weight E (depth + hops, t)) (weight E (depth, some e)) := by
  obtain ⟨hd, hlead⟩ := targets_turnBy h
  exact weight_lt_of_leads hd hlead

end

/-! ### The trace -/

/-- Carries a move out on a record, with `go` for what follows where the move leads. -/
def performAt : (m : Move) →
    ((hops : ℕ) → (t : Option Expr) → (hops, t) ∈ m.targets → Record → Except Fault Record) →
    Record → Except Fault Record
  | .stop verdict, _, r => .ok (r.close verdict)
  | .follow hops target, go, r => go hops target List.mem_cons_self r
  | .spread _ [], _, r => .ok (r.close .safe)
  | .spread hops (t :: ts), go, r =>
    branchEach (fun target child => match target with
      | ⟨.ok a, h⟩ => go hops a (mem_targets_spread.2 ⟨rfl, h⟩) child
      | ⟨.error fault, _⟩ => .error fault) (t :: ts).attach r
  | .fail fault, _, _ => .error fault

theorem performAt_eq (go : ℕ → Hop) (m : Move) (r : Record) :
    performAt m (fun hops t _ r => go hops r t) r = perform go m r := by
  cases m with
  | stop v => rfl
  | follow hops t => rfl
  | fail f => rfl
  | spread hops ts =>
    cases ts with
    | nil => rfl
    | cons t ts =>
      have hmap := branchEach_map Subtype.val
        (fun target child => target >>= go hops child) (t :: ts).attach r
      rw [List.attach_map_subtype_val] at hmap
      refine Eq.trans (branchEach_congr (fun x _ child => ?_) r) hmap.symm
      obtain ⟨x, hx⟩ := x
      cases x <;> rfl

/-- Continues a record backwards from an expression after `depth` hops, with the decisions of a
strategy. -/
def traceBy (S : Strategy) (E : Engine) (rule : Rule) (depth : ℤ) (r : Record) :
    Option Expr → Except Fault Record
  | none => .ok (r.close .safe)
  | some e => do
    let r ← joinPath rule e r
    performAt (turnBy S E rule depth e)
      (fun hops t _ r => traceBy S E rule (depth + hops) r t) r
termination_by e => weight E (depth, e)
decreasing_by
  rename_i h
  exact weight_lt_of_turnBy h

/-- Traces every argument that an exit point is concerned about, with the decisions of a
strategy. -/
def checkSinkBy (S : Strategy) (E : Engine) (call : Expr) (exit : ExitPoint) :
    Except Fault (List Record) :=
  (Verify.concerns exit).mapM fun p =>
    traceBy S E p.1 0 { sink := some call, parameter := some p.2 } call.arguments[p.2]?

section

variable {S : Strategy} {E : Engine} {rule : Rule}

theorem traceBy_none (depth : ℤ) (r : Record) :
    traceBy S E rule depth r none = .ok (r.close .safe) := by
  rw [traceBy]

/-- **The equation of a trace under a strategy.** -/
theorem traceBy_some (depth : ℤ) (r : Record) (e : Expr) :
    traceBy S E rule depth r (some e) =
      (joinPath rule e r >>=
        perform (fun hops => traceBy S E rule (depth + hops)) (turnBy S E rule depth e)) := by
  rw [traceBy]
  simp only [performAt_eq fun hops => traceBy S E rule (depth + hops)]

/-- An engine's own strategy leads to its traces. -/
theorem traceBy_strategy (E : Engine) (rule : Rule) :
    traceBy E.strategy E rule = trace E rule := by
  refine eq_trace_of_eq_body fun depth r e => ?_
  cases e with
  | none => exact traceBy_none depth r
  | some e => rw [traceBy_some, turnBy_strategy]; rfl

theorem checkSinkBy_strategy (E : Engine) (call : Expr) (exit : ExitPoint) :
    checkSinkBy E.strategy E call exit = checkSink E call exit := by
  rw [checkSinkBy, Verify.checkSink_eq_mapM]
  exact mapM_congr fun p _ => by rw [traceBy_strategy]; rfl

variable (S E rule) in
/-- What holds at an expression as soon as it holds wherever the turn leads holds always. -/
theorem turnBy_induction {P : ℤ → Option Expr → Prop} (hnone : ∀ depth, P depth none)
    (hsome : ∀ depth e, (∀ hops t, (hops, t) ∈ (turnBy S E rule depth e).targets →
      P (depth + hops) t) → P depth (some e)) (depth : ℤ) (e : Option Expr) : P depth e := by
  refine (InvImage.wf (weight E) (WellFounded.prod_lex Nat.lt_wfRel.wf Nat.lt_wfRel.wf)).induction
    (C := fun a => P a.1 a.2) (depth, e) ?_
  rintro ⟨depth, _ | e⟩ ih
  · exact hnone depth
  · exact hsome depth e fun hops t h => ih (depth + hops, t) (weight_lt_of_turnBy h)

/-- **Engines whose turns agree trace alike**, from any expression of a set that no turn leaves. -/
theorem traceBy_congr {E' : Engine} {P : Expr → Prop}
    (hturn : ∀ depth e, P e → turnBy S E' rule depth e = turnBy S E rule depth e)
    (hclosed : ∀ depth e, P e → ∀ hops t, (hops, t) ∈ (turnBy S E rule depth e).targets →
      ∀ x ∈ t, P x) :
    ∀ (depth : ℤ) (e : Option Expr), (∀ x ∈ e, P x) →
      ∀ r, traceBy S E' rule depth r e = traceBy S E rule depth r e := by
  refine turnBy_induction S E rule (fun depth _ r => ?_) fun depth e ih he r => ?_
  · rw [traceBy_none, traceBy_none]
  · have hP := he e rfl
    rw [traceBy_some, traceBy_some, hturn depth e hP]
    congr 1
    funext r'
    exact perform_congr (fun hops t h => ih hops t h (hclosed depth e hP hops t h)) r'

theorem checkSinkBy_congr {E' : Engine} {P : Expr → Prop} {call : Expr} {exit : ExitPoint}
    (hturn : ∀ rule depth e, P e → turnBy S E' rule depth e = turnBy S E rule depth e)
    (hclosed : ∀ rule depth e, P e → ∀ hops t, (hops, t) ∈ (turnBy S E rule depth e).targets →
      ∀ x ∈ t, P x)
    (hcall : ∀ a ∈ call.arguments, P a) :
    checkSinkBy S E' call exit = checkSinkBy S E call exit := by
  refine mapM_congr fun p _ => ?_
  exact traceBy_congr (hturn p.1) (hclosed p.1) 0 _
    (fun x hx => hcall x (List.mem_of_getElem? hx)) _

end

end TaintFlow.Flow
