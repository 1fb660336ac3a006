import TaintFlow.Proofs.Java.Following

/-!
# What a node is read as

What is known of the answers of a step, whatever the state (`Read.Yields`).  An expression has the
words and the place of the node that it was read from (`Source.Reads.origin`).
-/

namespace TaintFlow.Java

open TaintFlow.Code TaintFlow.Types

namespace Read

/-- Whatever the step answers has the property. -/
def Yields {α : Type} (step : Read α) (Q : α → Prop) : Prop :=
  ∀ s a s', step.run s = .ok (a, s') → Q a

namespace Yields

variable {α β : Type} {Q : α → Prop} {Q' : β → Prop}

theorem pure {a : α} (ha : Q a) : Yields (Pure.pure a : Read α) Q := by
  intro s b s' hrun
  cases hrun
  exact ha

theorem fault (f : Fault) : Yields (Read.fault f : Read α) Q := by
  intro s b s' hrun
  cases hrun

theorem bind {step : Read α} {next : α → Read β} (h : Yields step Q)
    (hnext : ∀ a, Q a → Yields (next a) Q') : Yields (step >>= next) Q' := by
  intro s b s' hrun
  obtain ⟨a, s₁, hstep, hrest⟩ := run_bind_eq_ok.1 hrun
  exact hnext a (h s a s₁ hstep) s₁ b s' hrest

theorem mono {step : Read α} {Q' : α → Prop} (h : Yields step Q) (hQ : ∀ a, Q a → Q' a) :
    Yields step Q' :=
  fun s a s' hrun => hQ a (h s a s' hrun)

/-- Only the second step matters. -/
theorem after {step : Read α} {next : α → Read β} (hnext : ∀ a, Yields (next a) Q') :
    Yields (step >>= next) Q' := by
  intro s b s' hrun
  obtain ⟨a, s₁, -, hrest⟩ := run_bind_eq_ok.1 hrun
  exact hnext a s₁ b s' hrest

theorem inScope {step : Read α} (h : Yields step Q) : Yields (Read.inScope step) Q :=
  after fun _ => h.bind fun _ ha => after fun _ => pure ha

theorem mapM {l : List β} {f : β → Read α} {Q : β → α → Prop}
    (h : ∀ x ∈ l, Yields (f x) (Q x)) : Yields (l.mapM f) (List.Forall₂ Q l) := by
  induction l with
  | nil => exact pure .nil
  | cons x l ih =>
    obtain ⟨hx, hl⟩ := List.forall_mem_cons.1 h
    rw [List.mapM_cons]
    exact hx.bind fun _ ha => (ih hl).bind fun _ has => pure (.cons ha has)

end Yields

end Read

open Read

theorem yields_readCreation {S : Source} {t : Tree} (read : Readings t) :
    Yields (readCreation S t read) fun e =>
      ∃ type arguments, e = .creation (S.origin t) type arguments := by
  have hrest : Yields (do
      let s ← get
      let type := (s.resolveType (S.textOf (t.child? "type"))).getD ""
      let arguments ← read.contentOf (t.child? "arguments")
      let call := Expr.creation (S.origin t) type arguments
      modify (·.addCall call)
      return call) fun e => ∃ type arguments, e = .creation (S.origin t) type arguments :=
    .after fun _ => .after fun _ => .after fun _ => .pure ⟨_, _, rfl⟩
  unfold readCreation
  split
  · split
    · exact .after fun _ => hrest
    · exact hrest
  · exact hrest

/-- What a node is read as has its words and its place.  It can only be assigned to if the node is a
name or a field access. -/
theorem yields_readExpr {S : Source} {t : Tree} (read : Readings t) :
    Yields (readExpr S t read) fun e => e.origin = S.origin t ∧
      (ExprForm.ofType t.type ≠ .identifier → ExprForm.ofType t.type ≠ .fieldAccess →
        State.target? (some e) = none) := by
  unfold readExpr
  generalize ExprForm.ofType t.type = form
  cases form with
  | literal => exact .pure ⟨rfl, fun _ _ => rfl⟩
  | identifier => exact .after fun _ => .pure ⟨rfl, fun h => absurd rfl h⟩
  | fieldAccess => exact .after fun _ => .after fun _ => .pure ⟨rfl, fun _ h => absurd rfl h⟩
  | parenthesized | unary | update | arrayInitializer | lambda =>
    exact .after fun _ => .pure ⟨rfl, fun _ _ => rfl⟩
  | binary | cast => exact .after fun _ => .after fun _ => .pure ⟨rfl, fun _ _ => rfl⟩
  | ternary | assignment =>
    exact .after fun _ => .after fun _ => .after fun _ => .pure ⟨rfl, fun _ _ => rfl⟩
  | creation =>
    refine (yields_readCreation read).mono fun e he => ?_
    obtain ⟨type, arguments, rfl⟩ := he
    exact ⟨rfl, fun _ _ => rfl⟩
  | arrayCreation =>
    refine .after fun _ => ?_
    cases t.child? "value" with
    | none => exact .after fun _ => .pure ⟨rfl, fun _ _ => rfl⟩
    | some v => exact .after fun _ => .pure ⟨rfl, fun _ _ => rfl⟩
  | invocation =>
    exact .after fun _ => .after fun _ => .after fun _ => .after fun _ => .pure ⟨rfl, fun _ _ => rfl⟩
  | other =>
    dsimp only
    split
    · exact .after fun _ => .pure ⟨rfl, fun _ _ => rfl⟩
    · exact .pure ⟨rfl, fun _ _ => rfl⟩

/-- **An expression** has the words and the place of the node that it was read from. -/
theorem Source.Reads.origin {S : Source} {t : Tree} {e : Expr} (h : S.Reads t e) :
    e.origin = S.origin t := by
  obtain ⟨s, s', hrun⟩ := h
  rw [reading_asExpr] at hrun
  exact (yields_readExpr _ s e s' hrun).1

theorem origins_of_reads {S : Source} {nodes : List Tree} {es : List Expr}
    (h : List.Forall₂ S.Reads nodes es) : es.map Expr.origin = nodes.map S.origin := by
  induction h with
  | nil => rfl
  | cons hnode _ ih => rw [List.map_cons, List.map_cons, ih, hnode.origin]

theorem texts_of_reads {S : Source} {nodes : List Tree} {es : List Expr}
    (h : List.Forall₂ S.Reads nodes es) : es.map Expr.text = nodes.map S.text := by
  have horigins := congrArg (List.map Origin.text) (origins_of_reads h)
  rwa [List.map_map, List.map_map] at horigins

end TaintFlow.Java
