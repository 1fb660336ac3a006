import TaintFlow.Proofs.Code.Contents
import TaintFlow.Proofs.Code.Height

/-!
# Expressions grounded in a unit

A variable is *grounded* in a unit when the unit declares it and, if it is a parameter, it has a
place in the parameter list of the method that owns it.  An expression is grounded when it belongs
to the closed set of forms and all names that a walk along its parts comes to refer to grounded
variables.  Grounded expressions are regular (`Expr.Grounded.regular`).

A source unit is grounded when this holds of everything that a trace can come to: the arguments of
its calls, the values of its variables and the expressions that its methods return.
-/

namespace TaintFlow.Code

variable {path : String}

/-- The unit declares the variable, and a parameter has a place in the list of its method. -/
structure Binding.Grounded (path : String) (b : Binding) : Prop where
  unit : b.unit = path
  place : b.kind = .parameter → ∃ m, b.owner = some m ∧ 0 ≤ b.index ∧ b.index < m.arity

/-- The name refers to a grounded variable, or to nothing that is known. -/
def Name.Grounded (path : String) (n : Name) : Prop :=
  ∀ b, n.binding = some b → b.Grounded path

namespace Expr

/-- An expression of the closed set of forms whose names are grounded, with all that a walk along its
parts comes to. -/
inductive Grounded (path : String) : Expr → Prop
  | intro {e : Expr} (form : ∀ o, e ≠ textOnly o) (name : ∀ n, e = .name n → n.Grounded path)
      (parts : ∀ p ∈ e.parts, Grounded path p) : Grounded path e

theorem Grounded.of_mem_parts {e p : Expr} (h : e.Grounded path) (hp : p ∈ e.parts) :
    p.Grounded path := by
  cases h with
  | intro _ _ parts => exact parts p hp

theorem Grounded.name {n : Name} (h : (Expr.name n).Grounded path) : n.Grounded path := by
  cases h with
  | intro _ name _ => exact name n rfl

theorem parts_subset_components (e : Expr) : e.parts ⊆ e.components := by
  cases e with
  | qualified | conditional => exact List.subset_append_right _ _
  | call => exact List.nil_subset _
  | _ => exact List.Subset.refl _

/-- An expression is grounded if the forms and the names of all that stands in it are right. -/
theorem grounded_of_within {e : Expr}
    (h : ∀ x : Expr, x.Within e → (∀ o, x ≠ textOnly o) ∧ ∀ n, x = .name n → n.Grounded path) :
    e.Grounded path := by
  induction hheight : e.height using Nat.strongRecOn generalizing e with
  | ind n ih =>
    refine .intro (h e .refl).1 (h e .refl).2 fun p hp => ?_
    have hwithin : p.Within e := within_of_mem_components (parts_subset_components e hp)
    exact ih p.height (hheight ▸ height_lt_of_mem_parts hp) (fun x hx => h x (hx.trans hwithin)) rfl

theorem Grounded.regular {e : Expr} (h : e.Grounded path) : e.Regular := by
  induction h with
  | intro form name _ ih =>
    refine .intro form (fun n hn b hb hkind => ?_) ih
    obtain ⟨m, -, hindex, -⟩ := (name n hn b hb).place hkind
    exact hindex

/-- The arguments of a call are grounded. -/
structure GroundedCall (path : String) (e : Expr) : Prop where
  isCall : e.isCall = true
  arguments : ∀ a ∈ e.arguments, a.Grounded path

end Expr

/-- What a trace can come to in a source unit is grounded in it. -/
structure SourceUnit.Grounded (u : SourceUnit) : Prop where
  calls : ∀ es ∈ u.calls.values, ∀ e ∈ es, e.GroundedCall u.path
  returns : ∀ m ∈ u.methods, ∀ e ∈ m.returns, e.Grounded u.path
  bindings : ∀ x ∈ u.bindings.entries, x.1.unit = u.path ∧ x.2.Grounded u.path

end TaintFlow.Code
