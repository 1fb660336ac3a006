import TaintFlow.Code.SourceUnit

/-!
# What a unit contains

The expressions that stand directly in an expression (`Expr.components`) and in the statements of a
body (`Stmt.exprs`), and with them all that stands anywhere in a unit: in the body of a method, in
a call that is listed for one, or in the value of a variable (`SourceUnit.Holds`).
-/

namespace TaintFlow.Code

namespace Expr

/-- The expressions that stand directly in an expression. -/
def components : Expr → List Expr
  | conditional _ c a b => c.toList ++ (a.toList ++ b.toList)
  | qualified _ q m => q.toList ++ (m.map name).toList
  | call _ _ receiver args _ _ => receiver.toList ++ args
  | e => e.operands

/-- Whether an expression of the closed set of forms does not refer to a declaration itself. -/
def isPlain : Expr → Bool
  | name _ => false
  | qualified .. => false
  | call .. => false
  | textOnly _ => false
  | _ => true

/-- The expression stands somewhere in another, or is the other itself. -/
inductive Within (e : Expr) : Expr → Prop
  | refl : Within e e
  | tail {a x : Expr} (h : Within e a) (ha : a ∈ x.components) : Within e x

theorem Within.trans {a b c : Expr} (hab : a.Within b) (hbc : b.Within c) : a.Within c := by
  induction hbc with
  | refl => exact hab
  | tail _ ha ih => exact .tail ih ha

theorem within_of_mem_components {a x : Expr} (h : a ∈ x.components) : a.Within x :=
  .tail .refl h

theorem arguments_subset_components (e : Expr) : e.arguments ⊆ e.components := by
  cases e with
  | call => exact List.subset_append_right _ _
  | creation => exact List.Subset.refl _
  | _ => exact List.nil_subset _

end Expr

namespace Stmt

mutual

/-- The expressions that stand directly in a statement or in the statements inside it, in order.
The names of declared variables are among them. -/
def exprs : Stmt → List Expr
  | block _ ss => exprsAll ss
  | ret _ e => e.toList
  | branch _ c a b => c.toList ++ (exprsOpt a ++ exprsOpt b)
  | loop _ _ b => exprsOpt b
  | guarded _ b hs f => exprsOpt b ++ (exprsAll hs ++ exprsOpt f)
  | switch _ ss => exprsAll ss
  | expression _ e => e.toList
  | declaration _ _ fragments => fragments.flatMap fun f => .name f.1 :: f.2.toList
  | _ => []
termination_by structural s => s

/-- The expressions in a sequence of statements. -/
def exprsAll : List Stmt → List Expr
  | [] => []
  | s :: ss => s.exprs ++ exprsAll ss
termination_by structural ss => ss

/-- The expressions in a statement that may be missing. -/
def exprsOpt : Option Stmt → List Expr
  | none => []
  | some s => s.exprs
termination_by structural s => s

end

theorem mem_exprsAll {e : Expr} {ss : List Stmt} : e ∈ exprsAll ss ↔ ∃ s ∈ ss, e ∈ s.exprs := by
  induction ss with
  | nil => simp [exprsAll]
  | cons s ss ih => simp [exprsAll, ih]

theorem mem_exprsAll_filterMap {e : Expr} {ss : List (Option Stmt)} :
    e ∈ exprsAll (ss.filterMap id) ↔ ∃ s ∈ ss, e ∈ exprsOpt s := by
  rw [mem_exprsAll]
  constructor
  · rintro ⟨s, hs, he⟩
    exact ⟨some s, by simpa using hs, he⟩
  · rintro ⟨_ | s, hs, he⟩
    · cases he
    · exact ⟨s, by simpa using hs, he⟩

theorem append_subset_append {a b c d : List Expr} (h : a ⊆ b) (h' : c ⊆ d) : a ++ c ⊆ b ++ d :=
  List.append_subset.2 ⟨List.subset_append_of_subset_left d h, List.subset_append_of_subset_right b h'⟩

mutual

theorem returns_subset_exprs (s : Stmt) : s.returns ⊆ s.exprs := by
  cases s with
  | block _ ss | switch _ ss => exact returnsAll_subset_exprsAll ss
  | ret => exact List.Subset.refl _
  | branch _ _ a b =>
    refine List.subset_append_of_subset_right _ (append_subset_append ?_ ?_)
    · exact returnsOpt_subset_exprsOpt a
    · exact returnsOpt_subset_exprsOpt b
  | loop _ _ b => exact returnsOpt_subset_exprsOpt b
  | guarded _ b hs f =>
    refine append_subset_append (returnsOpt_subset_exprsOpt b) (append_subset_append ?_ ?_)
    · exact returnsAll_subset_exprsAll hs
    · exact returnsOpt_subset_exprsOpt f
  | _ => exact List.nil_subset _
termination_by structural s

theorem returnsAll_subset_exprsAll (ss : List Stmt) : returnsAll ss ⊆ exprsAll ss := by
  cases ss with
  | nil => exact List.nil_subset _
  | cons s ss =>
    exact append_subset_append (returns_subset_exprs s) (returnsAll_subset_exprsAll ss)
termination_by structural ss

/-- What a body returns stands in it. -/
theorem returnsOpt_subset_exprsOpt (s : Option Stmt) : returnsOpt s ⊆ exprsOpt s := by
  cases s with
  | none => exact List.nil_subset _
  | some s => exact returns_subset_exprs s
termination_by structural s

end

end Stmt

namespace SourceUnit

/-- The expressions that a unit keeps: those of bodies, the calls listed for methods, and the values
of variables. -/
def expressions (u : SourceUnit) : List Expr :=
  (u.methods.flatMap fun m => Stmt.exprsOpt m.body) ++ (u.calls.values.flatten ++ u.bindings.values)

/-- The expression stands somewhere in the unit. -/
def Holds (u : SourceUnit) (e : Expr) : Prop :=
  ∃ x ∈ u.expressions, e.Within x

end SourceUnit

end TaintFlow.Code
