import TaintFlow.Code.Expr
import Mathlib.Data.Nat.Notation

/-!
# Parts and nesting height of expressions

A trace walks through an expression along its *parts*: the operands of a composite expression and
the member of a qualified name.  `Expr.height` counts the expressions on the longest such walk, so
every part is lower than the whole (`Expr.height_lt_of_mem_parts`).

An expression is *regular* when every expression on these walks belongs to the closed set of forms
and every parameter it names has a place that counts from the front.
-/

namespace TaintFlow.Code

namespace Expr

/-- The parts of an expression whose value becomes its own: the operands, and the member of a
qualified name. -/
def parts : Expr → List Expr
  | qualified _ _ m => (m.map name).toList
  | e => e.operands

mutual

/-- The number of expressions on the longest walk from an expression to a part of a part. -/
def height : Expr → ℕ
  | binary _ _ a b => max (heightOpt a) (heightOpt b) + 1
  | unary _ _ a => heightOpt a + 1
  | conditional _ _ a b => max (heightOpt a) (heightOpt b) + 1
  | assignment _ _ a b => max (heightOpt a) (heightOpt b) + 1
  | cast _ _ a => heightOpt a + 1
  | creation _ _ es => heightAll es + 1
  | array _ es _ => heightAll es + 1
  | parenthesized _ a => heightOpt a + 1
  | qualified _ _ (some _) => 2
  | _ => 1
termination_by structural e => e

/-- The height of an expression that may be missing. -/
def heightOpt : Option Expr → ℕ
  | none => 0
  | some e => e.height
termination_by structural e => e

/-- The height of the highest of some expressions. -/
def heightAll : List Expr → ℕ
  | [] => 0
  | e :: es => max e.height (heightAll es)
termination_by structural es => es

end

theorem heightAll_append (es fs : List Expr) :
    heightAll (es ++ fs) = max (heightAll es) (heightAll fs) := by
  induction es with
  | nil => simp [heightAll]
  | cons e es ih => simp [heightAll, ih, Nat.max_assoc]

theorem heightAll_toList (e : Option Expr) : heightAll e.toList = heightOpt e := by
  cases e <;> simp [heightAll, heightOpt]

theorem height_le_heightAll {e : Expr} {es : List Expr} (h : e ∈ es) :
    e.height ≤ heightAll es := by
  induction es with
  | nil => cases h
  | cons a es ih =>
    rw [heightAll]
    rcases List.mem_cons.1 h with rfl | h
    · exact Nat.le_max_left _ _
    · exact Nat.le_trans (ih h) (Nat.le_max_right _ _)

/-- An expression is one higher than the highest of its parts. -/
theorem height_eq (e : Expr) : e.height = heightAll e.parts + 1 := by
  cases e with
  | qualified o q m => cases m <;> simp [height, parts, heightAll]
  | _ => simp [height, parts, operands, heightAll_append, heightAll_toList, heightAll]

theorem height_pos (e : Expr) : 0 < e.height := by
  rw [height_eq]; exact Nat.succ_pos _

theorem height_lt_of_mem_parts {e p : Expr} (h : p ∈ e.parts) : p.height < e.height := by
  rw [height_eq e]
  exact Nat.lt_succ_of_le (height_le_heightAll h)

end Expr

/-! ### Regular expressions -/

/-- A name that refers to a parameter gives it a place that counts from the front. -/
def Name.HasPlace (n : Name) : Prop :=
  ∀ b, n.binding = some b → b.kind = .parameter → 0 ≤ b.index

namespace Expr

/-- An expression of the closed set of forms, with all that a walk along its parts comes to. -/
inductive Regular : Expr → Prop
  | intro {e : Expr} (form : ∀ o, e ≠ textOnly o) (place : ∀ n, e = name n → n.HasPlace)
      (parts : ∀ p ∈ e.parts, Regular p) : Regular e

theorem Regular.form {e : Expr} (h : e.Regular) (o : Origin) : e ≠ textOnly o := by
  cases h with
  | intro form _ _ => exact form o

theorem Regular.hasPlace {n : Name} (h : (name n).Regular) : n.HasPlace := by
  cases h with
  | intro _ place _ => exact place n rfl

theorem Regular.of_mem_parts {e p : Expr} (h : e.Regular) (hp : p ∈ e.parts) : p.Regular := by
  cases h with
  | intro _ _ parts => exact parts p hp

end Expr

end TaintFlow.Code
