import TaintFlow.Code.Expr

/-!
# Statements

Statements matter to the analysis through the values that a method can return.
-/

namespace TaintFlow.Code

/-- A statement of the analysed program. -/
inductive Stmt where
  | block (position : Position) (statements : List Stmt)
  | ret (position : Position) (value : Option Expr)
  | branch (position : Position) (condition : Option Expr) (first second : Option Stmt)
  /-- A loop; `kind` tells `while`, `do` and the two forms of `for` apart. -/
  | loop (position : Position) (kind : Kind) (body : Option Stmt)
  | guarded (position : Position) (body : Option Stmt) (handlers : List Stmt)
      (finalizer : Option Stmt)
  /-- A switch; the statements of all its groups in order. -/
  | switch (position : Position) (statements : List Stmt)
  | expression (position : Position) (value : Option Expr)
  /-- A declaration of local variables, each with its initializer. -/
  | declaration (position : Position) (type : Option String)
      (fragments : List (Name × Option Expr))
  /-- A statement that neither returns nor contains other statements. -/
  | other (position : Position) (construct : String)
  /-- A statement of which only the place is known. -/
  | unknown (position : Position)
  deriving Repr

namespace Stmt

instance : Inhabited Stmt := ⟨unknown default⟩

/-- Where a statement stands. -/
def position : Stmt → Position
  | block p _ => p
  | ret p _ => p
  | branch p _ _ _ => p
  | loop p _ _ => p
  | guarded p _ _ _ => p
  | switch p _ => p
  | expression p _ => p
  | declaration p _ _ => p
  | other p _ => p
  | unknown p => p

/-- Category of a statement. -/
def kind : Stmt → Kind
  | block .. => .block
  | ret .. => .returnStatement
  | branch .. => .ifStatement
  | loop _ k _ => k
  | guarded .. => .tryStatement
  | switch .. => .switchStatement
  | expression .. => .expressionStatement
  | declaration .. => .variableDeclaration
  | other .. => .unsupported
  | unknown _ => .unsupported

mutual

/-- The expressions of the return statements inside a statement, in order. -/
def returns : Stmt → List Expr
  | block _ ss => returnsAll ss
  | ret _ e => e.toList
  | branch _ _ a b => returnsOpt a ++ returnsOpt b
  | loop _ _ b => returnsOpt b
  | guarded _ b hs f => returnsOpt b ++ (returnsAll hs ++ returnsOpt f)
  | switch _ ss => returnsAll ss
  | _ => []
termination_by structural s => s

/-- The returned expressions of a sequence of statements. -/
def returnsAll : List Stmt → List Expr
  | [] => []
  | s :: ss => s.returns ++ returnsAll ss
termination_by structural ss => ss

/-- A missing statement returns nothing. -/
def returnsOpt : Option Stmt → List Expr
  | none => []
  | some s => s.returns
termination_by structural s => s

end

end Stmt

end TaintFlow.Code
