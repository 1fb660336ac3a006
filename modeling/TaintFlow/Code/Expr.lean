import TaintFlow.Code.Kind
import TaintFlow.Code.Binding

/-!
# Expressions

The closed set of expression forms that the analysis tells apart.  A form that it has no rule for
is `unsupported`.  A child is optional where the parsed text may lack it.
-/

namespace TaintFlow.Code

/-- The words an expression was written with, and where they stand. -/
structure Origin where
  text : String
  position : Position
  deriving DecidableEq, Repr, Inhabited

/-- A simple name and the declaration it refers to, when that is known. -/
structure Name where
  origin : Origin
  identifier : String
  binding : Option Binding := none
  deriving DecidableEq, Repr

/-- An expression of the analysed program. -/
inductive Expr where
  /-- A literal; `kind` tells strings, numbers, characters, booleans and null apart. -/
  | literal (origin : Origin) (kind : Kind)
  /-- `left operator right` -/
  | binary (origin : Origin) (operator : String) (left right : Option Expr)
  /-- `operator operand` -/
  | unary (origin : Origin) (operator : String) (operand : Option Expr)
  /-- `condition ? first : second` -/
  | conditional (origin : Origin) (condition first second : Option Expr)
  /-- `target operator value` -/
  | assignment (origin : Origin) (operator : String) (target value : Option Expr)
  /-- `(type) operand` -/
  | cast (origin : Origin) (type : String) (operand : Option Expr)
  /-- `new type(arguments)`, a call of a constructor -/
  | creation (origin : Origin) (type : String) (arguments : List Expr)
  /-- The elements of an array in braces; `type` is the array's type when it is written. -/
  | array (origin : Origin) (elements : List Expr) (type : Option String)
  /-- `(inner)` -/
  | parenthesized (origin : Origin) (inner : Option Expr)
  /-- A simple name -/
  | name (name : Name)
  /-- `qualifier.member`, a field reached through an object or a type -/
  | qualified (origin : Origin) (qualifier : Option Expr) (member : Option Name)
  /-- `receiver.method(arguments)` -/
  | call (origin : Origin) (method : String) (receiver : Option Expr) (arguments : List Expr)
      (receiverType returnType : Option String)
  /-- A construct that the analysis has no rule for -/
  | unsupported (origin : Origin) (construct : String)
  /-- An expression of which only the words are known; it has no rule at all. -/
  | textOnly (origin : Origin)
  deriving Repr

namespace Expr

instance : Inhabited Expr := ⟨textOnly default⟩

/-- The words of an expression and where they stand. -/
def origin : Expr → Origin
  | literal o _ => o
  | binary o _ _ _ => o
  | unary o _ _ => o
  | conditional o _ _ _ => o
  | assignment o _ _ _ => o
  | cast o _ _ => o
  | creation o _ _ => o
  | array o _ _ => o
  | parenthesized o _ => o
  | name n => n.origin
  | qualified o _ _ => o
  | call o _ _ _ _ _ => o
  | unsupported o _ => o
  | textOnly o => o

/-- The words of an expression. -/
def text (e : Expr) : String :=
  e.origin.text

/-- Where an expression stands. -/
def position (e : Expr) : Position :=
  e.origin.position

/-- Category of an expression. -/
def kind : Expr → Kind
  | literal _ k => k
  | binary .. => .binary
  | unary .. => .unary
  | conditional .. => .conditional
  | assignment .. => .assignment
  | cast .. => .cast
  | creation .. => .creation
  | array .. => .arrayInitializer
  | parenthesized .. => .parenthesized
  | name _ => .simpleName
  | qualified .. => .qualifiedName
  | call .. => .call
  | unsupported .. => .unsupported
  | textOnly _ => .unsupported

/-- The direct parts whose value can become the value of the expression.  The condition of a
conditional only selects a branch, so it is not among them. -/
def operands : Expr → List Expr
  | binary _ _ l r => l.toList ++ r.toList
  | unary _ _ e => e.toList
  | conditional _ _ a b => a.toList ++ b.toList
  | assignment _ _ l r => l.toList ++ r.toList
  | cast _ _ e => e.toList
  | creation _ _ args => args
  | array _ es _ => es
  | parenthesized _ e => e.toList
  | _ => []

/-- Whether an expression is a call of a method or of a constructor. -/
def isCall : Expr → Bool
  | creation .. => true
  | call .. => true
  | _ => false

/-- The arguments of a call; other expressions have none. -/
def arguments : Expr → List Expr
  | creation _ _ args => args
  | call _ _ _ args _ _ => args
  | _ => []

mutual

/-- Whether an expression has the value of a literal: a literal, or literals joined by
parentheses, casts and operators. -/
def reducesToLiteral : Expr → Bool
  | literal .. => true
  | parenthesized _ e => reducesToLiteralOpt e
  | cast _ _ e => reducesToLiteralOpt e
  | unary _ _ e => reducesToLiteralOpt e
  | binary _ _ none none => false
  | binary _ _ (some l) none => l.reducesToLiteral
  | binary _ _ none (some r) => r.reducesToLiteral
  | binary _ _ (some l) (some r) => l.reducesToLiteral && r.reducesToLiteral
  | _ => false
termination_by structural e => e

/-- A missing expression has no value. -/
def reducesToLiteralOpt : Option Expr → Bool
  | none => false
  | some e => e.reducesToLiteral
termination_by structural e => e

end

end Expr

end TaintFlow.Code
