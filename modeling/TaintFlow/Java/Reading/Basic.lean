import TaintFlow.Java.Scope

/-!
# Readings of a node

A node of a parse tree can be read as an expression, as a statement and as a block.  How a node is
read depends on the readings of smaller nodes only; the definitions under this folder take those as
an argument and are not recursive themselves.
-/

namespace TaintFlow.Java

open TaintFlow.Code

/-- The ways to read a node. -/
structure Reading where
  asExpr : Read Expr
  /-- Comments, and a synchronized statement without a body, are no statements. -/
  asStmt : Read (Option Stmt)
  /-- The statements of a node in a scope of their own. -/
  asBlock : Read Stmt

/-- Readings of what is smaller than a node. -/
abbrev Readings (t : Tree) := Subtree t → Reading

namespace Readings

variable {t : Tree} (read : Readings t)

/-- Reads a node as an expression, if it is there. -/
def expr? (c : Option (Subtree t)) : Read (Option Expr) :=
  match c with
  | some c => do return some (← (read c).asExpr)
  | none => return none

/-- Reads a node as a statement, if it is there. -/
def stmt? (c : Option (Subtree t)) : Read (Option Stmt) :=
  match c with
  | some c => (read c).asStmt
  | none => return none

/-- Reads a node as a block, if it is there. -/
def block? (c : Option (Subtree t)) : Read (Option Stmt) :=
  match c with
  | some c => do return some (← (read c).asBlock)
  | none => return none

/-- Reads nodes as expressions, one after the other. -/
def exprs (cs : List (Subtree t)) : Read (List Expr) :=
  cs.mapM fun c => (read c).asExpr

/-- Reads the content of a node, if the node is there, as expressions. -/
def contentOf (c : Option (Subtree t)) : Read (List Expr) :=
  match c with
  | some c => read.exprs (c.1.content.map c.trans)
  | none => return []

/-- The readings of what is smaller than a smaller node. -/
def under (c : Subtree t) : Readings c.1 :=
  fun d => read (c.trans d)

end Readings

/-- The words of a child, none if it is absent. -/
def Source.textOf {t : Tree} (S : Source) (c : Option (Subtree t)) : String :=
  S.text? (c.map (·.1))

/-- The words of a node and where they stand. -/
def Source.origin (S : Source) (t : Tree) : Origin :=
  ⟨S.text t, S.position t⟩

/-- Types of nodes that hold a type, or that belong to another declaration. -/
def closedTypes : List String :=
  ["class_body", "type_identifier", "scoped_type_identifier", "generic_type", "array_type",
   "integral_type", "floating_point_type", "boolean_type", "void_type", "type_arguments",
   "dimensions", "modifiers"]

/-- Whether nothing inside a node is read as an expression. -/
def Tree.isClosed (t : Tree) : Bool :=
  closedTypes.contains t.type

/-- Types of the declarations of types. -/
def typeDeclarations : List String :=
  ["class_declaration", "interface_declaration", "enum_declaration", "record_declaration",
   "annotation_type_declaration"]

/-- Whether a node declares a type. -/
def Tree.isTypeDeclaration (t : Tree) : Bool :=
  typeDeclarations.contains t.type

end TaintFlow.Java
