import TaintFlow.Code.Stmt
import TaintFlow.Table

/-!
# Methods and source units

What the analysis keeps of one source file.
-/

namespace TaintFlow.Code

/-- A declared method or constructor. -/
structure Method where
  signature : Signature
  position : Position
  parameterNames : List String := []
  returnType : Option String := none
  /-- Absent for abstract and native methods. -/
  body : Option Stmt := none
  isConstructor : Bool := false
  deriving Repr

namespace Method

/-- The unit that declares the method. -/
def unit (m : Method) : String :=
  m.position.unit

/-- The expressions that the method can return, in order. -/
def returns (m : Method) : List Expr :=
  Stmt.returnsOpt m.body

end Method

/-- Everything that is known of one source file. -/
structure SourceUnit where
  path : String
  package : String := ""
  /-- Imported types: simple name and qualified name. -/
  imports : Table String String := {}
  methods : List Method := []
  /-- The calls in the body of each method, in order. -/
  calls : Table Signature (List Expr) := {}
  /-- The value that each variable was last given. -/
  bindings : Table Binding Expr := {}
  /-- Numbers of the lines marked as trusted. -/
  trustedLines : List Nat := []
  /-- Whether the file had to be read around a mistake. -/
  hasErrors : Bool := false
  deriving Repr

/-- The number of calls in a unit. -/
def SourceUnit.callCount (u : SourceUnit) : Nat :=
  u.calls.values.flatten.length

end TaintFlow.Code
