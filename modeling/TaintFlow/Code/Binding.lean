/-!
# Positions, method signatures and variable bindings

The values by which parts of a program are identified.  They are compared field by field, so a
unit that is read twice yields the same signatures and bindings.
-/

namespace TaintFlow.Code

/-- A place in a source unit; lines count from one. -/
structure Position where
  /-- Path of the unit. -/
  unit : String
  line : Nat
  column : Nat := 0
  deriving DecidableEq, Repr, Inhabited

/-- Unit and line, the short form used in messages. -/
def Position.toText (p : Position) : String :=
  p.unit ++ ":" ++ toString p.line

/-- Identity of a method: declaring type, name and parameter types. -/
structure Signature where
  declaringType : String
  name : String
  parameterTypes : List String := []
  deriving DecidableEq, Repr

namespace Signature

/-- Number of parameters. -/
def arity (s : Signature) : Nat :=
  s.parameterTypes.length

/-- Declaring type and name, joined by a dot. -/
def qualifiedName (s : Signature) : String :=
  s.declaringType ++ "." ++ s.name

/-- The signature as it is written in messages. -/
def toText (s : Signature) : String :=
  s.qualifiedName ++ "(" ++ ", ".intercalate s.parameterTypes ++ ")"

end Signature

/-- What kind of variable a binding declares. -/
inductive VariableKind where
  | field
  | localVar
  | parameter
  deriving DecidableEq, Repr

/-- The word for a kind of variable. -/
def VariableKind.toText : VariableKind → String
  | .field => "field"
  | .localVar => "local"
  | .parameter => "parameter"

/-- The declaration that a simple name refers to. -/
structure Binding where
  /-- Path of the declaring unit. -/
  unit : String
  name : String
  kind : VariableKind
  declaredType : Option String := none
  /-- Method whose body or parameter list declares the variable. -/
  owner : Option Signature := none
  /-- Type whose body declares the field. -/
  declaringType : Option String := none
  /-- Place in the parameter list; a negative place counts from the end of an argument list. -/
  index : Int := -1
  line : Nat := 0
  column : Nat := 0
  deriving DecidableEq, Repr

end TaintFlow.Code
