import TaintFlow.Code.SourceUnit
import TaintFlow.Java.Source
import TaintFlow.Types.Compare
import TaintFlow.Types.Erasure

/-!
# Reading state

What is known while the parse tree of a unit is read: the names of its types, the methods they
declare, the variables in scope and the calls and values seen so far.

Variables are looked up from the innermost scope outwards.  A type name is qualified through the
imports, the types of the unit and the types that need no import.
-/

namespace TaintFlow.Java

open TaintFlow.Code TaintFlow.Types

/-- The variables that a scope declares. -/
abbrev Scope := Table String Binding

/-- Declaring type, name and number of parameters of a method. -/
abbrev HeaderKey := String × String × Nat

/-- What is known while a unit is read. -/
structure State where
  package : String := ""
  /-- Imported types: simple name and qualified name. -/
  imports : Table String String := {}
  /-- Types declared in the unit: simple name and qualified name. -/
  localTypes : Table String String := {}
  /-- The superclass that each type names. -/
  superclasses : Table String String := {}
  /-- Return types of the declared methods. -/
  headers : Table HeaderKey String := {}
  /-- The fields of each type. -/
  fields : Table String Scope := {}
  /-- The types around the place being read, the innermost first. -/
  classes : List String := []
  /-- The scopes around the place being read, the innermost first. -/
  scopes : List Scope := []
  /-- The method being read. -/
  method : Option Signature := none
  /-- The calls of the method being read; outside of methods calls are not kept. -/
  calls : Option (List Expr) := none
  /-- Variables that were given a value where they were declared. -/
  initialized : List Binding := []
  methods : List Method := []
  methodCalls : Table Signature (List Expr) := {}
  bindings : Table Binding Expr := {}
  deriving Repr

namespace State

/-- The innermost type around the place being read. -/
def currentClass (s : State) : Option String :=
  s.classes.head?

/-- The innermost declaration of a variable. -/
def lookup (s : State) (name : String) : Option Binding :=
  s.scopes.findSome? (·.get? name)

/-- The state with one more, empty, scope. -/
def pushScope (s : State) : State :=
  { s with scopes := {} :: s.scopes }

/-- The state without its innermost scope. -/
def popScope (s : State) : State :=
  { s with scopes := s.scopes.tail }

/-- The state with a variable in its innermost scope. -/
def addVariable (s : State) (b : Binding) : State :=
  match s.scopes with
  | [] => s
  | scope :: rest => { s with scopes := scope.insert b.name b :: rest }

/-- The state with the value that a variable is given where it is declared. -/
def bind (s : State) (b : Binding) (value : Option Expr) : State :=
  match value with
  | none => s
  | some e =>
    { s with
      bindings := s.bindings.insert b e
      initialized := if b ∈ s.initialized then s.initialized else b :: s.initialized }

/-- The state with one more call. -/
def addCall (s : State) (call : Expr) : State :=
  { s with calls := s.calls.map (· ++ [call]) }

/-- The variable that an assignment target names, directly or as the last part of a name. -/
def target? : Option Expr → Option Binding
  | some (.name n) => n.binding
  | some (.qualified _ _ (some n)) => n.binding
  | _ => none

/-- The state after an assignment.  A plain assignment gives a value to a variable that is no
parameter and had none where it was declared; the last one stays. -/
def assign (s : State) (operator : String) (left right : Option Expr) : State :=
  match target? left, right with
  | some b, some value =>
    if operator == "=" && b.kind ≠ .parameter && b ∉ s.initialized then
      { s with bindings := s.bindings.insert b value }
    else s
  | _, _ => s

/-! ### Type names -/

/-- A name up to its first dot, and what follows that dot. -/
def splitHead (cs : List Char) : List Char × List Char :=
  (cs.takeWhile (· ≠ '.'), (cs.dropWhile (· ≠ '.')).drop 1)

/-- The qualified name that the unit knows for the first part of a type name. -/
def qualifiedHead? (s : State) (head : String) (single : Bool) : Option String :=
  match s.imports.get? head with
  | some q => some q
  | none =>
    match s.localTypes.get? head with
    | some q => some q
    | none => if single && languageTypes.contains head then some ("java.lang." ++ head) else none

/-- The type that a text names, qualified as far as the unit allows. -/
def resolveType (s : State) (text : String) : Option String :=
  if text == "" then none
  else
    let erased := eraseChars text.toList
    let base := erased.takeWhile (· ≠ '[')
    let dims := erased.dropWhile (· ≠ '[')
    if base.isEmpty || primitiveTypes.contains (String.ofList base) then some (String.ofList erased)
    else if base == ['v', 'a', 'r'] then none
    else
      let (head, rest) := splitHead base
      match s.qualifiedHead? (String.ofList head) rest.isEmpty with
      | none => some (String.ofList erased)
      | some q =>
        some (q ++ (if rest.isEmpty then "" else "." ++ String.ofList rest) ++ String.ofList dims)

end State

/-- Why a source text cannot be read. -/
inductive Fault where
  /-- A node lacks a child that it must have. -/
  | missingChild
  /-- A label without anything after it, not even its name. -/
  | emptyLabel
  /-- A directive that is no text. -/
  | directive
  deriving DecidableEq, Repr

/-- A step of reading. -/
abbrev Read := StateT State (Except Fault)

namespace Read

/-- Runs a step in a scope of its own. -/
def inScope {α : Type} (step : Read α) : Read α := do
  modify State.pushScope
  let a ← step
  modify State.popScope
  return a

/-- Stops because of a fault. -/
def fault {α : Type} (f : Fault) : Read α :=
  throw f

/-- A node that must be there. -/
def require {α : Type} : Option α → Read α
  | some a => pure a
  | none => fault .missingChild

end Read

/-- Declares a variable in the innermost scope. -/
def declare (S : Source) (name : String) (kind : VariableKind) (type : Option String) (node : Tree)
    (index : Int) : Read Binding := do
  let s ← get
  let p := S.position node
  let b : Binding :=
    { unit := S.path, name, kind, declaredType := type, owner := s.method,
      declaringType := s.currentClass, index, line := p.line, column := p.column }
  set (s.addVariable b)
  return b

end TaintFlow.Java
