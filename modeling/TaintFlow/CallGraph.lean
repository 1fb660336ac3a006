import TaintFlow.Code.SourceUnit
import TaintFlow.Types.Site

/-!
# Call graphs

A call graph holds, for every source unit, its methods with the calls in their bodies, and the
values of its variables.  An index from method names and numbers of arguments to calls leads from
a method to the places that call it.

The graph changes one unit at a time: `replaceUnit` removes what was known of a unit and adds what
its source says now.
-/

namespace TaintFlow

open TaintFlow.Code TaintFlow.Types

namespace CallGraph

/-- A method and the calls in its body. -/
structure Entry where
  method : Method
  calls : List Expr := []
  deriving Repr

/-- A call, seen from the method it calls. -/
structure IndexedCall where
  unit : String
  caller : Method
  call : Expr
  site : Site
  deriving Repr

/-- Method name and number of arguments. -/
abbrev Key := String × Nat

end CallGraph

open CallGraph in
/-- Methods, calls and variables of a set of source units. -/
structure CallGraph where
  units : Table String (Table Signature Entry) := {}
  /-- The value of each variable. -/
  bindings : Table Binding Expr := {}
  /-- The variables that each unit gave a value. -/
  unitBindings : Table String (List Binding) := {}
  /-- The calls of each name and number of arguments. -/
  index : Table Key (List IndexedCall) := {}
  /-- The index keys at which each unit has calls. -/
  unitKeys : Table String (List Key) := {}
  deriving Repr

namespace CallGraph

/-- A list with `x` at its end, unless it is already a member. -/
def addOnce {α : Type} [DecidableEq α] (x : α) (xs : List α) : List α :=
  if x ∈ xs then xs else xs ++ [x]

/-- The call graph of no units. -/
def empty : CallGraph := {}

/-! ### Changes -/

/-- Whether a unit is known. -/
def contains (g : CallGraph) (unit : String) : Bool :=
  g.units.contains unit

/-- Removes the calls of a unit from one entry of the index. -/
def dropCalls (unit : String) (index : Table Key (List IndexedCall)) (key : Key) :
    Table Key (List IndexedCall) :=
  match (index.getD key []).filter (·.unit ≠ unit) with
  | [] => index.erase key
  | rest => index.insert key rest

/-- Removes every method, call and variable of a unit; an unknown unit changes nothing. -/
def removeUnit (g : CallGraph) (unit : String) : CallGraph :=
  if g.contains unit then
    { units := g.units.erase unit
      bindings := (g.unitBindings.getD unit []).foldl Table.erase g.bindings
      unitBindings := g.unitBindings.erase unit
      index := (g.unitKeys.getD unit []).foldl (dropCalls unit) g.index
      unitKeys := g.unitKeys.erase unit }
  else g

/-- Starts a unit afresh. -/
def addUnit (g : CallGraph) (unit : String) : CallGraph :=
  let g := g.removeUnit unit
  { g with units := g.units.insert unit {} }

/-- Adds a method to a unit; of two methods with one signature the first stays. -/
def addMethod (g : CallGraph) (unit : String) (method : Method) : CallGraph :=
  { g with units := g.units.update unit {} fun methods =>
      if methods.contains method.signature then methods
      else methods.insert method.signature ⟨method, []⟩ }

/-- Adds an expression to the calls of a method. -/
def attach (g : CallGraph) (unit : String) (caller : Method) (call : Expr) : CallGraph :=
  let g := g.addMethod unit caller
  { g with units := g.units.update unit {} fun methods =>
      methods.update caller.signature ⟨caller, []⟩ fun entry =>
        { entry with calls := entry.calls ++ [call] } }

/-- Records that a method contains a call.  An expression that is no call is kept with the method
and enters no index. -/
def addCall (g : CallGraph) (unit : String) (caller : Method) (call : Expr) : CallGraph :=
  let g := g.attach unit caller call
  match Site.ofExpr? call with
  | none => g
  | some site =>
    let key := (site.name, site.arity)
    { g with
      index := g.index.update key [] (· ++ [⟨unit, caller, call, site⟩])
      unitKeys := g.unitKeys.update unit [] (addOnce key) }

/-- Records the value of a variable. -/
def addBinding (g : CallGraph) (unit : String) (binding : Binding) (value : Expr) : CallGraph :=
  { g with
    bindings := g.bindings.insert binding value
    unitBindings := g.unitBindings.update unit [] (addOnce binding) }

/-- Adds a method of a unit with the calls that the unit's source lists for its signature. -/
def addDeclaration (source : SourceUnit) (g : CallGraph) (method : Method) : CallGraph :=
  (source.calls.getD method.signature []).foldl (fun g call => g.addCall source.path method call)
    (g.addMethod source.path method)

/-- Replaces what is known of a unit by what its source says. -/
def replaceUnit (g : CallGraph) (source : SourceUnit) : CallGraph :=
  let g := source.methods.foldl (addDeclaration source) (g.addUnit source.path)
  source.bindings.entries.foldl (fun g entry => g.addBinding source.path entry.1 entry.2) g

/-! ### Questions -/

/-- The paths of the known units, in the order in which they came. -/
def unitPaths (g : CallGraph) : List String :=
  g.units.keys

/-- The methods of a unit. -/
def methods (g : CallGraph) (unit : String) : List Method :=
  (g.units.getD unit {}).values.map (·.method)

/-- The calls in the body of a method. -/
def calls (g : CallGraph) (unit : String) (signature : Signature) : List Expr :=
  match (g.units.getD unit {}).get? signature with
  | some entry => entry.calls
  | none => []

/-- The first method among the entries that a site may call. -/
def findMethod (site : Site) (methods : Table Signature Entry) : Option Method :=
  (methods.entries.find? fun entry => signatureFits entry.1 site).map (·.2.method)

/-- The method that a call calls.  The unit of the call is searched first, then the others in
order.  A call on an unknown type is not resolved. -/
def resolve (g : CallGraph) (unit : Option String) (call : Expr) : Option Method :=
  (Site.ofExpr? call).bind fun site =>
    if site.declaringType.isNone then none
    else
      let own := (unit.bind g.units.get?).bind (findMethod site)
      own <|> (g.units.entries.filter fun entry => some entry.1 ≠ unit).findSome? fun entry =>
        findMethod site entry.2

/-- Every caller of a method, with the call. -/
def invokers (g : CallGraph) (signature : Signature) : List (Method × Expr) :=
  ((g.index.getD (signature.name, signature.arity) []).filter fun c =>
    signatureFits signature c.site).map fun c => (c.caller, c.call)

/-- The value of the variable that a simple name refers to. -/
def valueOf (g : CallGraph) (name : Name) : Option Expr :=
  name.binding.bind g.bindings.get?

/-- The value of the variable that an expression names, directly or as the last part of a
qualified name. -/
def valueOfExpr (g : CallGraph) : Expr → Option Expr
  | .name n => g.valueOf n
  | .qualified _ _ (some n) => g.valueOf n
  | _ => none

/-- Sizes of a call graph. -/
structure Stats where
  units : Nat
  methods : Nat
  calls : Nat
  bindings : Nat
  deriving DecidableEq, Repr

/-- Sizes of the call graph; calls are counted in the index. -/
def stats (g : CallGraph) : Stats where
  units := g.units.size
  methods := (g.units.values.flatMap Table.keys).length
  calls := g.index.values.flatten.length
  bindings := g.bindings.size

end CallGraph

end TaintFlow
