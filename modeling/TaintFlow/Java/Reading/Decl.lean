import TaintFlow.Java.Reading.Stmt

/-!
# Reading declarations

A unit is read in two passes.  The first one collects the names of all types, their superclasses
and the return types of their methods; the second one reads fields and bodies.  All fields of a
type are known before the first initializer is read, and all initializers are read before the
first method.
-/

namespace TaintFlow.Java

open TaintFlow.Code

/-- The members of a type, those after the constants of an enumeration included. -/
def Tree.members (t : Tree) : List (Subtree t) :=
  match t.child? "body" with
  | none => []
  | some body =>
    body.1.content.flatMap fun c =>
      if c.1.type == "enum_body_declarations" then
        c.1.content.map fun d => body.trans (c.trans d)
      else [body.trans c]

/-- Types of the nodes that declare a method. -/
def constructorTypes : List String :=
  ["constructor_declaration", "compact_constructor_declaration"]

section

variable (S : Source)

/-! ### First pass -/

/-- The qualified name of a type, given the type or package around it. -/
def qualify (around name : String) : String :=
  if around == "" then name else around ++ "." ++ name

/-- Notes the return type of a method of a type. -/
def collectMethod (type : String) (m : Tree) : Read Unit := do
  let parameters ← Read.require (m.child? "parameters")
  let arity := (parameters.1.content.filter fun p =>
    p.1.type == "formal_parameter" || p.1.type == "spread_parameter").length
  let key : HeaderKey := (type, S.textOf (m.child? "name"), arity)
  modify fun s => { s with headers := s.headers.insert key (S.textOf (m.child? "type")) }

/-- Notes the name and the superclass of a type. -/
def collectType (around : String) (t : Tree) : Read String := do
  let name := S.textOf (t.child? "name")
  let s ← get
  let qualified := qualify (if around == "" then s.package else around) name
  let superclasses :=
    match t.child? "superclass" with
    | none => s.superclasses
    | some c => s.superclasses.insert qualified (S.textOf c.1.firstContent?)
  let localTypes :=
    if s.localTypes.contains name then s.localTypes else s.localTypes.insert name qualified
  set { s with superclasses, localTypes }
  return qualified

/-- Notes what a type and the types inside it declare. -/
def collect (around : String) (t : Tree) : Read Unit := do
  let qualified ← collectType S around t
  t.members.forM fun m =>
    if m.1.isTypeDeclaration then collect qualified m.1
    else if m.1.type == "method_declaration" then collectMethod S qualified m.1
    else pure ()
termination_by t.size
decreasing_by exact m.2

/-! ### Second pass -/

/-- A parameter of a method: the node of its name, and its type. -/
structure Parameter where
  name : Option Tree
  type : Option String

/-- Reads the declaration of a parameter. -/
def readParameter (s : State) (p : Tree) : Option Parameter :=
  if p.type == "formal_parameter" then
    let type := S.textOf (p.child? "type") ++ S.textOf (p.child? "dimensions")
    some ⟨(p.child? "name").map (·.1), s.resolveType type⟩
  else if p.type == "spread_parameter" then
    let type := p.content.find? fun c =>
      c.1.type ≠ "modifiers" && c.1.type ≠ "variable_declarator"
    let name := (p.contentOf? ["variable_declarator"]).bind fun d =>
      (d.1.child? "name").map (·.1)
    some ⟨name, s.resolveType (S.textOf type ++ "[]")⟩
  else none

/-- The parameters of a method. -/
def readParameters (s : State) (m : Tree) : List Parameter :=
  match m.child? "parameters" with
  | none => []
  | some ps => ps.1.content.filterMap (readParameter S s ·.1)

/-- Declares the parameters from place `index` on. -/
def declareParameters : (index : Nat) → List Parameter → Read Unit
  | _, [] => pure ()
  | index, p :: ps => do
    match p.name with
    | none => pure ()
    | some n =>
      let _ ← declare S (S.text n) .parameter p.type n index
    declareParameters (index + 1) ps

/-- Reads a method or constructor of a type. -/
def readMethod (type : String) (isConstructor : Bool) (m : Tree) : Read Unit := do
  let outer ← get
  let name := (m.child? "name").map (·.1)
  let parameters := readParameters S outer m
  let signature : Signature := ⟨type, S.text? name, parameters.map (·.type.getD "")⟩
  set { outer with method := some signature, calls := some [] }
  let body ← Read.inScope do
    declareParameters S 0 parameters
    match m.child? "body" with
    | none => return none
    | some b => return some (← (reading S b.1).asBlock)
  let s ← get
  let method : Method :=
    { signature
      position := S.position (name.getD m)
      parameterNames := parameters.filterMap fun p => p.name.map S.text
      returnType := if isConstructor then none else s.resolveType (S.textOf (m.child? "type"))
      body
      isConstructor }
  set { s with
    methods := s.methods ++ [method]
    methodCalls := s.methodCalls.update signature [] (· ++ s.calls.getD [])
    method := outer.method
    calls := outer.calls }

/-- Declares the variables of a field declaration; answers them with the nodes of their values. -/
def declareFields (m : Tree) : Read (List (Binding × Tree)) := do
  let type := (← get).resolveType (S.textOf (m.child? "type"))
  let fields ← (m.childrenIn "declarator").mapM fun d => do
    let name ← Read.require (d.1.child? "name")
    let b ← declare S (S.text name.1) .field type name.1 (-1)
    return (d.1.child? "value").map fun v => (b, v.1)
  return fields.filterMap id

/-- Declares the fields that a member of a type brings. -/
def declareMember (type : String) (m : Tree) : Read (List (Binding × Tree)) := do
  if m.type == "field_declaration" || m.type == "constant_declaration" then declareFields S m
  else if m.type == "enum_constant" then
    let name ← Read.require (m.child? "name")
    let _ ← declare S (S.text name.1) .field (some type) name.1 (-1)
    return []
  else return []

/-- Reads the fields of a type: first all declarations, then all initializers. -/
def readFields (type : String) (members : List Tree) : Read Unit := do
  let values ← members.mapM (declareMember S type)
  modify fun s => { s with fields := s.fields.insert type (s.scopes.head?.getD {}) }
  values.flatten.forM fun (b, v) => do
    let e ← (reading S v).asExpr
    modify (·.bind b (some e))

/-- Reads a type with its members. -/
def readType (t : Tree) : Read Unit := do
  let outer ← get
  let name := S.textOf (t.child? "name")
  let type :=
    match outer.currentClass with
    | some c => if c == "" then outer.localTypes.getD name name else c ++ "." ++ name
    | none => outer.localTypes.getD name name
  set { outer.pushScope with classes := type :: outer.classes, method := none, calls := none }
  readFields S type (t.members.map (·.1))
  t.members.forM fun m =>
    if m.1.type == "method_declaration" then readMethod S type false m.1
    else if constructorTypes.contains m.1.type then readMethod S type true m.1
    else if m.1.isTypeDeclaration then readType m.1
    else pure ()
  modify fun s =>
    { s.popScope with classes := outer.classes, method := outer.method, calls := outer.calls }
termination_by t.size
decreasing_by exact m.2

/-! ### Units -/

/-- Notes an import of a single type. -/
def readImport (t : Tree) (s : State) : State :=
  if t.children.any (fun c => c.type == "static" || c.type == "asterisk") then s
  else
    match t.contentOf? ["identifier", "scoped_identifier"] with
    | none => s
    | some n =>
      let name := S.text n.1
      { s with imports := s.imports.insert (Types.simpleName name) name }

/-- Notes the package or an import. -/
def readHeader (s : State) (t : Tree) : State :=
  if t.type == "package_declaration" then
    { s with package := S.textOf (t.contentOf? ["identifier", "scoped_identifier"]) }
  else if t.type == "import_declaration" then readImport S t s
  else s

/-- Reads a unit in two passes over its types. -/
def readUnit (root : Tree) : Read Unit := do
  let items := root.content.map (·.1)
  let types := items.filter Tree.isTypeDeclaration
  modify fun s => items.foldl (readHeader S) s
  types.forM (collect S "")
  types.forM (readType S)

end

/-- The unit that the parse tree `root` of a source describes. -/
def unitOfTree (S : Source) (root : Tree) : Except Fault SourceUnit :=
  match (readUnit S root).run {} with
  | .error f => .error f
  | .ok (_, s) =>
    .ok
      { path := S.path
        package := s.package
        imports := s.imports
        methods := s.methods
        calls := s.methodCalls
        bindings := s.bindings }

end TaintFlow.Java
