import TaintFlow.Java.Reading.Basic
import TaintFlow.Text.Case
import TaintFlow.Types.Static

/-!
# Reading expressions

A node is read as an expression by its form.  Calls are kept for the method being read, and
assignments give values to variables, wherever in an expression they stand.
-/

namespace TaintFlow.Java

open TaintFlow.Code TaintFlow.Types

/-- The forms of nodes that are read as expressions in different ways. -/
inductive ExprForm where
  | literal (kind : Kind)
  | identifier
  | parenthesized
  | binary
  | unary
  | update
  | ternary
  | assignment
  | cast
  | creation
  | arrayCreation
  | arrayInitializer
  | fieldAccess
  | invocation
  | lambda
  /-- Anything else; calls and assignments inside count. -/
  | other
  deriving DecidableEq, Repr

/-- The form of a node with the given type. -/
def ExprForm.ofType : String → ExprForm
  | "string_literal" => .literal .stringLiteral
  | "text_block" => .literal .stringLiteral
  | "character_literal" => .literal .characterLiteral
  | "decimal_integer_literal" => .literal .numberLiteral
  | "hex_integer_literal" => .literal .numberLiteral
  | "octal_integer_literal" => .literal .numberLiteral
  | "binary_integer_literal" => .literal .numberLiteral
  | "decimal_floating_point_literal" => .literal .numberLiteral
  | "hex_floating_point_literal" => .literal .numberLiteral
  | "true" => .literal .booleanLiteral
  | "false" => .literal .booleanLiteral
  | "null_literal" => .literal .nullLiteral
  | "identifier" => .identifier
  | "parenthesized_expression" => .parenthesized
  | "binary_expression" => .binary
  | "unary_expression" => .unary
  | "update_expression" => .update
  | "ternary_expression" => .ternary
  | "assignment_expression" => .assignment
  | "cast_expression" => .cast
  | "object_creation_expression" => .creation
  | "array_creation_expression" => .arrayCreation
  | "array_initializer" => .arrayInitializer
  | "field_access" => .fieldAccess
  | "method_invocation" => .invocation
  | "lambda_expression" => .lambda
  | _ => .other

/-- The components of a dotted name. -/
def components (cs : List Char) : List (List Char) :=
  cs.splitOn '.'

/-- Whether a component looks like that of a package. -/
def isPackagePart : List Char → Bool
  | [] => false
  | c :: rest => ((0x61 ≤ c.toNat && c.toNat ≤ 0x7a) || c == '_') && rest.all Text.isWord

/-- Whether a component looks like the name of a type. -/
def isTypePart : List Char → Bool
  | [] => false
  | c :: rest => (0x41 ≤ c.toNat && c.toNat ≤ 0x5a) && rest.all Text.isWord

/-- Whether a text looks like a type name qualified by a package. -/
def looksQualified (text : String) : Bool :=
  match (components text.toList).reverse with
  | last :: rest => isTypePart last && !rest.isEmpty && rest.all isPackagePart
  | [] => false

section

variable (S : Source) (t : Tree) (read : Readings t)

/-- Type of the object a member is reached through.  `node` is the node that was read as
`receiver`. -/
def receiverType (s : State) (node : Tree) (receiver : Expr) : Option String :=
  match receiver with
  | .name n =>
    match n.binding with
    | some b => b.declaredType
    | none =>
      if n.identifier.toList.head?.any Text.isCapital then s.resolveType n.identifier else none
  | .qualified _ _ (some n) =>
    if (node.type == "field_access" || node.type == "scoped_identifier")
        && looksQualified (S.text node) && n.binding.isNone then some (S.text node)
    else staticType receiver
  | _ => staticType receiver

/-- Reads a field access; the field is looked up in the type of the object. -/
def readFieldAccess : Read Expr := do
  let object := t.child? "object"
  let member := t.child? "field"
  let memberText := S.textOf member
  let (qualifier, owner) ← ownerOf object
  let s ← get
  let binding := do
    let type ← owner
    if type == "" then none
    let scope ← s.fields.get? type
    scope.get? memberText
  let place :=
    match member with
    | some m => S.position m.1
    | none => S.position t
  return .qualified (S.origin t) qualifier (some ⟨⟨memberText, place⟩, memberText, binding⟩)
where
  /-- The object of the access and its type. -/
  ownerOf (object : Option (Subtree t)) : Read (Option Expr × Option String) := do
    match object with
    | none => return (none, (← get).currentClass)
    | some o =>
      if o.1.type == "this" || o.1.type == "super" then
        return (some (.unsupported (S.origin o.1) o.1.type), (← get).currentClass)
      else
        let e ← (read o).asExpr
        return (some e, receiverType S (← get) o.1 e)

/-- Reads a call of a method.  Its return type is that of the method with the same name and number
of parameters, if the unit declares one in the type of the receiver. -/
def readInvocation : Read Expr := do
  let name := S.textOf (t.child? "name")
  let (receiver, type) ← receiverOf (t.child? "object")
  let arguments ← read.contentOf (t.child? "arguments")
  let s ← get
  let result := do
    let type ← type
    let header ← s.headers.get? (type, name, arguments.length)
    s.resolveType header
  let call := Expr.call (S.origin t) name receiver arguments type result
  modify (·.addCall call)
  return call
where
  /-- The receiver of the call and its type. -/
  receiverOf (object : Option (Subtree t)) : Read (Option Expr × Option String) := do
    let s ← get
    match object with
    | none => return (none, s.currentClass)
    | some o =>
      if o.1.type == "this" then return (none, s.currentClass)
      else if o.1.type == "super" then
        return (none, s.resolveType (s.superclasses.getD (s.currentClass.getD "") ""))
      else
        let e ← (read o).asExpr
        return (some e, receiverType S (← get) o.1 e)

/-- Reads a call of a constructor, after the object that the new one belongs to. -/
def readCreation : Read Expr := do
  match t.firstContent? with
  | some outer =>
    if !outer.1.isClosed && !t.firstContentIs "type" && outer.1.type ≠ "argument_list" then
      let _ ← (read outer).asExpr
  | none => pure ()
  let s ← get
  let type := (s.resolveType (S.textOf (t.child? "type"))).getD ""
  let arguments ← read.contentOf (t.child? "arguments")
  let call := Expr.creation (S.origin t) type arguments
  modify (·.addCall call)
  return call

/-- Reads the creation of an array, with its elements or the expressions of its sizes. -/
def readArrayCreation : Read Expr := do
  let element := (← get).resolveType (S.textOf (t.child? "type"))
  let elements ←
    match t.child? "value" with
    | some v => read.contentOf (some v)
    | none => do
      let _ ← read.exprs (t.childrenIn "dimensions")
      pure []
  let type := element.bind fun e => if e == "" then none else some (e ++ "[]")
  return .array (S.origin t) elements type

/-- Nodes that name the parameters of a lambda. -/
def lambdaNames : List Tree :=
  match t.child? "parameters" with
  | none => []
  | some ps =>
    if ps.1.type == "identifier" then [ps.1]
    else ps.1.content.filterMap fun c =>
      if c.1.type == "identifier" then some c.1 else (c.1.child? "name").map (·.1)

/-- Reads a lambda on behalf of the method around it. -/
def readLambda : Read Expr := do
  Read.inScope do
    (lambdaNames t).forM fun n => do
      let _ ← declare S (S.text n) .localVar none n (-1)
    match t.child? "body" with
    | none => pure ()
    | some body =>
      if body.1.type == "block" then
        let _ ← (read body).asBlock
      else
        let _ ← (read body).asExpr
  return .unsupported (S.origin t) t.type

/-- Whether two plus signs stand next to each other. -/
def hasDoublePlus : List Char → Bool
  | '+' :: '+' :: _ => true
  | _ :: rest => hasDoublePlus rest
  | [] => false

/-- Reads a node as an expression. -/
def readExpr : Read Expr := do
  let o := S.origin t
  match ExprForm.ofType t.type with
  | .literal kind => return .literal o kind
  | .identifier => return .name ⟨o, o.text, (← get).lookup o.text⟩
  | .parenthesized => return .parenthesized o (← read.expr? t.firstContent?)
  | .binary =>
    let left ← read.expr? (t.child? "left")
    let right ← read.expr? (t.child? "right")
    return .binary o (S.textOf (t.child? "operator")) left right
  | .unary =>
    return .unary o (S.textOf (t.child? "operator")) (← read.expr? (t.child? "operand"))
  | .update =>
    let operator := if hasDoublePlus o.text.toList then "++" else "--"
    return .unary o operator (← read.expr? t.firstContent?)
  | .ternary =>
    let condition ← read.expr? (t.child? "condition")
    let first ← read.expr? (t.child? "consequence")
    let second ← read.expr? (t.child? "alternative")
    return .conditional o condition first second
  | .assignment =>
    let operator := S.textOf (t.child? "operator")
    let left ← read.expr? (t.child? "left")
    let right ← read.expr? (t.child? "right")
    modify (·.assign operator left right)
    return .assignment o operator left right
  | .cast =>
    let type := ((← get).resolveType (S.textOf (t.child? "type"))).getD ""
    return .cast o type (← read.expr? (t.child? "value"))
  | .creation => readCreation S t read
  | .arrayCreation => readArrayCreation S t read
  | .arrayInitializer => return .array o (← read.exprs t.content) none
  | .fieldAccess => readFieldAccess S t read
  | .invocation => readInvocation S t read
  | .lambda => readLambda S t read
  | .other =>
    if !t.isClosed then
      let _ ← read.exprs t.content
    return .unsupported o t.type

end

end TaintFlow.Java
