import TaintFlow.Java.Grammar.Type

/-!
# Expressions

From the tightest construct to the loosest: primaries with the selectors after them, unary
operators and casts, binary operators by precedence, and last conditionals, assignments and
lambdas.
-/

namespace TaintFlow.Java

namespace Parse

/-! ### Parts of expressions -/

/-- Reads an expression in parentheses. -/
def parenthesized (g : Grammar) : Parse Tree :=
  node "parenthesized_expression" do
    expect "("
    let inner ← g .expression
    expect ")"
    return [inner]

/-- Reads the arguments of a call. -/
def argumentList (g : Grammar) : Parse Tree :=
  node "argument_list" do
    expect "("
    let arguments ← commaList ")" (g .expression)
    expect ")"
    return arguments

/-- Reads the elements of an array in braces. -/
def arrayInitializer (g : Grammar) : Parse Tree :=
  node "array_initializer" do
    expect "\x7b"
    let elements ← untilAny ["\x7d"] do
      let element ← g (if ← isAt "\x7b" then .arrayInitializer else .expression)
      if !(← isAt "\x7d") then expect ","
      return element
    expect "\x7d"
    return elements

/-! ### Lambdas -/

/-- Whether a lambda is next. -/
def atLambda : Parse Bool := do
  if ← isAt "(" then
    match closing "(" ")" 1 ((← get).rest.drop 1) with
    | some (t :: _) => return t.text == "->"
    | _ => return false
  else return (← nameAhead 0) && (← textAhead 1) == "->"

/-- Reads the parameters of a lambda. -/
def lambdaParameters (g : Grammar) : Parse Tree := do
  if ← nameAhead 0 then identifier
  else if (← nameAhead 1) && [",", ")"].contains (← textAhead 2) then
    node "inferred_parameters" do
      expect "("
      let names ← separated "," identifier
      expect ")"
      return names
  else formalParameters g

/-- Reads a lambda. -/
def lambda (g : Grammar) : Parse Tree :=
  node "lambda_expression" do
    let parameters ← inField "parameters" (lambdaParameters g)
    expect "->"
    let body ← inField "body" (g (if ← isAt "\x7b" then .block else .expression))
    return [parameters, body]

/-! ### Creations -/

/-- Reads the sizes of a new array, or its elements. -/
def arrayParts (g : Grammar) : Parse (List Tree) := do
  let empty ← nameDimensions?
  if !empty.isEmpty then
    return empty ++ [← inField "value" (g .arrayInitializer)]
  let isSize := (do return (← isAt "[") && (← textAhead 1) ≠ "]")
  let sizes ← whileAt isSize <| inField "dimensions" <| node "dimensions_expr" do
    expect "["
    let size ← g .expression
    expect "]"
    return [size]
  if sizes.isEmpty then failure
  return sizes ++ (← nameDimensions?)

/-- Reads a creation that goes on from an offset; `outer` is what the new object belongs to. -/
def creation (g : Grammar) (start : Nat) (outer : List Tree) : Parse Tree := do
  expect "new"
  let arguments ← ifAt "<" (one (inField "type_arguments" (typeArguments g)))
  let annotations ← annotations?
  let type ← inField "type" (simpleType g)
  if ← isAt "(" then
    let values ← inField "arguments" (argumentList g)
    let body ← ifAt "\x7b" (one (g .classBody))
    nodeFrom start "object_creation_expression"
      (outer ++ arguments ++ annotations ++ [type, values] ++ body)
  else
    let parts ← arrayParts g
    nodeFrom start "array_creation_expression" (annotations ++ [type] ++ parts)

/-! ### Switches -/

/-- Reads what stands after `case`: a pattern, or expressions. -/
def casePattern (g : Grammar) : Parse (List Tree) := do
  if ← wouldRead (do let _ ← modifiers?; let _ ← g .type; identifier) then
    one <| node "pattern" <| one <| node "type_pattern" do
      let modifiers ← modifiers?
      return modifiers ++ [← g .type, ← identifier]
  else if (← nameAhead 0) && (← wouldRead (do let _ ← g .type; expect "(")) then
    one <| node "pattern" <| one <| node "record_pattern" do
      let _ ← g .type
      skipBrackets "(" ")"
      return []
  else separated "," (caseConstant g)
where
  /-- Reads one of the values of a label. -/
  caseConstant (g : Grammar) : Parse Tree := do
    if ← isAt "default" then punctuation else g .plainExpression

/-- Reads a label of a switch, without the mark at its end. -/
def switchLabel (g : Grammar) : Parse Tree :=
  node "switch_label" do
    if ← isAt "default" then
      expect "default"
      return []
    expect "case"
    let values ← casePattern g
    let guard ← ifAt "when" <| one <| node "guard" do
      expect "when"
      one (g .plainExpression)
    return values ++ guard

/-- Reads a group of a switch: labels with statements, or a label with an arrow. -/
def switchGroup (g : Grammar) : Parse Tree := do
  let start ← mark
  let label ← switchLabel g
  if ← isAt "->" then
    expect "->"
    let body ← g .statement
    nodeFrom start "switch_rule" [label, body]
  else
    expect ":"
    let isLabel := atAny ["case", "default"]
    let labels ← whileAt isLabel (do let l ← switchLabel g; expect ":"; return l)
    let statements ← untilAny ["case", "default", "\x7d"] (g .statement)
    nodeFrom start "switch_block_statement_group" (label :: labels ++ statements)

/-- Reads a switch. -/
def switchExpression (g : Grammar) : Parse Tree :=
  node "switch_expression" do
    expect "switch"
    let condition ← inField "condition" (parenthesized g)
    let body ← inField "body" <| node "switch_block" do
      expect "\x7b"
      let groups ← untilAny ["\x7d"] (switchGroup g)
      expect "\x7d"
      return groups
    return [condition, body]

/-! ### Primaries -/

/-- Node types of the words that are expressions. -/
def wordNode? : String → Option String
  | "true" => some "true"
  | "false" => some "false"
  | "null" => some "null_literal"
  | "this" => some "this"
  | "super" => some "super"
  | _ => none

/-- Whether a type is next that no expression looks like: one of a class literal or of a reference
to a method. -/
def atTypeName (g : Grammar) : Parse Bool := do
  let candidate := (primitiveNode? (← textAhead 0)).isSome
    || ((← nameAhead 0) && ["<", "[", "."].contains (← textAhead 1))
  if !candidate then return false
  wouldRead do
    let type ← g .type
    if ["type_identifier", "scoped_type_identifier"].contains type.type then failure
    if ← isAt "::" then return
    expect "."
    expect "class"

/-- Reads a class literal or a reference to a method that begins with a type. -/
def typePrimary (g : Grammar) : Parse Tree := do
  let start ← mark
  let type ← g .type
  if ← isAt "." then
    expect "."
    expect "class"
    nodeFrom start "class_literal" [type]
  else return type

/-- Reads a primary without selectors. -/
def primary (g : Grammar) : Parse Tree := do
  let start ← mark
  match ← ahead? 0 with
  | none => failure
  | some t =>
    match t.kind with
    | .literal type => leaf type
    | _ =>
      if t.text == "(" then parenthesized g
      else if t.text == "new" then creation g start []
      else
        match wordNode? t.text with
        | some type => leaf type
        | none =>
          if ← atTypeName g then typePrimary g
          else
            let name ← identifier
            if ← isAt "(" then
              let arguments ← inField "arguments" (argumentList g)
              nodeFrom start "method_invocation" [{ name with field := some "name" }, arguments]
            else return name

/-! ### Selectors -/

/-- Gives a node a role. -/
def asField (field : String) (t : Tree) : Tree :=
  { t with field := some field }

/-- Reads a call of a method of an object. -/
def methodCall (g : Grammar) (start : Nat) (before : List Tree) : Parse Tree := do
  let types ← ifAt "<" (one (inField "type_arguments" (typeArguments g)))
  let name ← inField "name" identifier
  let arguments ← inField "arguments" (argumentList g)
  nodeFrom start "method_invocation" (before ++ types ++ [name, arguments])

/-- Reads what follows a dot. -/
def member (g : Grammar) (start : Nat) (object : Tree) : Parse Tree := do
  expect "."
  let before := [asField "object" object]
  match ← textAhead 0 with
  | "new" => creation g start [object]
  | "class" =>
    let _ ← next
    nodeFrom start "class_literal" [{ object with type := "type_identifier", children := [] }]
  | "this" =>
    let field ← inField "field" (leaf "this")
    nodeFrom start "field_access" (before ++ [field])
  | "super" =>
    let parent ← leaf "super"
    if ← isAt "::" then nodeFrom start "field_access" (before ++ [parent])
    else
      expect "."
      if (← isAt "<") || (← textAhead 1) == "(" then methodCall g start (before ++ [parent])
      else
        let field ← inField "field" identifier
        nodeFrom start "field_access" (before ++ [parent, field])
  | text =>
    if text == "<" || (← textAhead 1) == "(" then methodCall g start before
    else
      let field ← inField "field" identifier
      nodeFrom start "field_access" (before ++ [field])

/-- Reads the name that follows a double colon. -/
def methodReference (g : Grammar) (start : Nat) (object : Tree) : Parse Tree := do
  expect "::"
  let types ← ifAt "<" (one (typeArguments g))
  if ← isAt "new" then
    expect "new"
    nodeFrom start "method_reference" ([object] ++ types)
  else
    let name ← identifier
    nodeFrom start "method_reference" ([object] ++ types ++ [name])

/-- Whether the call of a superclass's constructor is next, which is no selector. -/
def atSuperCall : Parse Bool := do
  return (← isAtPair "." "super") && (← textAhead 2) == "("

/-- Reads the selectors after a primary.  `n` bounds their number. -/
def selectors (g : Grammar) (start : Nat) : (n : Nat) → Tree → Parse Tree
  | 0, object => return object
  | n + 1, object => do
    match ← textAhead 0 with
    | "." =>
      if ← atSuperCall then return object
      selectors g start n (← member g start object)
    | "[" =>
      expect "["
      let index ← inField "index" (g .expression)
      expect "]"
      selectors g start n (← nodeFrom start "array_access" [asField "array" object, index])
    | "::" => selectors g start n (← methodReference g start object)
    | "++" | "--" =>
      let _ ← next
      selectors g start n (← nodeFrom start "update_expression" [object])
    | _ => return object

/-- Reads a primary with its selectors. -/
def selected (g : Grammar) : Parse Tree := do
  let start ← mark
  selectors g start (← get).rest.length (← primary g)

/-! ### Unary operators and casts -/

/-- Symbols that begin the operand of a cast to any type. -/
def operandSymbols : List String :=
  ["(", "!", "~"]

/-- Symbols that begin the operand of a cast to a primitive type. -/
def signSymbols : List String :=
  ["+", "-", "++", "--"]

/-- Whether a token begins the operand of a cast. -/
def beginsOperand (isPrimitive : Bool) (t : Token) : Bool :=
  match t.kind with
  | .literal _ => true
  | .word => t.text ≠ "instanceof"
  | _ => operandSymbols.contains t.text || (isPrimitive && signSymbols.contains t.text)

/-- Reads the types of a cast. -/
def castTypes (g : Grammar) : Parse (List Tree) := do
  expect "("
  let types ← separated "&" (inField "type" (g .type))
  expect ")"
  return types

/-- Whether a cast is next. -/
def atCast (g : Grammar) : Parse Bool := do
  let isPrimitive := (primitiveNode? (← textAhead 1)).isSome && (← textAhead 2) == ")"
  wouldRead do
    let _ ← castTypes g
    match ← ahead? 0 with
    | some t => if beginsOperand isPrimitive t then pure () else failure
    | none => failure

/-- Reads an operator as a node. -/
def operator : Parse Tree :=
  inField "operator" punctuation

/-- Reads an expression with unary operators and casts. -/
def unary (g : Grammar) : Parse Tree := do
  let first ← textAhead 0
  if ["+", "-", "!", "~"].contains first then
    node "unary_expression" do
      let operator ← operator
      return [operator, ← inField "operand" (g .unary)]
  else if first == "++" || first == "--" then
    node "update_expression" do
      let _ ← next
      one (g .unary)
  else if first == "switch" then switchExpression g
  else if first == "(" && (← atCast g) then
    node "cast_expression" do
      let types ← castTypes g
      let value ← inField "value" (if ← atLambda then lambda g else g .unary)
      return types ++ [value]
  else selected g

/-! ### Binary operators -/

/-- How tightly a binary operator binds. -/
def precedence? : String → Option Nat
  | "||" => some 1
  | "&&" => some 2
  | "|" => some 3
  | "^" => some 4
  | "&" => some 5
  | "==" | "!=" => some 6
  | "<" | ">" | "<=" | ">=" | "instanceof" => some 7
  | "<<" | ">>" | ">>>" => some 8
  | "+" | "-" => some 9
  | "*" | "/" | "%" => some 10
  | _ => none

/-- The operator at the front of the tokens: adjacent closing angle brackets are joined. -/
def operatorAt : List Token → Option Token
  | [] => none
  | t :: rest =>
    if t.text ≠ ">" then some t
    else
      match rest with
      | u :: rest =>
        if u.start ≠ t.stop || (u.text ≠ ">" && u.text ≠ ">=") then some t
        else if u.text == ">=" then some (joined t u)
        else
          match rest with
          | v :: _ =>
            if v.start ≠ u.stop || (v.text ≠ ">" && v.text ≠ ">=") then some (joined t u)
            else some (joined (joined t u) v)
          | [] => some (joined t u)
      | [] => some t
where
  /-- Two tokens as one. -/
  joined (t u : Token) : Token :=
    { t with text := t.text ++ u.text, stop := u.stop }

/-- The operator that is next. -/
def operatorAhead : Parse (Option Token) := do
  return operatorAt (← get).rest

/-- Reads the tokens of an operator as a node. -/
def takeOperator (t : Token) : Parse Tree := do
  modify fun s => ⟨s.rest.dropWhile (·.start < t.stop), t.stop⟩
  return { type := t.text, start := t.start, stop := t.stop, named := false,
           field := some "operator" }

/-- Reads what follows `instanceof`. -/
def instanceTest (g : Grammar) (start : Nat) (left : Tree) : Parse Tree := do
  expect "instanceof"
  let _ ← modifiers?
  let type ← inField "right" (g .type)
  if ← isAt "(" then
    skipBrackets "(" ")"
    nodeFrom start "instanceof_expression" [asField "left" left]
  else
    let name ← if ← nameAhead 0 then one (inField "name" identifier) else pure []
    nodeFrom start "instanceof_expression" ([asField "left" left, type] ++ name)

/-- Reads the binary operators after an operand that bind at least as tightly as `level`.  `n`
bounds their number. -/
def binaryFrom (g : Grammar) (start : Nat) : (n : Nat) → (level : Nat) → Tree → Parse Tree
  | 0, _, left => return left
  | n + 1, level, left => do
    match ← operatorAhead with
    | none => return left
    | some t =>
      match precedence? t.text with
      | none => return left
      | some p =>
        if p < level then return left
        else if t.text == "instanceof" then binaryFrom g start n level (← instanceTest g start left)
        else
          let operator ← takeOperator t
          let inner ← mark
          let right ← binaryFrom g inner n (p + 1) (← unary g)
          let both ← nodeFrom start "binary_expression"
            [asField "left" left, operator, asField "right" right]
          binaryFrom g start n level both

/-- Reads an expression with binary operators. -/
def binary (g : Grammar) : Parse Tree := do
  let start ← mark
  binaryFrom g start (← get).rest.length 1 (← unary g)

/-! ### Expressions -/

/-- The operators that assign. -/
def assignmentOperators : List String :=
  ["=", "+=", "-=", "*=", "/=", "%=", "&=", "|=", "^=", "<<=", ">>=", ">>>="]

/-- Reads an expression that is no lambda. -/
def plainExpression (g : Grammar) : Parse Tree := do
  let start ← mark
  let first ← binary g
  match ← operatorAhead with
  | none => return first
  | some t =>
    if t.text == "?" then
      expect "?"
      let second ← inField "consequence" (g .expression)
      expect ":"
      let third ← inField "alternative" (g .expression)
      nodeFrom start "ternary_expression" [asField "condition" first, second, third]
    else if assignmentOperators.contains t.text then
      let operator ← takeOperator t
      let right ← inField "right" (g .expression)
      nodeFrom start "assignment_expression" [asField "left" first, operator, right]
    else return first

/-- Reads an expression. -/
def expression (g : Grammar) : Parse Tree := do
  if ← atLambda then lambda g else plainExpression g

end Parse

end TaintFlow.Java
