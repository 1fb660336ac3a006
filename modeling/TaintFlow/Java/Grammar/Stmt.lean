import TaintFlow.Java.Grammar.Expr

/-!
# Statements

The first tokens of a statement tell its form; a declaration of variables is told from an
expression by the name that follows its type.
-/

namespace TaintFlow.Java

namespace Parse

/-! ### Variables -/

/-- Reads a declarator: a name, perhaps with dimensions and a value. -/
def declarator (g : Grammar) : Parse Tree :=
  inField "declarator" <| node "variable_declarator" do
    let name ← inField "name" identifier
    let dimensions ← nameDimensions?
    let value ← ifAt "=" do
      expect "="
      one (inField "value" (g (if ← isAt "\x7b" then .arrayInitializer else .expression)))
    return [name] ++ dimensions ++ value

/-- Reads the type and the declarators of variables, with the semicolon. -/
def typedVariables (g : Grammar) : Parse (List Tree) := do
  let type ← inField "type" (g .type)
  let declarators ← separated "," (declarator g)
  expect ";"
  return type :: declarators

/-- Whether a type and a name are next. -/
def atVariable (g : Grammar) : Parse Bool :=
  wouldRead do
    let _ ← g .type
    identifier

/-! ### Statements with a head -/

/-- Reads a word and an expression or a name up to the semicolon. -/
def jump (word type : String) (inner : Parse Tree) : Parse Tree :=
  node type do
    expect word
    let parts ← if ← isAt ";" then pure [] else one inner
    expect ";"
    return parts

/-- Reads an assertion. -/
def assertion (g : Grammar) : Parse Tree :=
  node "assert_statement" do
    expect "assert"
    let parts ← separated ":" (g .expression)
    expect ";"
    return parts

/-- Reads a conditional statement. -/
def branch (g : Grammar) : Parse Tree :=
  node "if_statement" do
    expect "if"
    let condition ← inField "condition" (parenthesized g)
    let first ← inField "consequence" (g .statement)
    let second ← ifAt "else" do
      expect "else"
      one (inField "alternative" (g .statement))
    return [condition, first] ++ second

/-- Reads a while statement. -/
def whileLoop (g : Grammar) : Parse Tree :=
  node "while_statement" do
    expect "while"
    let condition ← inField "condition" (parenthesized g)
    let body ← inField "body" (g .statement)
    return [condition, body]

/-- Reads a do statement. -/
def doLoop (g : Grammar) : Parse Tree :=
  node "do_statement" do
    expect "do"
    let body ← inField "body" (g .statement)
    expect "while"
    let condition ← inField "condition" (parenthesized g)
    expect ";"
    return [body, condition]

/-- Reads the variable of an enhanced for statement, with the colon after it. -/
def loopVariable (g : Grammar) : Parse (List Tree) := do
  let modifiers ← modifiers?
  let type ← inField "type" (g .type)
  let name ← inField "name" identifier
  let dimensions ← nameDimensions?
  expect ":"
  return modifiers ++ [type, name] ++ dimensions

/-- Reads what a for statement starts with, with the semicolon after it. -/
def loopStart (g : Grammar) : Parse (List Tree) := do
  let start ← mark
  let modifiers ← modifiers?
  if !modifiers.isEmpty || (← atVariable g) then
    let parts ← typedVariables g
    one (inField "init" (nodeFrom start "local_variable_declaration" (modifiers ++ parts)))
  else
    let starts ← commaList ";" (inField "init" (g .expression))
    expect ";"
    return starts

/-- Reads a for statement of either kind. -/
def forLoop (g : Grammar) : Parse Tree := do
  let start ← mark
  expect "for"
  expect "("
  if ← wouldRead (loopVariable g) then
    let head ← loopVariable g
    let value ← inField "value" (g .expression)
    expect ")"
    let body ← inField "body" (g .statement)
    nodeFrom start "enhanced_for_statement" (head ++ [value, body])
  else
    let starts ← loopStart g
    let condition ← if ← isAt ";" then pure [] else one (inField "condition" (g .expression))
    expect ";"
    let updates ← commaList ")" (inField "update" (g .expression))
    expect ")"
    let body ← inField "body" (g .statement)
    nodeFrom start "for_statement" (starts ++ condition ++ updates ++ [body])

/-- Reads a synchronized statement. -/
def synchronized (g : Grammar) : Parse Tree :=
  node "synchronized_statement" do
    expect "synchronized"
    let lock ← parenthesized g
    let body ← inField "body" (g .block)
    return [lock, body]

/-! ### Try statements -/

/-- Reads a resource: a variable with a value, or an expression. -/
def resource (g : Grammar) : Parse Tree :=
  node "resource" do
    let modifiers ← modifiers?
    if !modifiers.isEmpty || (← atVariable g) then
      let type ← inField "type" (g .type)
      let name ← inField "name" identifier
      let dimensions ← nameDimensions?
      expect "="
      let value ← inField "value" (g .expression)
      return modifiers ++ [type, name] ++ dimensions ++ [value]
    else one (g .expression)

/-- Reads the resources of a try statement. -/
def resources (g : Grammar) : Parse Tree :=
  inField "resources" <| node "resource_specification" do
    expect "("
    let parts ← untilAny [")"] do
      let part ← resource g
      if !(← isAt ")") then expect ";"
      return part
    expect ")"
    return parts

/-- Reads a catch clause. -/
def catchClause (g : Grammar) : Parse Tree :=
  node "catch_clause" do
    expect "catch"
    expect "("
    let parameter ← node "catch_formal_parameter" do
      let modifiers ← modifiers?
      let types ← node "catch_type" (separated "|" (g .type))
      let name ← inField "name" identifier
      return modifiers ++ [types, name]
    expect ")"
    let body ← inField "body" (g .block)
    return [parameter, body]

/-- Reads a finally clause. -/
def finallyClause (g : Grammar) : Parse Tree :=
  node "finally_clause" do
    expect "finally"
    one (g .block)

/-- Reads a try statement. -/
def guarded (g : Grammar) : Parse Tree := do
  let start ← mark
  expect "try"
  let resources ← ifAt "(" (one (resources g))
  let body ← inField "body" (g .block)
  let clauses ← whileAt (isAt "catch") (catchClause g)
  let last ← ifAt "finally" (one (finallyClause g))
  let type := if resources.isEmpty then "try_statement" else "try_with_resources_statement"
  nodeFrom start type (resources ++ [body] ++ clauses ++ last)

/-! ### Statements -/

/-- Reads an expression up to a semicolon. -/
def expressionStatement (g : Grammar) : Parse Tree :=
  node "expression_statement" do
    let inner ← g .expression
    expect ";"
    return [inner]

/-- Reads a statement with a label. -/
def labeled (g : Grammar) : Parse Tree :=
  node "labeled_statement" do
    let label ← identifier
    expect ":"
    return [label, ← g .statement]

/-- Reads a declaration of local variables after its modifiers. -/
def localVariables (g : Grammar) (start : Nat) (modifiers : List Tree) : Parse Tree := do
  let parts ← typedVariables g
  nodeFrom start "local_variable_declaration" (modifiers ++ parts)

/-- Reads a block. -/
def block (g : Grammar) : Parse Tree :=
  node "block" do
    expect "\x7b"
    let statements ← untilAny ["\x7d"] (g .statement)
    expect "\x7d"
    return statements

/-- Reads a statement that is no declaration of a type. -/
def plainStatement (g : Grammar) : Parse Tree := do
  let start ← mark
  match ← textAhead 0 with
  | "\x7b" => g .block
  | ";" => punctuation
  | "if" => branch g
  | "while" => whileLoop g
  | "do" => doLoop g
  | "for" => forLoop g
  | "try" => guarded g
  | "switch" => switchExpression g
  | "synchronized" => synchronized g
  | "return" => jump "return" "return_statement" (g .expression)
  | "throw" => jump "throw" "throw_statement" (g .expression)
  | "yield" => jump "yield" "yield_statement" (g .expression)
  | "break" => jump "break" "break_statement" identifier
  | "continue" => jump "continue" "continue_statement" identifier
  | "assert" => assertion g
  | _ =>
    if (← nameAhead 0) && (← textAhead 1) == ":" then labeled g
    else if ← atVariable g then localVariables g start []
    else expressionStatement g

end Parse

end TaintFlow.Java
