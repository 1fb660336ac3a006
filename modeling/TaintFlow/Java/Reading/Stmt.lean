import TaintFlow.Java.Reading.Expr

/-!
# Reading statements

A node is read as a statement by its form.  Blocks, loops, switches and the parts of a try
statement have scopes of their own.
-/

namespace TaintFlow.Java

open TaintFlow.Code TaintFlow.Types

/-- The forms of nodes that are read as statements in different ways. -/
inductive StmtForm where
  | comment
  | block
  | expression
  | declaration
  | ret
  | branch
  | loop (kind : Kind)
  | guarded
  | switch
  | synchronized
  | labeled
  /-- The declaration of a type inside a method, which is not read. -/
  | localType
  /-- Anything else; calls and assignments inside count. -/
  | other
  deriving DecidableEq, Repr

/-- The form of a node with the given type. -/
def StmtForm.ofType : String → StmtForm
  | "line_comment" => .comment
  | "block_comment" => .comment
  | "comment" => .comment
  | "block" => .block
  | "constructor_body" => .block
  | "expression_statement" => .expression
  | "local_variable_declaration" => .declaration
  | "return_statement" => .ret
  | "if_statement" => .branch
  | "while_statement" => .loop .whileLoop
  | "do_statement" => .loop .doLoop
  | "for_statement" => .loop .forLoop
  | "enhanced_for_statement" => .loop .forEachLoop
  | "try_statement" => .guarded
  | "try_with_resources_statement" => .guarded
  | "switch_expression" => .switch
  | "switch_statement" => .switch
  | "synchronized_statement" => .synchronized
  | "labeled_statement" => .labeled
  | "class_declaration" => .localType
  | "interface_declaration" => .localType
  | "enum_declaration" => .localType
  | "record_declaration" => .localType
  | "annotation_type_declaration" => .localType
  | "local_class_declaration" => .localType
  | _ => .other

section

variable (S : Source) (t : Tree) (read : Readings t)

/-- Reads the content of a node as statements in a scope of their own. -/
def readBlock : Read Stmt := do
  let statements ← Read.inScope (t.content.mapM fun c => (read c).asStmt)
  return .block (S.position t) (statements.filterMap id)

/-- Declares a local variable after its value was read. -/
def readDeclarator (type : Option String) (d : Subtree t) : Read (Name × Option Expr) := do
  let value ← (read.under d).expr? (d.1.child? "value")
  let name ← Read.require ((d.1.child? "name").map (·.1))
  let b ← declare S (S.text name) .localVar (type <|> staticTypeOpt value) name (-1)
  modify (·.bind b value)
  return (⟨S.origin name, S.text name, some b⟩, value)

/-- Reads a declaration of local variables. -/
def readDeclaration : Read Stmt := do
  let type := (← get).resolveType (S.textOf (t.child? "type"))
  let fragments ← (t.childrenIn "declarator").mapM (readDeclarator S t read type)
  return .declaration (S.position t) type fragments

/-- Declares a variable and gives it a value. -/
def bindVariable (type : Option String) (name : Tree) (value : Option Expr) : Read Unit := do
  let b ← declare S (S.text name) .localVar type name (-1)
  modify (·.bind b value)

/-- Reads what stands before the body of a loop.  The variable of an enhanced for statement takes
its value from what is iterated over. -/
def readLoopHead (kind : Kind) : Read Unit := do
  match kind with
  | .forEachLoop =>
    let value ← read.expr? (t.child? "value")
    match t.child? "name" with
    | none => pure ()
    | some name =>
      let type := (← get).resolveType (S.textOf (t.child? "type"))
      bindVariable S type name.1 value
  | .forLoop =>
    (t.childrenIn "init").forM fun c => do
      if c.1.type == "local_variable_declaration" then
        let _ ← readDeclaration S c.1 (read.under c)
      else
        let _ ← (read c).asExpr
    let _ ← read.expr? (t.child? "condition")
    let _ ← read.exprs (t.childrenIn "update")
  | _ =>
    let _ ← read.expr? (t.child? "condition")

/-- Reads a loop. -/
def readLoop (kind : Kind) : Read Stmt := do
  let body ← Read.inScope do
    readLoopHead S t read kind
    read.stmt? (t.child? "body")
  return .loop (S.position t) kind body

/-- Reads a resource of a try statement. -/
def readResource (c : Subtree t) : Read Unit := do
  match c.1.child? "name" with
  | none =>
    let _ ← (read c).asExpr
  | some name =>
    let value ← (read.under c).expr? (c.1.child? "value")
    let type := (← get).resolveType (S.textOf (c.1.child? "type"))
    bindVariable S type name.1 value

/-- The first of the types that a catch clause lists. -/
def firstCaught (text : String) : String :=
  String.ofList (text.toList.takeWhile (· ≠ '|'))

/-- Reads a catch clause. -/
def readCatch (c : Subtree t) : Read (Option Stmt) :=
  Read.inScope do
    match c.1.contentOf? ["catch_formal_parameter"] with
    | none => pure ()
    | some p =>
      match p.1.child? "name" with
      | none => pure ()
      | some name =>
        let caught := S.textOf (p.1.contentOf? ["catch_type"])
        let type := (← get).resolveType (firstCaught caught)
        let _ ← declare S (S.text name.1) .localVar type name.1 (-1)
    (read.under c).block? (c.1.child? "body")

/-- Reads the catch and finally clauses of a try statement, given those read so far. -/
def readClauses : List (Subtree t) → List Stmt → Option Stmt → Read (List Stmt × Option Stmt)
  | [], handlers, finalizer => return (handlers, finalizer)
  | c :: rest, handlers, finalizer => do
    if c.1.type == "catch_clause" then
      let handler ← readCatch S t read c
      readClauses rest (handlers ++ handler.toList) finalizer
    else if c.1.type == "finally_clause" then
      let block ← (read.under c).block? (c.1.contentOf? ["block"])
      readClauses rest handlers (block <|> finalizer)
    else readClauses rest handlers finalizer

/-- Reads a try statement. -/
def readTry : Read Stmt := do
  let body ← Read.inScope do
    match t.child? "resources" with
    | none => pure ()
    | some rs => (rs.1.content.map rs.trans).forM (readResource S t read)
    read.block? (t.child? "body")
  let (handlers, finalizer) ← readClauses S t read t.content [] none
  return .guarded (S.position t) body handlers finalizer

/-- Reads one item of a group of a switch. -/
def readSwitchItem (group : Tree) (c : Subtree t) : Read (Option Stmt) := do
  if c.1.type == "switch_label" then return none
  else if group.type == "switch_rule"
      && c.1.type ∉ ["expression_statement", "throw_statement", "block"] then
    let _ ← (read c).asExpr
    return none
  else (read c).asStmt

/-- Reads a switch. -/
def readSwitch : Read Stmt := do
  let _ ← read.expr? (t.child? "condition")
  let statements ← Read.inScope do
    match t.child? "body" with
    | none => return []
    | some body =>
      let groups ← (body.1.content.map body.trans).mapM fun g =>
        (g.1.content.map g.trans).mapM (readSwitchItem t read g.1)
      return groups.flatMap (·.filterMap id)
  return .switch (S.position t) statements

/-- Reads a node as a statement. -/
def readStmt : Read (Option Stmt) := do
  let p := S.position t
  match StmtForm.ofType t.type with
  | .comment => return none
  | .block => return some (← readBlock S t read)
  | .expression => return some (.expression p (← read.expr? t.firstContent?))
  | .declaration => return some (← readDeclaration S t read)
  | .ret => return some (.ret p (← read.expr? t.firstContent?))
  | .branch =>
    let condition ← read.expr? (t.child? "condition")
    let first ← read.stmt? (t.child? "consequence")
    let second ← read.stmt? (t.child? "alternative")
    return some (.branch p condition first second)
  | .loop kind => return some (← readLoop S t read kind)
  | .guarded => return some (← readTry S t read)
  | .switch => return some (← readSwitch S t read)
  | .synchronized =>
    match t.firstContent? with
    | some lock =>
      if lock.1.type == "parenthesized_expression" then
        let _ ← (read lock).asExpr
    | none => pure ()
    read.block? (t.child? "body")
  | .labeled =>
    match t.content.getLast? with
    | some last => (read last).asStmt
    | none => Read.fault .emptyLabel
  | .localType => return some (.other p t.type)
  | .other =>
    let inner := t.content.filter fun c => !c.1.isClosed && c.1.type ≠ "identifier"
    let _ ← read.exprs inner
    return some (.other p t.type)

end

/-- The readings of a node. -/
def reading (S : Source) (t : Tree) : Reading :=
  let inner : Readings t := fun c => reading S c.1
  ⟨readExpr S t inner, readStmt S t inner, readBlock S t inner⟩
termination_by t.size
decreasing_by exact c.2

end TaintFlow.Java
