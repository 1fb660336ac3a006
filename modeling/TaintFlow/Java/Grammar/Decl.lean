import TaintFlow.Java.Grammar.Stmt

/-!
# Declarations

Types with their members, and the units that hold them.
-/

namespace TaintFlow.Java

namespace Parse

/-! ### Types -/

/-- Whether a word is next that begins the declaration of a type after its modifiers.  The word
for records is also a name. -/
def atTypeWord : Parse Bool := do
  let first ← textAhead 0
  if ["class", "interface", "enum"].contains first then return true
  else if first == "@" then return (← textAhead 1) == "interface"
  else if first == "record" then return (← nameAhead 1) && ["(", "<"].contains (← textAhead 2)
  else return false

/-- Reads a word and a list of types, if the word is next. -/
def typeList? (g : Grammar) (word field type : String) : Parse (List Tree) :=
  ifAt word <| one <| inField field <| node type do
    expect word
    separated "," (g .type)

/-- Reads the superclass, if there is one. -/
def superclass? (g : Grammar) : Parse (List Tree) :=
  ifAt "extends" <| one <| inField "superclass" <| node "superclass" do
    expect "extends"
    one (g .type)

/-- The kinds of bodies with members. -/
inductive BodyKind where
  | ofClass
  | ofInterface
  | ofAnnotationType
  deriving DecidableEq, Repr

/-- The node type of a body. -/
def BodyKind.nodeType : BodyKind → String
  | .ofClass => "class_body"
  | .ofInterface => "interface_body"
  | .ofAnnotationType => "annotation_type_body"

section

variable (g : Grammar)
variable (body : BodyKind → Parse Tree) (enumBody : Parse Tree)

/-- Reads the declaration of a type after its modifiers. -/
def typeDeclaration (start : Nat) (modifiers : List Tree) : Parse Tree := do
  match ← textAhead 0 with
  | "class" =>
    expect "class"
    let name ← inField "name" identifier
    let parameters ← typeParameters? g
    let superclass ← superclass? g
    let interfaces ← typeList? g "implements" "interfaces" "super_interfaces"
    let permits ← typeList? g "permits" "permits" "permits"
    let members ← inField "body" (body .ofClass)
    nodeFrom start "class_declaration"
      (modifiers ++ [name] ++ parameters ++ superclass ++ interfaces ++ permits ++ [members])
  | "interface" =>
    expect "interface"
    let name ← inField "name" identifier
    let parameters ← typeParameters? g
    let parents ← typeList? g "extends" "extends" "extends_interfaces"
    let permits ← typeList? g "permits" "permits" "permits"
    let members ← inField "body" (body .ofInterface)
    nodeFrom start "interface_declaration"
      (modifiers ++ [name] ++ parameters ++ parents ++ permits ++ [members])
  | "enum" =>
    expect "enum"
    let name ← inField "name" identifier
    let interfaces ← typeList? g "implements" "interfaces" "super_interfaces"
    let members ← inField "body" enumBody
    nodeFrom start "enum_declaration" (modifiers ++ [name] ++ interfaces ++ [members])
  | "record" =>
    expect "record"
    let name ← inField "name" identifier
    let parameters ← typeParameters? g
    let fields ← inField "parameters" (formalParameters g)
    let interfaces ← typeList? g "implements" "interfaces" "super_interfaces"
    let members ← inField "body" (body .ofClass)
    nodeFrom start "record_declaration"
      (modifiers ++ [name] ++ parameters ++ [fields] ++ interfaces ++ [members])
  | _ =>
    expect "@"
    expect "interface"
    let name ← inField "name" identifier
    let members ← inField "body" (body .ofAnnotationType)
    nodeFrom start "annotation_type_declaration" (modifiers ++ [name] ++ [members])

/-! ### Methods -/

/-- Reads the call of another constructor that a constructor begins with. -/
def constructorCall : Parse Tree :=
  node "explicit_constructor_invocation" do
    if (← isAt "<") || (← atAny ["this", "super"]) && (← textAhead 1) == "(" then
      let types ← ifAt "<" (one (inField "type_arguments" (typeArguments g)))
      rest types
    else
      let outer ← inField "object" (selected g)
      expect "."
      let types ← ifAt "<" (one (inField "type_arguments" (typeArguments g)))
      rest (outer :: types)
where
  /-- Reads the constructor and its arguments. -/
  rest (before : List Tree) : Parse (List Tree) := do
    if !(← atAny ["this", "super"]) then failure
    let constructor ← inField "constructor" (leaf (← textAhead 0))
    let arguments ← inField "arguments" (argumentList g)
    expect ";"
    return before ++ [constructor, arguments]

/-- Reads the body of a constructor. -/
def constructorBody : Parse Tree :=
  node "constructor_body" do
    expect "\x7b"
    let call ← if ← wouldRead (constructorCall g) then one (constructorCall g) else pure []
    let statements ← untilAny ["\x7d"] (g .statement)
    expect "\x7d"
    return call ++ statements

/-- Reads the exceptions of a method, if any are declared. -/
def throws? : Parse (List Tree) :=
  ifAt "throws" <| one <| node "throws" do
    expect "throws"
    separated "," (g .type)

/-- Reads a method after its type; the type is among the nodes `before`. -/
def methodRest (start : Nat) (before : List Tree) : Parse Tree := do
  let name ← inField "name" identifier
  let parameters ← inField "parameters" (formalParameters g)
  let dimensions ← nameDimensions?
  let throws ← throws? g
  let body ← if ← isAt ";" then
      expect ";"
      pure []
    else one (inField "body" (g .block))
  nodeFrom start "method_declaration"
    (before ++ [name, parameters] ++ dimensions ++ throws ++ body)

/-- Reads an element of an annotation type after its type. -/
def elementRest (start : Nat) (before : List Tree) : Parse Tree := do
  let name ← inField "name" identifier
  expect "("
  expect ")"
  let dimensions ← nameDimensions?
  let _ ← untilAny [";"] skipToken
  expect ";"
  nodeFrom start "annotation_type_element_declaration" (before ++ [name] ++ dimensions)
where
  /-- Skips a token of the default value. -/
  skipToken : Parse Unit := do
    if ← isAt "\x7b" then skipBrackets "\x7b" "\x7d"
    else if ← isAt "(" then skipBrackets "(" ")"
    else
      let _ ← next

/-- Reads a constructor after its modifiers and type parameters. -/
def constructorRest (start : Nat) (before : List Tree) : Parse Tree := do
  let name ← inField "name" identifier
  if ← isAt "\x7b" then
    let body ← inField "body" (g .block)
    nodeFrom start "compact_constructor_declaration" (before ++ [name, body])
  else
    let parameters ← inField "parameters" (formalParameters g)
    let throws ← throws? g
    let body ← inField "body" (constructorBody g)
    nodeFrom start "constructor_declaration" (before ++ [name, parameters] ++ throws ++ [body])

/-! ### Members -/

/-- Reads a member of a type. -/
def classMember (kind : BodyKind) : Parse Tree := do
  let start ← mark
  if ← isAt ";" then punctuation
  else if ← isAt "\x7b" then g .block
  else if ← isAtPair "static" "\x7b" then
    expect "static"
    let inner ← g .block
    nodeFrom start "static_initializer" [inner]
  else
    let modifiers ← modifiers?
    if ← atTypeWord then typeDeclaration g body enumBody start modifiers
    else
      let parameters ← typeParameters? g
      let annotations ← annotations?
      let before := modifiers ++ parameters ++ annotations
      if (← nameAhead 0) && ["(", "\x7b"].contains (← textAhead 1) then
        constructorRest g start before
      else
        let type ← inField "type" (g .type)
        if (← textAhead 1) == "(" then
          if kind = .ofAnnotationType then elementRest start (before ++ [type])
          else methodRest g start (before ++ [type])
        else
          let declarators ← separated "," (declarator g)
          expect ";"
          let node := if kind = .ofClass then "field_declaration" else "constant_declaration"
          nodeFrom start node (before ++ type :: declarators)

end

/-- Reads the constants of an enumeration. -/
def enumConstants (g : Grammar) : Parse (List Tree) :=
  untilAny [";", "\x7d"] do
    let constant ← node "enum_constant" do
      let modifiers ← modifiers?
      let name ← inField "name" identifier
      let arguments ← ifAt "(" (one (inField "arguments" (argumentList g)))
      let body ← ifAt "\x7b" (one (inField "body" (g .classBody)))
      return modifiers ++ [name] ++ arguments ++ body
    if !(← atAny [";", "\x7d"]) then expect ","
    return constant

/-- The bodies of types, with types inside types to the depth `n`. -/
def bodies (g : Grammar) : (n : Nat) → (BodyKind → Parse Tree) × Parse Tree
  | 0 => (fun _ => failure, failure)
  | n + 1 =>
    let member (kind : BodyKind) : Parse Tree := do
      let inner := bodies g n
      classMember g inner.1 inner.2 kind
    let members (kind : BodyKind) : Parse Tree :=
      node kind.nodeType do
        expect "\x7b"
        let members ← untilAny ["\x7d"] (member kind)
        expect "\x7d"
        return members
    let constants : Parse Tree :=
      node "enum_body" do
        expect "\x7b"
        let constants ← enumConstants g
        let more ← ifAt ";" <| one <| node "enum_body_declarations" do
          expect ";"
          untilAny ["\x7d"] (member .ofClass)
        expect "\x7d"
        return constants ++ more
    (members, constants)

/-- Reads the body of a class. -/
def classBody (g : Grammar) : Parse Tree := do
  (bodies g (← get).rest.length).1 .ofClass

/-- Reads the declaration of a type after its modifiers. -/
def anyType (g : Grammar) (start : Nat) (modifiers : List Tree) : Parse Tree := do
  let inner := bodies g (← get).rest.length
  typeDeclaration g inner.1 inner.2 start modifiers

/-- Reads a statement. -/
def statement (g : Grammar) : Parse Tree := do
  let start ← mark
  let modifiers ← modifiers?
  if ← atTypeWord then anyType g start modifiers
  else if modifiers.isEmpty then plainStatement g
  else localVariables g start modifiers

/-! ### Units -/

/-- Reads a package declaration. -/
def packageDeclaration : Parse Tree :=
  node "package_declaration" do
    let annotations ← annotations?
    expect "package"
    let name ← dottedName
    expect ";"
    return annotations ++ [name]

/-- Reads an import. -/
def importDeclaration : Parse Tree :=
  node "import_declaration" do
    expect "import"
    let static ← ifAt "static" (one punctuation)
    let name ← dottedName
    let all ← ifAt "." do
      expect "."
      if ← isAt "*" then one (leaf "asterisk") else failure
    expect ";"
    return static ++ [name] ++ all

/-- Reads a module declaration. -/
def moduleDeclaration : Parse Tree :=
  node "module_declaration" do
    let annotations ← annotations?
    let _ ← ifAt "open" (one (leaf "open"))
    expect "module"
    let name ← inField "name" dottedName
    skipBrackets "\x7b" "\x7d"
    return annotations ++ [name]

/-- Reads a method outside of a type. -/
def freeMethod (g : Grammar) : Parse Tree := do
  let start ← mark
  let modifiers ← modifiers?
  let parameters ← typeParameters? g
  let annotations ← annotations?
  let type ← inField "type" (g .type)
  methodRest g start (modifiers ++ parameters ++ annotations ++ [type])

/-- Whether a method outside of a type is next. -/
def atFreeMethod (g : Grammar) : Parse Bool :=
  wouldRead do
    let _ ← modifiers?
    if ← atTypeWord then failure
    let _ ← typeParameters? g
    let _ ← g .type
    let _ ← identifier
    expect "("

/-- Reads a part of a unit. -/
def unitItem (g : Grammar) : Parse Tree := do
  if ← isAt "import" then importDeclaration
  else if ← wouldRead (do let _ ← annotations?; expect "package") then packageDeclaration
  else if ← wouldRead atModule then moduleDeclaration
  else if ← atFreeMethod g then freeMethod g
  else g .statement
where
  /-- Reads the words before the name of a module, and the name. -/
  atModule : Parse Unit := do
    let _ ← annotations?
    let _ ← ifAt "open" (one (leaf "open"))
    expect "module"
    let _ ← dottedName
    expect "\x7b"

end Parse

open Parse

/-- The grammar of Java with constructs inside each other to the depth `n`. -/
def grammar : (n : Nat) → Grammar
  | 0, _ => failure
  | n + 1, .expression => expression (grammar n)
  | n + 1, .plainExpression => plainExpression (grammar n)
  | n + 1, .unary => unary (grammar n)
  | n + 1, .type => type (grammar n)
  | n + 1, .statement => statement (grammar n)
  | n + 1, .block => block (grammar n)
  | n + 1, .classBody => classBody (grammar n)
  | n + 1, .arrayInitializer => arrayInitializer (grammar n)

/-- Reads items to the end of the input.  `n` bounds their number. -/
def unitItems (g : Grammar) : (n : Nat) → Parse (List Tree)
  | 0 => return []
  | n + 1 => do
    if (← get).rest.isEmpty then return []
    let item ← unitItem g
    return item :: (← unitItems g n)

/-- The parse tree of a source text; none if the text is no Java.  Of two constructs that begin with
the same token at most one is a statement and one a block, so twice the number of tokens bounds the
depth. -/
def treeOfText? (text : String) : Option Tree :=
  let tokens := tokens text
  let depth := 2 * tokens.length + 2
  match (unitItems (grammar depth) (tokens.length + 1)).run ⟨tokens, 0⟩ with
  | some (children, s) => some { type := "program", start := 0, stop := s.stop, children }
  | none => none

end TaintFlow.Java
