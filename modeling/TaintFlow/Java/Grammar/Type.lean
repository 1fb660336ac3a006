import TaintFlow.Java.Grammar.Basic

/-!
# Types and modifiers

Types with their arguments and dimensions, and what stands before a declaration.
-/

namespace TaintFlow.Java

namespace Parse

/-! ### Modifiers and annotations -/

/-- Reads annotations. -/
def annotations? : Parse (List Tree) := do
  let isNext := (do return (← isAt "@") && (← textAhead 1) ≠ "interface")
  whileAt isNext do
    let start ← mark
    expect "@"
    let name ← inField "name" dottedName
    if ← isAt "(" then
      skipBrackets "(" ")"
      nodeFrom start "annotation" [name]
    else nodeFrom start "marker_annotation" [name]

/-- Words that modify a declaration. -/
def modifierWords : List String :=
  ["public", "protected", "private", "abstract", "static", "final", "strictfp", "default",
   "native", "transient", "volatile"]

/-- Words that can follow a modifier of a sealed hierarchy. -/
def sealedFollowers : List String :=
  modifierWords ++ ["class", "interface"]

/-- How many tokens the modifier at the front takes; none if there is none. -/
def modifierLength : Parse Nat := do
  let first ← textAhead 0
  let second ← textAhead 1
  if modifierWords.contains first then
    return if first == "static" && second == "\x7b" then 0 else 1
  else if first == "synchronized" then return if second == "(" then 0 else 1
  else if first == "sealed" then return if sealedFollowers.contains second then 1 else 0
  else if first == "non" && second == "-" && (← textAhead 2) == "sealed" then return 3
  else return 0

/-- Reads the modifiers of a declaration, if there are any. -/
def modifiers? : Parse (List Tree) := do
  let start ← mark
  let before := (← get).rest.length
  let _ ← whileAt isModifier do
    match ← modifierLength with
    | 0 => let _ ← annotations?
    | 1 => let _ ← next
    | _ =>
      let _ ← next
      let _ ← next
      let _ ← next
  if (← get).rest.length = before then return []
  return [← nodeFrom start "modifiers" []]
where
  /-- Whether a modifier or an annotation is next. -/
  isModifier : Parse Bool := do
    return (← modifierLength) ≠ 0 || ((← isAt "@") && (← textAhead 1) ≠ "interface")

/-! ### Types -/

/-- Node types of the primitive types. -/
def primitiveNode? : String → Option String
  | "byte" | "short" | "int" | "long" | "char" => some "integral_type"
  | "float" | "double" => some "floating_point_type"
  | "boolean" => some "boolean_type"
  | "void" => some "void_type"
  | _ => none

/-- Reads type arguments. -/
def typeArguments (g : Grammar) : Parse Tree :=
  node "type_arguments" do
    expect "<"
    let arguments ← commaList ">" (argument g)
    expect ">"
    return arguments
where
  /-- Reads a type or a wildcard. -/
  argument (g : Grammar) : Parse Tree := do
    let start ← mark
    let annotations ← annotations?
    if ← isAt "?" then
      expect "?"
      let bound ← if ← atAny ["extends", "super"] then
          let _ ← next
          one (g .type)
        else pure []
      nodeFrom start "wildcard" (annotations ++ bound)
    else g .type

/-- Reads the type arguments of a type, if there are any. -/
def withArguments (g : Grammar) (start : Nat) (type : Tree) : Parse Tree := do
  if ← isAt "<" then
    let arguments ← typeArguments g
    nodeFrom start "generic_type" [type, arguments]
  else return type

/-- Reads the further components of a qualified type.  `n` bounds their number. -/
def qualifiedType (g : Grammar) (start : Nat) : (n : Nat) → Tree → Parse Tree
  | 0, type => return type
  | n + 1, type => do
    if (← isAt ".") && ((← nameAhead 1) || (← textAhead 1) == "@") then
      expect "."
      let annotations ← annotations?
      let part ← name "type_identifier"
      let longer ← nodeFrom start "scoped_type_identifier" (type :: annotations ++ [part])
      qualifiedType g start n (← withArguments g start longer)
    else return type

/-- Reads a type without dimensions. -/
def simpleType (g : Grammar) : Parse Tree := do
  let start ← mark
  match primitiveNode? (← textAhead 0) with
  | some type => leaf type
  | none =>
    let first ← name "type_identifier"
    qualifiedType g start (← get).rest.length (← withArguments g start first)

/-- Reads the dimensions of an array, if there are any. -/
def dimensions? : Parse (List Tree) := do
  if ← wouldRead dimension then
    one <| node "dimensions" do
      let _ ← whileAt (wouldRead dimension) dimension
      return []
  else return []
where
  /-- Reads a pair of brackets. -/
  dimension : Parse Unit := do
    let _ ← annotations?
    expect "["
    expect "]"

/-- Reads a type. -/
def type (g : Grammar) : Parse Tree := do
  let start ← mark
  let annotations ← annotations?
  let inner ← mark
  let element ← simpleType g
  let dimensions ← dimensions?
  let type ←
    if dimensions.isEmpty then pure element
    else
      let parts := { element with field := some "element" }
        :: dimensions.map fun d => { d with field := some "dimensions" }
      nodeFrom inner "array_type" parts
  if annotations.isEmpty then return type
  else nodeFrom start "annotated_type" (annotations ++ [type])

/-- Reads type parameters, if there are any. -/
def typeParameters? (g : Grammar) : Parse (List Tree) := do
  if ← isAt "<" then
    one <| inField "type_parameters" <| node "type_parameters" do
      expect "<"
      let parameters ← commaList ">" (parameter g)
      expect ">"
      return parameters
  else return []
where
  /-- Reads a type parameter with its bounds. -/
  parameter (g : Grammar) : Parse Tree :=
    node "type_parameter" do
      let annotations ← annotations?
      let name ← name "type_identifier"
      let bounds ← ifAt "extends" do
        expect "extends"
        separated "&" (g .type)
      return annotations ++ [name] ++ bounds

/-! ### Parameters -/

/-- Reads dimensions after a name, if there are any. -/
def nameDimensions? : Parse (List Tree) := do
  return (← dimensions?).map fun d => { d with field := some "dimensions" }

/-- Reads a parameter: of an ordinary kind, with any number of arguments, or the receiver. -/
def formalParameter (g : Grammar) : Parse Tree := do
  let start ← mark
  let modifiers ← modifiers?
  let type ← g .type
  let annotations ← annotations?
  if ← isAt "..." then
    expect "..."
    let declarator ← node "variable_declarator" (one (inField "name" identifier))
    nodeFrom start "spread_parameter" (modifiers ++ [type] ++ annotations ++ [declarator])
  else if (← isAt "this") || (← isAtPair (← textAhead 0) ".") then
    let _ ← whileAt (do return !(← isAt "this")) next
    expect "this"
    nodeFrom start "receiver_parameter" (modifiers ++ [type])
  else
    let name ← inField "name" identifier
    let dimensions ← nameDimensions?
    nodeFrom start "formal_parameter"
      (modifiers ++ [{ type with field := some "type" }, name] ++ dimensions)

/-- Reads the parameters of a method. -/
def formalParameters (g : Grammar) : Parse Tree :=
  node "formal_parameters" do
    expect "("
    let parameters ← commaList ")" (formalParameter g)
    expect ")"
    return parameters

end Parse

end TaintFlow.Java
