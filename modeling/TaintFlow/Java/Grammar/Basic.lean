import TaintFlow.Java.Token
import TaintFlow.Java.Tree

/-!
# Parsing

A parser reads tokens from the front of a list and builds nodes of a parse tree.  The constructs of
Java that contain each other are the nonterminals; the rules under this folder take a parser for
every nonterminal as an argument and are not recursive themselves.
-/

namespace TaintFlow.Java

/-- What is left to read. -/
structure Cursor where
  rest : List Token
  /-- Offset of the byte after the last token read. -/
  stop : Nat := 0

/-- A parser; it fails without a message. -/
abbrev Parse := StateT Cursor Option

/-- The constructs that contain each other. -/
inductive Nonterminal where
  | expression
  /-- An expression that is no lambda, as in the label of a switch. -/
  | plainExpression
  | unary
  | type
  | statement
  | block
  | classBody
  | arrayInitializer
  deriving DecidableEq, Repr

/-- A parser for every nonterminal. -/
abbrev Grammar := Nonterminal → Parse Tree

namespace Parse

/-! ### Tokens -/

/-- The token after the next `n` ones. -/
def ahead? (n : Nat) : Parse (Option Token) := do
  return (← get).rest[n]?

/-- The text of the token after the next `n` ones. -/
def textAhead (n : Nat) : Parse String := do
  return ((← ahead? n).map (·.text)).getD ""

/-- Whether the next token has one of the texts. -/
def atAny (texts : List String) : Parse Bool := do
  return texts.contains (← textAhead 0)

/-- Whether the next token has the text. -/
def isAt (text : String) : Parse Bool :=
  atAny [text]

/-- Whether the next two tokens have the texts. -/
def isAtPair (first second : String) : Parse Bool := do
  return (← textAhead 0) == first && (← textAhead 1) == second

/-- Reads a token. -/
def next : Parse Token := do
  match (← get).rest with
  | [] => failure
  | t :: rest =>
    set (⟨rest, t.stop⟩ : Cursor)
    return t

/-- Reads a token with the text. -/
def expect (text : String) : Parse Unit := do
  let t ← next
  if t.text ≠ text then failure

/-- Where the next token starts. -/
def mark : Parse Nat := do
  match ← ahead? 0 with
  | some t => return t.start
  | none => return (← get).stop

/-! ### Combinations -/

/-- Whether a parser would succeed here. -/
def wouldRead {α : Type} (p : Parse α) : Parse Bool := fun s =>
  some ((p s).isSome, s)

/-- Reads items until the next token has one of the texts.  `n` bounds the number of items. -/
def untilAnyFrom {α : Type} (texts : List String) (p : Parse α) : (n : Nat) → Parse (List α)
  | 0 => return []
  | n + 1 => do
    if ← atAny texts then return []
    let a ← p
    return a :: (← untilAnyFrom texts p n)

/-- Reads items until the next token has one of the texts. -/
def untilAny {α : Type} (texts : List String) (p : Parse α) : Parse (List α) := do
  untilAnyFrom texts p ((← get).rest.length + 1)

/-- Reads items as long as a condition holds.  `n` bounds the number of items. -/
def whileFrom {α : Type} (condition : Parse Bool) (p : Parse α) : (n : Nat) → Parse (List α)
  | 0 => return []
  | n + 1 => do
    if ← condition then
      let a ← p
      return a :: (← whileFrom condition p n)
    return []

/-- Reads items as long as a condition holds. -/
def whileAt {α : Type} (condition : Parse Bool) (p : Parse α) : Parse (List α) := do
  whileFrom condition p (← get).rest.length

/-- Reads one item or more with the text between them. -/
def separated {α : Type} (separator : String) (p : Parse α) : Parse (List α) := do
  let a ← p
  let more ← whileAt (isAt separator) (do expect separator; p)
  return a :: more

/-- Reads items with commas between them, up to a closing token. -/
def commaList {α : Type} (close : String) (p : Parse α) : Parse (List α) := do
  if ← isAt close then return []
  separated "," p

/-- Reads with a parser if the next token has the text. -/
def ifAt (text : String) (p : Parse (List Tree)) : Parse (List Tree) := do
  if ← isAt text then p else return []

/-! ### Nodes -/

/-- A node from an offset to the last token read. -/
def nodeFrom (start : Nat) (type : String) (children : List Tree) : Parse Tree := do
  return { type, start, stop := (← get).stop, children }

/-- A node around the children that a parser reads. -/
def node (type : String) (children : Parse (List Tree)) : Parse Tree := do
  let start ← mark
  nodeFrom start type (← children)

/-- The next token as a node. -/
def leaf (type : String) : Parse Tree := do
  let t ← next
  return { type, start := t.start, stop := t.stop }

/-- The next token as a punctuation node. -/
def punctuation : Parse Tree := do
  let t ← next
  return { type := t.text, start := t.start, stop := t.stop, named := false }

/-- Gives a node a role. -/
def inField (field : String) (p : Parse Tree) : Parse Tree := do
  return { ← p with field := some field }

/-- A list of one node. -/
def one (p : Parse Tree) : Parse (List Tree) := do
  return [← p]

end Parse

/-! ### Words -/

/-- Words that are no names. -/
def reservedWords : List String :=
  ["abstract", "assert", "boolean", "break", "byte", "case", "catch", "char", "class", "const",
   "continue", "default", "do", "double", "else", "enum", "extends", "final", "finally", "float",
   "for", "goto", "if", "implements", "import", "instanceof", "int", "interface", "long", "native",
   "new", "package", "private", "protected", "public", "return", "short", "static", "strictfp",
   "super", "switch", "synchronized", "this", "throw", "throws", "transient", "try", "void",
   "volatile", "while", "true", "false", "null"]

/-- Whether a token is a name. -/
def Token.isName (t : Token) : Bool :=
  t.kind = .word && !reservedWords.contains t.text

namespace Parse

/-- Whether the token after the next `n` ones is a name. -/
def nameAhead (n : Nat) : Parse Bool := do
  return (← ahead? n).any Token.isName

/-- Reads a name as a node. -/
def name (type : String) : Parse Tree := do
  if ← nameAhead 0 then leaf type else failure

/-- Reads a name. -/
def identifier : Parse Tree :=
  name "identifier"

/-- Reads a dotted name. -/
def dottedName : Parse Tree := do
  let start ← mark
  let first ← identifier
  let more := (do return (← isAt ".") && (← nameAhead 1))
  let others ← whileAt more (do expect "."; return (← identifier, (← get).stop))
  return others.foldl (extend start) first
where
  /-- The dotted name with one more component. -/
  extend (start : Nat) (scope : Tree) (part : Tree × Nat) : Tree :=
    { type := "scoped_identifier", start, stop := part.2,
      children := [{ scope with field := some "scope" }, { part.1 with field := some "name" }] }

/-- The tokens after the bracket that closes `depth` open ones. -/
def closing (opening close : String) : (depth : Nat) → List Token → Option (List Token)
  | _, [] => none
  | 0, _ => none
  | depth + 1, t :: rest =>
    if t.text == opening then closing opening close (depth + 2) rest
    else if t.text == close then
      match depth with
      | 0 => some rest
      | _ + 1 => closing opening close depth rest
    else closing opening close (depth + 1) rest
termination_by _ ts => ts.length

/-- Skips a bracket and all up to the one that closes it. -/
def skipBrackets (opening close : String) : Parse Unit := do
  expect opening
  match closing opening close 1 (← get).rest with
  | none => failure
  | some rest =>
    let inside := (← get).rest.length - rest.length
    let stop := ((← get).rest.take inside).getLast?.map (·.stop)
    set (⟨rest, stop.getD (← get).stop⟩ : Cursor)

end Parse

end TaintFlow.Java
