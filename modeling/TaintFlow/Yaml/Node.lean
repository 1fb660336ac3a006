import TaintFlow.Yaml.Token

/-!
# Nodes of YAML

The tokens of a document form a tree of scalars, sequences and mappings.  An alias stands for the
node with its anchor.
-/

namespace TaintFlow.Yaml

/-- A node of a document. -/
inductive Node where
  /-- A scalar; a plain one can stand for something else than its text. -/
  | scalar (text : String) (isPlain : Bool) (tag : Option String)
  | sequence (items : List Node) (tag : Option String)
  | mapping (entries : List (Node × Node)) (tag : Option String)
  deriving Repr

/-- What is left of the tokens, and the nodes with anchors. -/
structure Reading where
  rest : List Token
  anchors : List (String × Node) := []

/-- A reader of nodes; it fails on tokens that form no document. -/
abbrev Reader := StateT Reading Option

namespace Reader

/-- The next token. -/
def peek? : Reader (Option Token) := do
  return (← get).rest.head?

/-- Whether the next token is one of the given ones. -/
def atAny (ts : List Token) : Reader Bool := do
  match ← peek? with
  | some t => return ts.contains t
  | none => return false

/-- Passes a token. -/
def skip : Reader Unit :=
  modify fun s => { s with rest := s.rest.drop 1 }

/-- Passes the given token. -/
def expect (t : Token) : Reader Unit := do
  if ← atAny [t] then skip else failure

/-- The scalar that stands for nothing. -/
def nothing : Node := .scalar "" true none

/-- Reads anchors and tags before a node. -/
def properties : (n : Nat) → (anchor tag : Option String) → Reader (Option String × Option String)
  | 0, anchor, tag => return (anchor, tag)
  | n + 1, anchor, tag => do
    match ← peek?, anchor, tag with
    | some (.anchor a), none, _ =>
      skip
      properties n (some a) tag
    | some (.tag t), _, none =>
      skip
      properties n anchor (some t)
    | _, _, _ => return (anchor, tag)

section

variable (node : (inBlock mayDangle : Bool) → Reader Node)

/-- Reads a node, or nothing before one of the given tokens. -/
def nodeBefore (ts : List Token) (inBlock mayDangle : Bool) : Reader Node := do
  if ← atAny ts then return nothing
  node inBlock mayDangle

/-- Reads the entries of a block sequence.  `dangling` are those of one that is not indented. -/
def blockItems (dangling : Bool) : (n : Nat) → Reader (List Node)
  | 0 => return []
  | n + 1 => do
    if ← atAny [.blockEntry] then
      skip
      let after : List Token :=
        if dangling then [.blockEntry, .key, .value, .blockEnd] else [.blockEntry, .blockEnd]
      let item ← nodeBefore node after true false
      return item :: (← blockItems dangling n)
    return []

/-- Reads the entries of a block mapping. -/
def blockEntries : (n : Nat) → Reader (List (Node × Node))
  | 0 => return []
  | n + 1 => do
    if ← atAny [.key] then
      skip
      let after : List Token := [.key, .value, .blockEnd]
      let key ← nodeBefore node after true true
      let value ←
        if ← atAny [.value] then
          skip
          nodeBefore node after true true
        else pure nothing
      return (key, value) :: (← blockEntries n)
    return []

/-- Reads a key of a flow collection and its value. -/
def flowPair (close : Token) : Reader (Node × Node) := do
  let key ← nodeBefore node [.value, .flowEntry, close] false false
  if ← atAny [.value] then
    skip
    let value ← nodeBefore node [.flowEntry, close] false false
    return (key, value)
  return (key, nothing)

/-- Reads the items of a flow collection up to its end. -/
def flowItems {α : Type} (close : Token) (item : Reader α) : (n : Nat) → (isFirst : Bool) →
    Reader (List α)
  | 0, _ => return []
  | n + 1, isFirst => do
    if ← atAny [close] then return []
    if !isFirst then
      expect .flowEntry
      if ← atAny [close] then return []
    let a ← item
    return a :: (← flowItems close item n false)

/-- Reads an item of a flow sequence: a node, or a mapping of one entry. -/
def sequenceItem : Reader Node := do
  if ← atAny [.key] then
    skip
    return .mapping [← flowPair node .flowSequenceEnd] none
  node false false

/-- Reads an entry of a flow mapping. -/
def mappingItem : Reader (Node × Node) := do
  if ← atAny [.key] then
    skip
    flowPair node .flowMappingEnd
  else return (← node false false, nothing)

/-- Reads a node after its properties. -/
def content (inBlock mayDangle : Bool) (anchor tag : Option String) : Reader Node := do
  let n := (← get).rest.length
  match ← peek? with
  | some (.scalar text isPlain) =>
    skip
    return .scalar text isPlain tag
  | some .flowSequence =>
    skip
    let items ← flowItems .flowSequenceEnd (sequenceItem node) n true
    expect .flowSequenceEnd
    return .sequence items tag
  | some .flowMapping =>
    skip
    let entries ← flowItems .flowMappingEnd (mappingItem node) n true
    expect .flowMappingEnd
    return .mapping entries tag
  | t =>
    if mayDangle && t = some .blockEntry then
      return .sequence (← blockItems node true n) tag
    else if inBlock && t = some .blockSequence then
      skip
      let items ← blockItems node false n
      expect .blockEnd
      return .sequence items tag
    else if inBlock && t = some .blockMapping then
      skip
      let entries ← blockEntries node n
      expect .blockEnd
      return .mapping entries tag
    else if anchor.isSome || tag.isSome then return .scalar "" (tag.isNone || tag = some "!") tag
    else failure

end

/-- Reads a node; `n` bounds how deep nodes are inside each other.  `mayDangle` allows a sequence
that is not indented. -/
def node : (n : Nat) → (inBlock mayDangle : Bool) → Reader Node
  | 0, _, _ => failure
  | n + 1, inBlock, mayDangle => do
    match ← peek? with
    | some (.alias name) =>
      skip
      match (← get).anchors.find? (·.1 = name) with
      | some (_, node) => return node
      | none => failure
    | _ =>
      let (anchor, tag) ← properties 2 none none
      let result ← content (node n) inBlock mayDangle anchor tag
      match anchor with
      | none => return result
      | some a =>
        if (← get).anchors.any (·.1 = a) then failure
        modify fun s => { s with anchors := (a, result) :: s.anchors }
        return result

/-- Passes tokens of one kind. -/
def skipAll (t : Token) : Reader Unit :=
  modify fun s => { s with rest := s.rest.dropWhile (· = t) }

/-- Reads the only document; none if there is none. -/
def document : Reader (Option Node) := do
  if (← get).rest.isEmpty then return none
  let isExplicit ← atAny [.directive, .documentStart]
  if isExplicit then
    skipAll .directive
    expect .documentStart
  let atEnd := (← get).rest.isEmpty || (← atAny [.directive, .documentStart, .documentEnd])
  let isEmpty := isExplicit && atEnd
  let root ← if isEmpty then pure nothing else node ((← get).rest.length + 1) true false
  skipAll .documentEnd
  if !(← get).rest.isEmpty then failure
  return some root

end Reader

/-- The root of the only document of a text.  Fails if the text is not well formed. -/
def root? (text : String) : Option (Option Node) :=
  match tokens? text with
  | none => none
  | some tokens => (Reader.document.run { rest := tokens }).map (·.1)

end TaintFlow.Yaml
