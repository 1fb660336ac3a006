import TaintFlow.Text.CharClass

/-!
# Tokens of YAML

A text is cut into tokens.  Indentation shows as tokens that open and close block collections.  A
simple key, which has no mark of its own, is recognized at the colon that follows it; its token is
then put in front of the tokens that make it up.
-/

namespace TaintFlow.Yaml

/-- The tokens of a text. -/
inductive Token where
  | directive
  | documentStart
  | documentEnd
  | blockSequence
  | blockMapping
  | blockEnd
  | flowSequence
  | flowSequenceEnd
  | flowMapping
  | flowMappingEnd
  | blockEntry
  | flowEntry
  | key
  | value
  | alias (name : String)
  | anchor (name : String)
  | tag (text : String)
  | scalar (text : String) (isPlain : Bool)
  deriving DecidableEq, Repr

/-- A place where a simple key may have begun. -/
structure Candidate where
  /-- The number of tokens before it. -/
  place : Nat
  /-- Whether nothing but a key can stand there. -/
  required : Bool
  index : Nat
  line : Nat
  column : Nat

/-- The state of cutting a text. -/
structure Scan where
  rest : List Char
  index : Nat := 0
  line : Nat := 0
  column : Nat := 0
  tokens : Array Token := #[]
  /-- The number of open flow collections. -/
  flowLevel : Nat := 0
  /-- Column of the innermost block collection. -/
  indent : Int := -1
  /-- Columns of the block collections around it. -/
  indents : List Int := []
  /-- Whether a simple key may begin here. -/
  keyAllowed : Bool := true
  /-- Candidates by flow level. -/
  candidates : List (Nat × Candidate) := []

/-- A step of cutting a text; it fails on a text that is not well formed. -/
abbrev Scanner := StateT Scan Option

namespace Scanner

/-! ### Characters -/

/-- The end of the text, as a character that no text holds. -/
def endChar : Char := Char.ofNat 0

/-- Characters that end a line. -/
def isBreak (c : Char) : Bool :=
  c == '\n' || c == '\r' || c.toNat == 0x85 || c.toNat == 0x2028 || c.toNat == 0x2029

/-- Characters that end a line, and the end of the text. -/
def isBreakOrEnd (c : Char) : Bool :=
  isBreak c || c == endChar

/-- Characters that end a word. -/
def isGap (c : Char) : Bool :=
  isBreakOrEnd c || c == ' ' || c == '\t'

/-- The character after the next `n` ones. -/
def peek (n : Nat) : Scanner Char := do
  return (← get).rest[n]?.getD endChar

/-- Passes one character. -/
def stepOver (s : Scan) : Scan :=
  match s.rest with
  | [] => s
  | c :: rest =>
    let s := { s with rest, index := s.index + 1 }
    if isBreak c && !(c == '\r' && rest.head? == some '\n') then
      { s with line := s.line + 1, column := 0 }
    else if c.toNat == 0xfeff then s
    else { s with column := s.column + 1 }

/-- Passes `n` characters. -/
def forward (n : Nat) : Scanner Unit :=
  modify fun s => n.repeat stepOver s

/-- Reads the characters as long as they are in a class. -/
def takeWhile (p : Char → Bool) : Scanner (List Char) := do
  let cs := (← get).rest.takeWhile p
  forward cs.length
  return cs

/-- Reads a line break; the result is empty if there is none. -/
def lineBreak : Scanner (List Char) := do
  let c ← peek 0
  if c == '\r' && (← peek 1) == '\n' then
    forward 2
    return ['\n']
  else if isBreak c then
    forward 1
    return [if c.toNat == 0x2028 || c.toNat == 0x2029 then c else '\n']
  else return []

/-- Whether a line begins that separates documents. -/
def atSeparator : Scanner Bool := do
  let mark := ((← get).rest.take 3)
  return (mark == ['-', '-', '-'] || mark == ['.', '.', '.']) && isGap (← peek 3)

/-- A bound on the number of steps of a loop that reads on. -/
def bound : Scanner Nat := do
  return (← get).rest.length + 1

/-! ### Tokens and keys -/

/-- Adds a token. -/
def push (t : Token) : Scanner Unit :=
  modify fun s => { s with tokens := s.tokens.push t }

/-- Sets whether a simple key may begin here. -/
def allowKey (allowed : Bool) : Scanner Unit :=
  modify fun s => { s with keyAllowed := allowed }

/-- The candidate of the current flow level. -/
def candidate? : Scanner (Option Candidate) := do
  let s ← get
  return (s.candidates.find? (·.1 = s.flowLevel)).map (·.2)

/-- Forgets the candidate of the current flow level; a required one is missed. -/
def dropCandidate : Scanner Unit := do
  match ← candidate? with
  | none => pure ()
  | some c =>
    if c.required then failure
    modify fun s => { s with candidates := s.candidates.filter (·.1 ≠ s.flowLevel) }

/-- Notes a candidate, if a simple key may begin here. -/
def noteCandidate : Scanner Unit := do
  let s ← get
  if s.keyAllowed then
    dropCandidate
    let c : Candidate :=
      { place := s.tokens.size, required := s.flowLevel = 0 && s.indent = s.column,
        index := s.index, line := s.line, column := s.column }
    modify fun s => { s with candidates := (s.flowLevel, c) :: s.candidates }

/-- Forgets the candidates that are on another line or too far back. -/
def dropStale : Scanner Unit := do
  let s ← get
  let isStale (c : Candidate) : Bool := c.line ≠ s.line || s.index - c.index > 1024
  if s.candidates.any fun c => isStale c.2 && c.2.required then failure
  set { s with candidates := s.candidates.filter fun c => !isStale c.2 }

/-! ### Indentation -/

/-- The state with the block collections closed that are indented deeper than a column. -/
def closeBlocks (column : Int) (s : Scan) : (indents : List Int) → Scan
  | [] => s
  | outer :: indents =>
    if s.indent > column then
      let closed := { s with tokens := s.tokens.push .blockEnd, indent := outer, indents }
      closeBlocks column closed indents
    else s

/-- Closes the block collections that are indented deeper than a column. -/
def unwind (column : Int) : Scanner Unit :=
  modify fun s => if s.flowLevel ≠ 0 then s else closeBlocks column s s.indents

/-- Opens a block collection at a column, unless one is open there; `place` is where its token
belongs. -/
def openBlock (column : Nat) (place : Nat) (t : Token) : Scanner Unit :=
  modify fun s =>
    if s.indent < (column : Int) then
      { s with
        indents := s.indent :: s.indents
        indent := column
        tokens := s.tokens.insertIdxIfInBounds place t }
    else s

/-! ### Scalars -/

/-- Reads the blanks after a part of a plain scalar: what stands for them in its text. -/
def plainBreaks : (n : Nat) → List Char → Scanner (Option (List Char))
  | 0, breaks => return some breaks
  | n + 1, breaks => do
    let c ← peek 0
    if c == ' ' then
      forward 1
      plainBreaks n breaks
    else if isBreak c then
      let b ← lineBreak
      if ← atSeparator then return none
      plainBreaks n (breaks ++ b)
    else return some breaks

/-- What a line break and the empty lines after it stand for. -/
def folded (first breaks : List Char) : List Char :=
  if first ≠ ['\n'] then first ++ breaks else if breaks.isEmpty then [' '] else breaks

/-- Reads the gap after a part of a plain scalar; nothing if the scalar ends. -/
def plainGap : Scanner (List Char) := do
  let blanks ← takeWhile (· == ' ')
  if isBreak (← peek 0) then
    let first ← lineBreak
    allowKey true
    if ← atSeparator then return []
    match ← plainBreaks (← bound) [] with
    | none => return []
    | some breaks => return folded first breaks
  else return blanks

/-- The number of characters of the next part of a plain scalar. -/
def plainLength (inFlow : Bool) : List Char → Nat
  | [] => 0
  | c :: rest =>
    let next := rest.head?.getD endChar
    if isGap c then 0
    else if c == ':' && (isGap next || (inFlow && isFlowMark next)) then 0
    else if inFlow && (c == '?' || isFlowMark c) then 0
    else plainLength inFlow rest + 1
where
  /-- Characters that structure flow collections. -/
  isFlowMark (c : Char) : Bool :=
    [',', '[', ']', '\x7b', '\x7d'].contains c

/-- Reads a plain scalar, part after part. -/
def plainParts : (n : Nat) → (gap : List Char) → List Char → Scanner (List Char)
  | 0, _, text => return text
  | n + 1, gap, text => do
    let s ← get
    let inFlow := s.flowLevel ≠ 0
    if (← peek 0) == '#' then return text
    let length := plainLength inFlow s.rest
    if length = 0 then return text
    allowKey false
    forward length
    let text := text ++ gap ++ s.rest.take length
    let gap ← plainGap
    let t ← get
    if gap.isEmpty || (← peek 0) == '#' || (!inFlow && (t.column : Int) < t.indent + 1) then
      return text
    plainParts n gap text

/-- Reads the empty lines inside a quoted scalar. -/
def quotedBreaks : (n : Nat) → List Char → Scanner (List Char)
  | 0, breaks => return breaks
  | n + 1, breaks => do
    if ← atSeparator then failure
    let _ ← takeWhile fun c => c == ' ' || c == '\t'
    if isBreak (← peek 0) then
      let b ← lineBreak
      quotedBreaks n (breaks ++ b)
    else return breaks

/-- Reads blanks inside a quoted scalar: what stands for them in its text. -/
def quotedGap : Scanner (List Char) := do
  let blanks ← takeWhile fun c => c == ' ' || c == '\t'
  let c ← peek 0
  if c == endChar then failure
  else if isBreak c then
    let first ← lineBreak
    return folded first (← quotedBreaks (← bound) [])
  else return blanks

/-- The characters that a backslash and a letter stand for. -/
def escapes : List (Char × Nat) :=
  [('0', 0), ('a', 7), ('b', 8), ('t', 9), ('\t', 9), ('n', 10), ('v', 11), ('f', 12), ('r', 13),
   ('e', 0x1b), (' ', 0x20), ('"', 0x22), ('\\', 0x5c), ('/', 0x2f), ('N', 0x85), ('_', 0xa0),
   ('L', 0x2028), ('P', 0x2029)]

/-- The number of hexadecimal digits after a backslash and a letter. -/
def escapeDigits? : Char → Option Nat
  | 'x' => some 2
  | 'u' => some 4
  | 'U' => some 8
  | _ => none

/-- The value of a hexadecimal digit. -/
def hexDigit? (c : Char) : Option Nat :=
  let n := c.toNat
  if 0x30 ≤ n && n ≤ 0x39 then some (n - 0x30)
  else if 0x41 ≤ n && n ≤ 0x46 then some (n - 0x37)
  else if 0x61 ≤ n && n ≤ 0x66 then some (n - 0x57)
  else none

/-- Reads what follows a backslash. -/
def escape : Scanner (List Char) := do
  let c ← peek 0
  match escapes.find? (·.1 == c) with
  | some (_, code) =>
    forward 1
    return [Char.ofNat code]
  | none =>
    match escapeDigits? c with
    | some count =>
      forward 1
      let digits := (← get).rest.take count
      let values := digits.filterMap hexDigit?
      if values.length ≠ count then failure
      forward count
      let code := values.foldl (fun n d => n * 16 + d) 0
      if code > 0x10ffff then failure
      return [Char.ofNat code]
    | none =>
      if isBreak c then
        let _ ← lineBreak
        quotedBreaks (← bound) []
      else failure

/-- Reads a quoted scalar after its first quote. -/
def quotedParts (isDouble : Bool) : (n : Nat) → List Char → Scanner (List Char)
  | 0, _ => failure
  | n + 1, text => do
    let part ← takeWhile fun c => !(isGap c || c == '\'' || c == '"' || c == '\\')
    let text := text ++ part
    let c ← peek 0
    if !isDouble && c == '\'' && (← peek 1) == '\'' then
      forward 2
      quotedParts isDouble n (text ++ ['\''])
    else if c == (if isDouble then '"' else '\'') then
      forward 1
      return text
    else if isDouble && c == '\\' then
      forward 1
      let e ← escape
      quotedParts isDouble n (text ++ e)
    else if c == '\'' || c == '"' || c == '\\' then
      forward 1
      quotedParts isDouble n (text ++ [c])
    else
      let gap ← quotedGap
      quotedParts isDouble n (text ++ gap)

/-- What is kept of the line breaks at the end of a block scalar. -/
inductive Chomping where
  | clip
  | strip
  | keep
  deriving DecidableEq, Repr

/-- Reads the marks of a block scalar: what is kept at its end, and its indentation. -/
def blockMarks : Scanner (Chomping × Option Nat) := do
  let first ← chomping?
  let digit ← digit?
  let last ← if first.isNone && digit.isSome then chomping? else pure none
  let c ← peek 0
  if !(isBreakOrEnd c || c == ' ') then failure
  return ((first <|> last).getD .clip, digit)
where
  /-- Reads a mark for the end. -/
  chomping? : Scanner (Option Chomping) := do
    let c ← peek 0
    if c == '+' || c == '-' then
      forward 1
      return some (if c == '+' then .keep else .strip)
    return none
  /-- Reads a mark for the indentation. -/
  digit? : Scanner (Option Nat) := do
    let c ← peek 0
    if TaintFlow.Text.isAsciiDigit c then
      forward 1
      if c == '0' then failure
      return some (c.toNat - 0x30)
    return none

/-- Reads the rest of a line that holds nothing but a comment. -/
def restOfLine : Scanner Unit := do
  let _ ← takeWhile (· == ' ')
  if (← peek 0) == '#' then
    let _ ← takeWhile fun c => !isBreakOrEnd c
  if !isBreakOrEnd (← peek 0) then failure
  let _ ← lineBreak

/-- Reads blank lines before a block scalar: the line breaks, and the deepest column. -/
def blockIndentation : (n : Nat) → List Char → Nat → Scanner (List Char × Nat)
  | 0, breaks, deepest => return (breaks, deepest)
  | n + 1, breaks, deepest => do
    let c ← peek 0
    if c == ' ' then
      forward 1
      blockIndentation n breaks (max deepest (← get).column)
    else if isBreak c then
      let b ← lineBreak
      blockIndentation n (breaks ++ b) deepest
    else return (breaks, deepest)

/-- Passes blanks up to a column. -/
def skipIndent (indent : Nat) : Scanner Unit := do
  let s ← get
  forward ((s.rest.take (indent - s.column)).takeWhile (· == ' ')).length

/-- Reads blank lines inside a block scalar. -/
def blockBreaks (indent : Nat) : (n : Nat) → List Char → Scanner (List Char)
  | 0, breaks => return breaks
  | n + 1, breaks => do
    skipIndent indent
    if isBreak (← peek 0) then
      let b ← lineBreak
      blockBreaks indent n (breaks ++ b)
    else return breaks

/-- Reads the lines of a block scalar: the text, the last line break and the blank lines at the
end. -/
def blockLines (isFolded : Bool) (indent : Nat) :
    (n : Nat) → (text first breaks : List Char) → Scanner (List Char × List Char × List Char)
  | 0, text, first, breaks => return (text, first, breaks)
  | n + 1, text, first, breaks => do
    if (← get).column ≠ indent || (← peek 0) == endChar then return (text, first, breaks)
    let leads := !isBlank (← peek 0)
    let line ← takeWhile fun c => !isBreakOrEnd c
    let text := text ++ breaks ++ line
    let first ← lineBreak
    let breaks ← blockBreaks indent (← bound) []
    let c ← peek 0
    if (← get).column = indent && c ≠ endChar then
      let joins := isFolded && first == ['\n'] && leads && !isBlank c
      let gap := if !joins then first else if breaks.isEmpty then [' '] else []
      blockLines isFolded indent n (text ++ gap) first breaks
    else return (text, first, breaks)
where
  /-- Blanks inside a line. -/
  isBlank (c : Char) : Bool := c == ' ' || c == '\t'

/-- Reads a block scalar. -/
def blockScalar (isFolded : Bool) : Scanner String := do
  forward 1
  let (chomping, increment) ← blockMarks
  restOfLine
  let least := ((← get).indent + 1).toNat.max 1
  let (breaks, indent) ←
    match increment with
    | some i => do
      let indent := least + i - 1
      pure (← blockBreaks indent (← bound) [], indent)
    | none => do
      let (breaks, deepest) ← blockIndentation (← bound) [] 0
      pure (breaks, max least deepest)
  let (text, first, breaks) ← blockLines isFolded indent (← bound) [] [] breaks
  return String.ofList <|
    match chomping with
    | .strip => text
    | .clip => text ++ first
    | .keep => text ++ first ++ breaks

/-! ### Tokens -/

/-- Passes blanks, comments and line breaks up to the next token. -/
def toNextToken : (n : Nat) → Scanner Unit
  | 0 => pure ()
  | n + 1 => do
    let _ ← takeWhile (· == ' ')
    if (← peek 0) == '#' then
      let _ ← takeWhile fun c => !isBreakOrEnd c
    let b ← lineBreak
    if !b.isEmpty then
      if (← get).flowLevel = 0 then allowKey true
      toNextToken n

/-- Reads the name of an anchor or alias. -/
def anchorName : Scanner String := do
  forward 1
  let name ← takeWhile fun c =>
    Text.isAsciiLetter c || Text.isAsciiDigit c || c == '-' || c == '_'
  let c ← peek 0
  if name.isEmpty then failure
  if !(isGap c || "?:,]\x7d%@".toList.contains c || c.toNat == 0x60) then failure
  return String.ofList name

/-- Reads a tag. -/
def tagText : Scanner String := do
  let text ← takeWhile fun c => !(isGap c)
  return String.ofList text

/-- Ends the block collections before the start or end of a document. -/
def documentMark (t : Token) : Scanner Unit := do
  unwind (-1)
  dropCandidate
  allowKey false
  forward 3
  push t

/-- Reads a directive, which has no effect. -/
def directive : Scanner Unit := do
  unwind (-1)
  dropCandidate
  allowKey false
  let _ ← takeWhile fun c => !isBreakOrEnd c
  push .directive

/-- Opens a flow collection. -/
def flowStart (t : Token) : Scanner Unit := do
  noteCandidate
  modify fun s => { s with flowLevel := s.flowLevel + 1 }
  allowKey true
  forward 1
  push t

/-- Closes a flow collection. -/
def flowEnd (t : Token) : Scanner Unit := do
  dropCandidate
  if (← get).flowLevel = 0 then failure
  modify fun s => { s with flowLevel := s.flowLevel - 1 }
  allowKey false
  forward 1
  push t

/-- Separates the entries of a flow collection. -/
def flowEntry : Scanner Unit := do
  allowKey true
  dropCandidate
  forward 1
  push .flowEntry

/-- Begins an entry of a block sequence or an explicit key. -/
def blockMark (collection entry : Token) (keyAfter : Bool) : Scanner Unit := do
  let s ← get
  if s.flowLevel = 0 then
    if !s.keyAllowed then failure
    openBlock s.column s.tokens.size collection
  allowKey keyAfter
  dropCandidate
  forward 1
  push entry

/-- Ends a key: a candidate becomes a simple key. -/
def valueMark : Scanner Unit := do
  let s ← get
  match ← candidate? with
  | some c =>
    set { s with
      candidates := s.candidates.filter (·.1 ≠ s.flowLevel)
      tokens := s.tokens.insertIdxIfInBounds c.place .key }
    if s.flowLevel = 0 then openBlock c.column c.place .blockMapping
    allowKey false
  | none =>
    if s.flowLevel = 0 then
      if !s.keyAllowed then failure
      openBlock s.column s.tokens.size .blockMapping
    allowKey (s.flowLevel = 0)
    dropCandidate
  forward 1
  push .value

/-- Reads a token that may be a simple key. -/
def keyPart (token : Scanner Token) : Scanner Unit := do
  noteCandidate
  allowKey false
  let t ← token
  push t

/-- Reads a block scalar. -/
def blockText (isFolded : Bool) : Scanner Unit := do
  allowKey true
  dropCandidate
  let text ← blockScalar isFolded
  push (.scalar text false)

/-- Reads a quoted scalar. -/
def quotedText (isDouble : Bool) : Scanner Unit :=
  keyPart do
    forward 1
    return .scalar (String.ofList (← quotedParts isDouble (← bound) [])) false

/-- Reads a plain scalar. -/
def plainText : Scanner Unit :=
  keyPart do
    return .scalar (String.ofList (← plainParts (← bound) [] [])) true

/-- Characters that mark something at the start of a word. -/
def indicators : List Char :=
  "-?:,[]\x7b\x7d#&*!|>'\"%@\x60".toList

/-- Whether a plain scalar begins here. -/
def atPlain (c next : Char) (inFlow : Bool) : Bool :=
  (!isGap c && !indicators.contains c)
    || (!isGap next && (c == '-' || (!inFlow && (c == '?' || c == ':'))))

/-- Reads the next token; false at the end of the text. -/
def token : Scanner Bool := do
  toNextToken (← bound)
  dropStale
  unwind (← get).column
  let s ← get
  let c ← peek 0
  let next ← peek 1
  let inFlow := s.flowLevel ≠ 0
  if c == endChar then
    unwind (-1)
    dropCandidate
    return false
  if c == '%' && s.column = 0 then directive
  else if c == '-' && s.column = 0 && (← atSeparator) then documentMark .documentStart
  else if c == '.' && s.column = 0 && (← atSeparator) then documentMark .documentEnd
  else if c == '[' then flowStart .flowSequence
  else if c == '\x7b' then flowStart .flowMapping
  else if c == ']' then flowEnd .flowSequenceEnd
  else if c == '\x7d' then flowEnd .flowMappingEnd
  else if c == ',' then flowEntry
  else if c == '-' && isGap next then blockMark .blockSequence .blockEntry true
  else if c == '?' && (inFlow || isGap next) then blockMark .blockMapping .key (!inFlow)
  else if c == ':' && (inFlow || isGap next) then valueMark
  else if c == '*' then keyPart (return .alias (← anchorName))
  else if c == '&' then keyPart (return .anchor (← anchorName))
  else if c == '!' then keyPart (return .tag (← tagText))
  else if c == '|' && !inFlow then blockText false
  else if c == '>' && !inFlow then blockText true
  else if c == '\'' then quotedText false
  else if c == '"' then quotedText true
  else if atPlain c next inFlow then plainText
  else failure
  return true

/-- Reads tokens to the end of the text.  `n` bounds their number. -/
def tokens : (n : Nat) → Scanner Unit
  | 0 => pure ()
  | n + 1 => do
    if ← token then tokens n

end Scanner

/-- Characters that a text may hold. -/
def isAllowed (c : Char) : Bool :=
  let n := c.toNat
  n == 0x9 || n == 0xa || n == 0xd || (0x20 ≤ n && n ≤ 0x7e) || n == 0x85
    || (0xa0 ≤ n && n ≤ 0xfffd) || 0x10000 ≤ n

/-- The tokens of a text; none if the text is not well formed. -/
def tokens? (text : String) : Option (List Token) :=
  let cs := text.toList
  if cs.all isAllowed then
    let cs := if cs.head? == some (Char.ofNat 0xfeff) then cs.drop 1 else cs
    ((Scanner.tokens (cs.length + 1)).run { rest := cs }).map fun (_, s) => s.tokens.toList
  else none

end TaintFlow.Yaml
