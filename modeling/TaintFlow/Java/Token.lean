import TaintFlow.Text.Blank
import TaintFlow.Text.CharClass

/-!
# Tokens of Java

A source text is cut into tokens from left to right, each the longest that fits.  Blanks and
comments are dropped.  A closing angle bracket is always a token of its own, so that the brackets
of nested type arguments need not be told from a shift; `Grammar` joins adjacent ones again.
-/

namespace TaintFlow.Java

open TaintFlow.Text

/-- The classes of tokens. -/
inductive TokenKind where
  | word
  /-- A literal; `type` names it in the parse tree. -/
  | literal (type : String)
  | symbol
  /-- Blanks and comments. -/
  | gap
  /-- What begins no token. -/
  | bad
  deriving DecidableEq, Repr

/-- A token with its span of bytes. -/
structure Token where
  kind : TokenKind
  text : String
  start : Nat
  stop : Nat
  deriving DecidableEq, Repr

/-- A character that begins a name: a letter, `_`, `$`, or any character beyond ASCII. -/
def isNameStart (c : Char) : Bool :=
  isAsciiLetter c || c == '_' || c == '$' || c.toNat ≥ 0x80

/-- A character inside a name. -/
def isNamePart (c : Char) : Bool :=
  isNameStart c || isAsciiDigit c

/-- The number of characters up to and including the end of a block comment. -/
def blockCommentLength : List Char → Option Nat
  | '*' :: '/' :: _ => some 2
  | _ :: rest => (blockCommentLength rest).map (· + 1)
  | [] => none

/-- The number of characters up to and including the closing quote. -/
def quotedLength (quote : Char) : List Char → Option Nat
  | '\\' :: _ :: rest => (quotedLength quote rest).map (· + 2)
  | c :: rest =>
    if c == quote then some 1
    else if c == '\n' then none
    else (quotedLength quote rest).map (· + 1)
  | [] => none

/-- The number of characters up to and including the end of a text block. -/
def textBlockLength : List Char → Option Nat
  | '\\' :: _ :: rest => (textBlockLength rest).map (· + 2)
  | '"' :: '"' :: '"' :: _ => some 3
  | _ :: rest => (textBlockLength rest).map (· + 1)
  | [] => none

/-- A digit of a number in any radix, or an underscore between digits. -/
def isNumberPart (c : Char) : Bool :=
  isAsciiLetter c || isAsciiDigit c || c == '_'

/-- The number of characters of a number that goes on with the given ones.  `mark` tells the
letters that may be followed by a sign: those of an exponent. -/
def numberLength (mark : Char → Bool) : List Char → Nat
  | c :: '+' :: rest =>
    if mark c then numberLength mark rest + 2 else if isNumberPart c then 1 else 0
  | c :: '-' :: rest =>
    if mark c then numberLength mark rest + 2 else if isNumberPart c then 1 else 0
  | c :: rest =>
    if isNumberPart c then numberLength mark rest + 1
    else if c == '.' && rest.head?.all (fun d => !isNameStart d && d ≠ '.' || isExponent d) then
      numberLength mark rest + 1
    else 0
  | [] => 0
where
  /-- A letter that can follow the decimal point of a number. -/
  isExponent (c : Char) : Bool :=
    ['e', 'E', 'f', 'F', 'd', 'D', 'p', 'P'].contains c

/-- The type of a number literal in the parse tree. -/
def numberType (cs : List Char) : String :=
  let isHex := ['0', 'x'].isPrefixOf cs || ['0', 'X'].isPrefixOf cs
  let has (marks : List Char) : Bool := cs.any marks.contains
  if isHex then
    if has ['.', 'p', 'P'] then "hex_floating_point_literal" else "hex_integer_literal"
  else if ['0', 'b'].isPrefixOf cs || ['0', 'B'].isPrefixOf cs then "binary_integer_literal"
  else if has ['.', 'e', 'E', 'f', 'F', 'd', 'D'] then "decimal_floating_point_literal"
  else
    match cs with
    | '0' :: d :: _ => if isAsciiDigit d then "octal_integer_literal" else "decimal_integer_literal"
    | _ => "decimal_integer_literal"

/-- The number literal that begins with `c`: its type, and how many characters follow. -/
def numberToken (c : Char) (rest : List Char) : TokenKind × Nat :=
  let isHex := c == '0' && (rest.head? == some 'x' || rest.head? == some 'X')
  let mark (d : Char) : Bool :=
    if isHex then d == 'p' || d == 'P' else d == 'e' || d == 'E'
  let extra := numberLength mark rest
  (.literal (numberType (c :: rest.take extra)), extra)

/-- Symbols of more than one character, longer ones first. -/
def longSymbols : List (List Char) :=
  ["<<=", "...", "->", "::", "++", "--", "&&", "||", "==", "!=", "<=", ">=", "+=", "-=", "*=", "/=",
   "%=", "&=", "|=", "^=", "<<"].map String.toList

/-- Symbols of one character. -/
def shortSymbols : List Char :=
  "()\x7b\x7d[];,.@=<>!~?:+-*/&|^%".toList

/-- The symbol that begins with `c`: how many characters follow. -/
def symbolToken (c : Char) (rest : List Char) : TokenKind × Nat :=
  match longSymbols.find? (·.isPrefixOf (c :: rest)) with
  | some s => (.symbol, s.length - 1)
  | none => if shortSymbols.contains c then (.symbol, 0) else (.bad, 0)

/-- The token that begins with `c`: its kind, and how many characters follow. -/
def tokenAt (c : Char) (rest : List Char) : TokenKind × Nat :=
  let closed (kind : TokenKind) (length : Option Nat) : TokenKind × Nat :=
    match length with
    | some n => (kind, n)
    | none => (.bad, 0)
  if isBlank c then (.gap, 0)
  else if isNameStart c then (.word, (rest.takeWhile isNamePart).length)
  else if isAsciiDigit c then numberToken c rest
  else
    match c, rest with
    | '/', '/' :: _ => (.gap, (rest.takeWhile (· ≠ '\n')).length)
    | '/', '*' :: r => closed .gap ((blockCommentLength r).map (· + 1))
    | '"', '"' :: '"' :: r => closed (.literal "string_literal") ((textBlockLength r).map (· + 2))
    | '"', _ => closed (.literal "string_literal") (quotedLength '"' rest)
    | '\'', _ => closed (.literal "character_literal") (quotedLength '\'' rest)
    | '.', d :: _ => if isAsciiDigit d then numberToken c rest else symbolToken c rest
    | _, _ => symbolToken c rest

/-- The number of bytes of characters in UTF-8. -/
def byteLength (cs : List Char) : Nat :=
  cs.foldl (fun n c => n + c.utf8Size) 0

/-- The tokens of a text that starts at byte `offset`. -/
def tokensFrom (offset : Nat) : List Char → List Token
  | [] => []
  | c :: rest =>
    let (kind, extra) := tokenAt c rest
    let word := c :: rest.take extra
    let stop := offset + byteLength word
    let tail := tokensFrom stop (rest.drop extra)
    if kind = .gap then tail else ⟨kind, String.ofList word, offset, stop⟩ :: tail
termination_by cs => cs.length
decreasing_by
  rw [List.length_drop, List.length_cons]
  omega

/-- The tokens of a source text. -/
def tokens (text : String) : List Token :=
  tokensFrom 0 text.toList

end TaintFlow.Java
