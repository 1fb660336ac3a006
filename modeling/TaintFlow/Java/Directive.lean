import TaintFlow.Text.Blank
import TaintFlow.Text.Lines
import TaintFlow.Text.Word

/-!
# Trust directives

A comment that begins with the trust directive marks code as trusted.  After code it covers its
own line; alone on a line it covers the next one.
-/

namespace TaintFlow.Java

open TaintFlow.Text

/-- The directive that is used when no other is set. -/
def defaultDirective : String := "taintscan:trusted"

/-- A directive as it is set: a text, or bytes, which no comment can begin with. -/
inductive Directive where
  | text (s : String)
  | binary (bytes : List UInt8)
  deriving DecidableEq, Repr

/-- Whether a directive is all blank. -/
def Directive.isBlank : Directive → Bool
  | text s => trim s == ""
  | binary bytes => bytes.all fun b => b == 32 || (9 ≤ b && b ≤ 13)

/-- Whether a word that may end here does not go on. -/
def endsWord : List Char → Bool
  | [] => true
  | c :: _ => !(isWord c || c == '-')

/-- Whether the characters begin, after any number of blanks, with the directive as a whole word. -/
def beginsWith (directive : List Char) : List Char → Bool
  | [] => directive.isEmpty
  | c :: rest =>
    (directive.isPrefixOf (c :: rest) && endsWord ((c :: rest).drop directive.length))
      || (isBlank c && beginsWith directive rest)

/-- The characters before the first comment that begins with the directive, in reverse. -/
def beforeDirective? (directive : List Char) (before : List Char) : List Char → Option (List Char)
  | '/' :: c :: rest =>
    if (c == '/' || c == '*') && beginsWith directive rest then some before
    else beforeDirective? directive ('/' :: before) (c :: rest)
  | c :: rest => beforeDirective? directive (c :: before) rest
  | [] => none

/-- The line that a directive on line `number` covers. -/
def coveredLine? (directive : List Char) (number : Nat) (line : List Char) : Option Nat :=
  (beforeDirective? directive [] line).map fun before =>
    if before.all isBlank then number + 1 else number

/-- The lines covered by directives, from line `number` on. -/
def coveredFrom (directive : List Char) (number : Nat) : List (List Char) → List Nat
  | [] => []
  | line :: rest =>
    (coveredLine? directive number line).toList ++ coveredFrom directive (number + 1) rest

/-- The lines of a source text that are covered by directives, each once and in order. -/
def trustedLines (directive code : String) : List Nat :=
  (coveredFrom directive.toList 1 (lines code.toList)).eraseDups

end TaintFlow.Java
