import TaintFlow.Java.Directive
import TaintFlow.Java.Grammar.Decl
import TaintFlow.Java.Reading.Decl

/-!
# Units from texts

From the text of a source file to what the analysis keeps of it.
-/

namespace TaintFlow.Java

open TaintFlow.Code

/-- The unit of a source text with the given parse tree.  `hasErrors` tells whether the tree was
built around a mistake. -/
def unitOf (directive path text : String) (tree : Tree) (hasErrors : Bool) :
    Except Fault SourceUnit :=
  match unitOfTree (Source.ofText path text) tree with
  | .error f => .error f
  | .ok u => .ok { u with trustedLines := trustedLines directive text, hasErrors }

/-- What a parser makes of a text: always a tree, if need be one around mistakes. -/
structure Parsed where
  tree : Tree
  /-- Whether the tree was built around a mistake. -/
  hasErrors : Bool

/-- A parser of source texts. -/
abbrev TreeReader := (text : String) → Parsed

/-- The unit of a source text that is read with a parser.  No directive in bytes can be looked for. -/
def unitWith (parse : TreeReader) (directive : Directive) (path text : String) :
    Except Fault SourceUnit :=
  match directive with
  | .text d => unitOf d path text (parse text).tree (parse text).hasErrors
  | .binary _ => .error .directive

/-- The parser for texts in Java; of any other text it makes a tree without parts. -/
def parsed : TreeReader := fun text =>
  match treeOfText? text with
  | some tree => ⟨tree, false⟩
  | none => ⟨{ type := "program", start := 0, stop := 0 }, true⟩

/-- The unit of a source text; that of a text that is no Java is empty. -/
def unitOfText (directive path text : String) : Except Fault SourceUnit :=
  unitOf directive path text (parsed text).tree (parsed text).hasErrors

end TaintFlow.Java
