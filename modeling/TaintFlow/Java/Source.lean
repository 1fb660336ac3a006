import TaintFlow.Code.Binding
import TaintFlow.Java.Tree
import TaintFlow.Text.Utf8

/-!
# Source texts

The bytes of a source file, with the words and the position of a node of its parse tree.
-/

namespace TaintFlow.Java

open TaintFlow.Code

/-- A source file. -/
structure Source where
  path : String
  bytes : ByteArray
  /-- Offsets of the line feeds. -/
  newlines : List Nat

namespace Source

/-- Offsets of the line feeds in a byte sequence that starts at `offset`. -/
def newlinesFrom (offset : Nat) : List UInt8 → List Nat
  | [] => []
  | b :: rest =>
    if b == 0x0a then offset :: newlinesFrom (offset + 1) rest else newlinesFrom (offset + 1) rest

/-- The source file with the given text. -/
def ofText (path text : String) : Source :=
  let bytes := text.toUTF8
  ⟨path, bytes, newlinesFrom 0 bytes.toList⟩

/-- The words of a node. -/
def text (s : Source) (t : Tree) : String :=
  Text.utf8Replacing (s.bytes.extract t.start t.stop).toList

/-- The words of a node, none if it is absent. -/
def text? (s : Source) (t : Option Tree) : String :=
  match t with
  | some t => s.text t
  | none => ""

/-- Where a node starts: line and column count from one, the column in bytes. -/
def position (s : Source) (t : Tree) : Position :=
  let before := s.newlines.filter (· < t.start)
  let lineStart := before.getLast?.map (· + 1) |>.getD 0
  ⟨s.path, before.length + 1, min t.start s.bytes.size - lineStart + 1⟩

end Source

end TaintFlow.Java
