import TaintFlow.Code.Expr
import TaintFlow.Table

/-!
# Trusted lines

The lines of each unit that the user has marked as trusted.  An expression that starts on such a
line ends a trace.
-/

namespace TaintFlow

open TaintFlow.Code

/-- The marked lines of each unit, every line once. -/
structure TrustedLines where
  lines : Table String (List Nat) := {}
  deriving Repr

namespace TrustedLines

/-- The table in which no line is marked. -/
def empty : TrustedLines := {}

/-- Marks exactly the given lines of a unit. -/
def replaceUnit (t : TrustedLines) (unit : String) (lines : List Nat) : TrustedLines :=
  let rest := t.lines.erase unit
  if lines.isEmpty then ⟨rest⟩ else ⟨rest.insert unit lines.eraseDups⟩

/-- Marks no line of a unit. -/
def removeUnit (t : TrustedLines) (unit : String) : TrustedLines :=
  ⟨t.lines.erase unit⟩

/-- Marks one more line. -/
def add (t : TrustedLines) (unit : String) (line : Nat) : TrustedLines :=
  ⟨t.lines.update unit [] fun ls => if ls.contains line then ls else ls ++ [line]⟩

/-- Whether the line at which an expression starts is marked. -/
def covers (t : TrustedLines) (e : Expr) : Bool :=
  (t.lines.getD e.position.unit []).contains e.position.line

/-- The number of marked lines. -/
def size (t : TrustedLines) : Nat :=
  t.lines.values.flatten.length

end TrustedLines

end TaintFlow
