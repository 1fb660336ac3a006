import TaintFlow.Code.Expr
import TaintFlow.Vulnerability

/-!
# Data-flow records

A record is the witness of one backward trace: the expressions visited on the way from an argument
of a sink towards its origin, and a verdict once the path is decided.  Where the trace fans out,
each alternative continues in a child record, which starts with the path of its parent.

* A record with a verdict is *closed*: it is neither extended nor branched any more, and the first
  verdict stays.
* A record inside a tree is addressed by the places of its ancestors among their siblings.
-/

namespace TaintFlow.Flow

open TaintFlow.Code

/-- What is known of a path. -/
inductive Verdict where
  | pending
  | safe
  | vulnerable (kind : TaintKind) (message : String)
  | depthExceeded
  deriving DecidableEq, Repr

namespace Verdict

/-- The word for a verdict. -/
def toText : Verdict → String
  | pending => "pending"
  | safe => "safe"
  | vulnerable .. => "vulnerable"
  | depthExceeded => "depth_exceeded"

/-- Whether a verdict is final. -/
def isFinal : Verdict → Bool
  | pending => false
  | _ => true

/-- Whether a verdict is that of a vulnerable path. -/
def isVulnerable : Verdict → Bool
  | vulnerable .. => true
  | _ => false

/-- Why a path is vulnerable. -/
def kind? : Verdict → Option TaintKind
  | vulnerable k _ => some k
  | _ => none

/-- What is said of a vulnerable path. -/
def message? : Verdict → Option String
  | vulnerable _ m => some m
  | _ => none

end Verdict

/-- A path from a sink backwards, its verdict and the alternatives that continue it. -/
structure Record where
  /-- The call whose argument is traced. -/
  sink : Option Expr := none
  /-- Place of the argument in the call. -/
  parameter : Option Nat := none
  /-- The expressions visited, the first one nearest to the sink. -/
  path : List Expr := []
  verdict : Verdict := .pending
  children : List Record := []
  deriving Repr

/-- An attempt to go on with a closed record. -/
inductive Closed where
  | extend (verdict : Verdict)
  | branch (verdict : Verdict)
  deriving DecidableEq, Repr

/-- What is said of an attempt to go on with a closed record. -/
def Closed.message : Closed → String
  | .extend v => "Cannot extend a " ++ v.toText ++ " data-flow record"
  | .branch v => "Cannot branch a " ++ v.toText ++ " data-flow record"

namespace Record

/-- Whether the record has a verdict. -/
def isClosed (r : Record) : Bool :=
  r.verdict.isFinal

/-- The record with one more expression on its path. -/
def append (r : Record) (e : Expr) : Except Closed Record :=
  if r.isClosed then .error (.extend r.verdict) else .ok { r with path := r.path ++ [e] }

/-- A fresh alternative that continues the path of the record. -/
def branch (r : Record) : Except Closed Record :=
  if r.isClosed then .error (.branch r.verdict)
  else .ok { sink := r.sink, parameter := r.parameter, path := r.path }

/-- The record with one more child. -/
def addChild (r child : Record) : Record :=
  { r with children := r.children ++ [child] }

/-- The record with a verdict, unless it already has one. -/
def close (r : Record) (v : Verdict) : Record :=
  if r.isClosed then r else { r with verdict := v }

mutual

/-- Whether the record or one of its descendants is vulnerable. -/
def isVulnerable : Record → Bool
  | ⟨_, _, _, v, cs⟩ => v.isVulnerable || anyVulnerable cs
termination_by structural r => r

/-- Whether one of the records or of their descendants is vulnerable. -/
def anyVulnerable : List Record → Bool
  | [] => false
  | r :: rs => r.isVulnerable || anyVulnerable rs
termination_by structural rs => rs

end

mutual

/-- The record and its descendants, parents before children. -/
def walk : Record → List Record
  | r@⟨_, _, _, _, cs⟩ => r :: walkAll cs
termination_by structural r => r

/-- The records and their descendants. -/
def walkAll : List Record → List Record
  | [] => []
  | r :: rs => r.walk ++ walkAll rs
termination_by structural rs => rs

end

/-- The records of the tree that are vulnerable themselves. -/
def witnesses (r : Record) : List Record :=
  r.walk.filter (·.verdict.isVulnerable)

/-- The record as it is written in listings. -/
def toText (r : Record) : String :=
  "DataFlowRecord(" ++ r.verdict.toText ++ ", [" ++ " <- ".intercalate (r.path.map Expr.text)
    ++ "], children=" ++ toString r.children.length ++ ")"

/-! ### Addresses -/

/-- The record at an address: the place of the child to go to, at each generation. -/
def at? : Record → List Nat → Option Record
  | r, [] => some r
  | r, i :: rest => r.children[i]?.bind (·.at? rest)

/-- The tree with `f` applied to the record at an address. -/
def modifyAt (f : Record → Record) : List Nat → Record → Record
  | [], r => f r
  | i :: rest, r => { r with children := r.children.modify i (modifyAt f rest) }

mutual

/-- The addresses of the record and its descendants, in the order of `walk`. -/
def addresses : Record → List (List Nat)
  | ⟨_, _, _, _, cs⟩ => [] :: addressesFrom 0 cs
termination_by structural r => r

/-- The addresses inside the children from place `i` on. -/
def addressesFrom (i : Nat) : List Record → List (List Nat)
  | [] => []
  | r :: rs => r.addresses.map (i :: ·) ++ addressesFrom (i + 1) rs
termination_by structural rs => rs

end

end Record

end TaintFlow.Flow
