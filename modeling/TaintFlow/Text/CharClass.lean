/-!
# Classes of characters

A class of characters beyond ASCII is given by its *runs*: how many code points from zero on are
outside the class, how many after them are inside, how many after those are outside again, and so on.
-/

namespace TaintFlow.Text

/-- Whether the code point that comes `code` after the start of the first run lies in the class.
`isInside` tells it of the first run. -/
def withinFrom (isInside : Bool) : (runs : List Nat) → (code : Nat) → Bool
  | [], _ => isInside
  | n :: runs, code => if code < n then isInside else withinFrom (!isInside) runs (code - n)

/-- Whether a code point lies in the class with the given runs. -/
def within (runs : List Nat) (code : Nat) : Bool :=
  withinFrom false runs code

/-- An ASCII letter. -/
def isAsciiLetter (c : Char) : Bool :=
  (c.toNat ≥ 0x41 && c.toNat ≤ 0x5a) || (c.toNat ≥ 0x61 && c.toNat ≤ 0x7a)

/-- An ASCII decimal digit. -/
def isAsciiDigit (c : Char) : Bool :=
  c.toNat ≥ 0x30 && c.toNat ≤ 0x39

end TaintFlow.Text
