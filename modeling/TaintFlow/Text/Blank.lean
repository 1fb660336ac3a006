/-!
# Blank characters

White space of every script, and removal of the blanks around a text.
-/

namespace TaintFlow.Text

/-- A white-space character. -/
def isBlank (c : Char) : Bool :=
  let code := c.toNat
  (0x09 ≤ code && code ≤ 0x0d) || (0x1c ≤ code && code ≤ 0x20) || code == 0x85 || code == 0xa0
    || code == 0x1680 || (0x2000 ≤ code && code ≤ 0x200a) || code == 0x2028 || code == 0x2029
    || code == 0x202f || code == 0x205f || code == 0x3000

/-- The characters without the blanks at their beginning and end. -/
def trimBlanks (cs : List Char) : List Char :=
  ((cs.dropWhile isBlank).reverse.dropWhile isBlank).reverse

/-- The text without the blanks at its beginning and end. -/
def trim (s : String) : String :=
  String.ofList (trimBlanks s.toList)

end TaintFlow.Text
