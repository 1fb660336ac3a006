import TaintFlow.Text.Blank

/-!
# Integers in texts

An integer is an optional sign and digits, with single underscores between digits and blanks around
all of it.  The decimal digits of every script count.
-/

namespace TaintFlow.Text

/-- Codes of the digit zero of each script; the other digits follow it. -/
def zeroCodes : List Nat :=
  [0x30, 0x660, 0x6f0, 0x7c0, 0x966, 0x9e6, 0xa66, 0xae6, 0xb66, 0xbe6, 0xc66, 0xce6, 0xd66,
   0xde6, 0xe50, 0xed0, 0xf20, 0x1040, 0x1090, 0x17e0, 0x1810, 0x1946, 0x19d0, 0x1a80, 0x1a90,
   0x1b50, 0x1bb0, 0x1c40, 0x1c50, 0xa620, 0xa8d0, 0xa900, 0xa9d0, 0xa9f0, 0xaa50, 0xabf0,
   0xff10, 0x104a0, 0x10d30, 0x11066, 0x110f0, 0x11136, 0x111d0, 0x112f0, 0x11450, 0x114d0,
   0x11650, 0x116c0, 0x11730, 0x118e0, 0x11950, 0x11c50, 0x11d50, 0x11da0, 0x16a60, 0x16ac0,
   0x16b50, 0x1d7ce, 0x1d7d8, 0x1d7e2, 0x1d7ec, 0x1d7f6, 0x1e140, 0x1e2f0, 0x1e950, 0x1fbf0]

/-- The value of a decimal digit. -/
def digitOf? (c : Char) : Option Nat :=
  (zeroCodes.find? fun z => z ≤ c.toNat && c.toNat < z + 10).map fun z => c.toNat - z

/-- Blanks that may surround an integer. -/
def isMargin (c : Char) : Bool :=
  if c.toNat < 0x80 then c == ' ' || (9 ≤ c.toNat && c.toNat ≤ 13) else isBlank c

/-- The number whose digits follow, with single underscores between them; `n` is the number that
the digits before make up. -/
def digitsFrom (n : Nat) : List Char → Option Nat
  | [] => some n
  | '_' :: c :: rest =>
    match digitOf? c with
    | some d => digitsFrom (n * 10 + d) rest
    | none => none
  | c :: rest =>
    match digitOf? c with
    | some d => digitsFrom (n * 10 + d) rest
    | none => none

/-- The number with the given digits, of which there is at least one. -/
def natural? : List Char → Option Nat
  | [] => none
  | c :: rest => (digitOf? c).bind fun d => digitsFrom d rest

/-- How many digits an integer may have. -/
def maxDigits : Nat := 4300

/-- The integer that a text shows. -/
def integer? (s : String) : Option Int :=
  let cs := ((s.toList.dropWhile isMargin).reverse.dropWhile isMargin).reverse
  let (isNegative, digits) : Bool × List Char :=
    match cs with
    | '-' :: rest => (true, rest)
    | '+' :: rest => (false, rest)
    | _ => (false, cs)
  if (digits.filter (· ≠ '_')).length > maxDigits then none
  else (natural? digits).map fun n => if isNegative then -(n : Int) else (n : Int)

end TaintFlow.Text
