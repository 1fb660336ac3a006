import TaintFlow.Json.Basic
import TaintFlow.Text.CharClass

/-!
# Reading JSON

The document that a text holds.  Numbers with a decimal point or an exponent are binary numbers,
all others are whole.
-/

namespace TaintFlow.Json

open TaintFlow.Text

/-- Blanks between the parts of a document. -/
def isGap (c : Char) : Bool :=
  c == ' ' || c == '\t' || c == '\n' || c == '\r'

/-- The rest after blanks. -/
def afterGap (cs : List Char) : List Char :=
  cs.dropWhile isGap

/-- The value of hexadecimal digits. -/
def hexValue (cs : List Char) : Nat :=
  cs.foldl (fun n c => n * 16 + (if isAsciiDigit c then c.toNat - 48 else (c.toNat ||| 32) - 87)) 0

/-- The value of decimal digits. -/
def decimalValue (cs : List Char) : Nat :=
  cs.foldl (fun n c => n * 10 + (c.toNat - 48)) 0

/-- The character that a letter after a backslash stands for. -/
def escaped (c : Char) : Char :=
  match c with
  | 'n' => '\n'
  | 't' => '\t'
  | 'r' => '\r'
  | 'b' => Char.ofNat 8
  | 'f' => Char.ofNat 12
  | c => c

/-- The character of a UTF-16 unit and of the escape that follows, if they belong together. -/
def pairAt? (high : Nat) : List Char → Option Char
  | '\\' :: 'u' :: a :: b :: c :: d :: _ =>
    let low := hexValue [a, b, c, d]
    if 0xd800 ≤ high && high < 0xdc00 && 0xdc00 ≤ low && low < 0xe000 then
      some (Char.ofNat (0x10000 + (high - 0xd800) * 0x400 + (low - 0xdc00)))
    else none
  | _ => none

/-- The rest of a text after its first quote; `read` are the characters before, in reverse. -/
def textFrom (read : List Char) : List Char → Option (String × List Char)
  | '"' :: rest => some (String.ofList read.reverse, rest)
  | '\\' :: 'u' :: a :: b :: c :: d :: rest =>
    let high := hexValue [a, b, c, d]
    match pairAt? high rest with
    | some x => textFrom (x :: read) (rest.drop 6)
    | none => textFrom (Char.ofNat high :: read) rest
  | '\\' :: c :: rest => textFrom (escaped c :: read) rest
  | c :: rest => textFrom (c :: read) rest
  | [] => none
termination_by cs => cs.length
decreasing_by all_goals simp +arith

/-- The exponent at the front, if there is one. -/
def exponent? : List Char → Option (Int × List Char)
  | e :: rest =>
    if e == 'e' || e == 'E' then
      let isNegative := rest.head? == some '-'
      let rest := if isNegative || rest.head? == some '+' then rest.drop 1 else rest
      let size : Int := decimalValue (rest.takeWhile isAsciiDigit)
      some (if isNegative then -size else size, rest.dropWhile isAsciiDigit)
    else none
  | [] => none

/-- The number at the front. -/
def numberAt (cs : List Char) : Json × List Char :=
  let isNegative := cs.head? == some '-'
  let cs := if isNegative then cs.drop 1 else cs
  let whole := cs.takeWhile isAsciiDigit
  let rest := cs.dropWhile isAsciiDigit
  let (fraction, rest, hasPoint) :=
    match rest with
    | '.' :: r => (r.takeWhile isAsciiDigit, r.dropWhile isAsciiDigit, true)
    | _ => ([], rest, false)
  let (exponent, rest, hasExponent) : Int × List Char × Bool :=
    match exponent? rest with
    | some (e, r) => (e, r, true)
    | none => (0, rest, false)
  if hasPoint || hasExponent then
    let scale : Int := exponent - fraction.length
    let x := Float.ofScientific (decimalValue (whole ++ fraction)) (scale < 0) scale.natAbs
    (.float (if isNegative then -x else x), rest)
  else
    let n : Int := decimalValue whole
    (.int (if isNegative then -n else n), rest)

/-- What a reader finds at the front of a text. -/
abbrev Front (α : Type) := List Char → Option (α × List Char)

/-- The items of a list after its bracket.  `n` bounds their number. -/
def itemsFrom (item : Front Json) : (n : Nat) → Front (List Json)
  | 0, _ => none
  | n + 1, cs => do
    let (v, rest) ← item cs
    match afterGap rest with
    | ',' :: rest =>
      let (vs, rest) ← itemsFrom item n rest
      return (v :: vs, rest)
    | ']' :: rest => some ([v], rest)
    | _ => none

/-- The members of an object after its brace.  `n` bounds their number. -/
def membersFrom (item : Front Json) : (n : Nat) → Front (List (String × Json))
  | 0, _ => none
  | n + 1, cs => do
    match afterGap cs with
    | '"' :: cs =>
      let (key, rest) ← textFrom [] cs
      match afterGap rest with
      | ':' :: rest =>
        let (v, rest) ← item rest
        match afterGap rest with
        | ',' :: rest =>
          let (vs, rest) ← membersFrom item n rest
          return ((key, v) :: vs, rest)
        | '\x7d' :: rest => some ([(key, v)], rest)
        | _ => none
      | _ => none
    | _ => none

/-- The document at the front.  `n` bounds how deep documents are inside each other. -/
def front : (n : Nat) → Front Json
  | 0, _ => none
  | n + 1, cs =>
    match afterGap cs with
    | '"' :: rest => (textFrom [] rest).map fun (s, rest) => (.text s, rest)
    | '[' :: rest =>
      match afterGap rest with
      | ']' :: rest => some (.list [], rest)
      | rest => (itemsFrom (front n) (rest.length + 1) rest).map fun (vs, rest) => (.list vs, rest)
    | '\x7b' :: rest =>
      match afterGap rest with
      | '\x7d' :: rest => some (.object [], rest)
      | rest =>
        (membersFrom (front n) (rest.length + 1) rest).map fun (ms, rest) => (.object ms, rest)
    | 't' :: 'r' :: 'u' :: 'e' :: rest => some (.bool true, rest)
    | 'f' :: 'a' :: 'l' :: 's' :: 'e' :: rest => some (.bool false, rest)
    | 'n' :: 'u' :: 'l' :: 'l' :: rest => some (.null, rest)
    | [] => none
    | rest => some (numberAt rest)

/-- The document that a text holds. -/
def ofText? (text : String) : Option Json :=
  let cs := text.toList
  match front (cs.length + 1) cs with
  | some (j, rest) => if (afterGap rest).isEmpty then some j else none
  | none => none

end TaintFlow.Json
