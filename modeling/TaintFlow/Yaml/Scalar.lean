import TaintFlow.Text.CharClass
import TaintFlow.Value

/-!
# Scalars of YAML

The forms of truth values, numbers and nothing.  A text can have the form of a number and yet be none,
when it has no digits.
-/

namespace TaintFlow.Yaml

open TaintFlow.Text

/-! ### Forms -/

/-- A truth value, by its text. -/
def bool? (text : String) : Option Bool :=
  if ["yes", "Yes", "YES", "true", "True", "TRUE", "on", "On", "ON"].contains text then some true
  else if ["no", "No", "NO", "false", "False", "FALSE", "off", "Off", "OFF"].contains text then
    some false
  else none

/-- Whether a text stands for nothing. -/
def isNull (text : String) : Bool :=
  ["", "~", "null", "Null", "NULL"].contains text

/-- Splits off a sign: true for a minus. -/
def signed : List Char → Bool × List Char
  | '-' :: rest => (true, rest)
  | '+' :: rest => (false, rest)
  | cs => (false, cs)

/-- The value of a digit in any base up to sixteen. -/
def digitValue (c : Char) : Nat :=
  let n := c.toNat
  if n ≤ 0x39 then n - 0x30 else if n ≤ 0x46 then n - 0x37 else n - 0x57

/-- The number with the given digits. -/
def ofDigits (base : Nat) (digits : List Char) : Nat :=
  digits.foldl (fun n c => n * base + digitValue c) 0

/-- A digit of the hexadecimal system. -/
def isHexDigit (c : Char) : Bool :=
  isAsciiDigit c || (0x41 ≤ c.toNat && c.toNat ≤ 0x46) || (0x61 ≤ c.toNat && c.toNat ≤ 0x66)

/-- A digit, or an underscore between digits. -/
def isDigitPart (c : Char) : Bool :=
  isAsciiDigit c || c == '_'

/-- The number with digits of a class and underscores between them. -/
def groupedDigits? (base : Nat) (isDigit : Char → Bool) (cs : List Char) : Option Nat :=
  if !cs.isEmpty && cs.all (fun c => isDigit c || c == '_') then
    some (ofDigits base (cs.filter (· ≠ '_')))
  else none

/-- Whether there is no digit after the mark of a base. -/
def isBare : List Char → Bool
  | '0' :: 'b' :: rest => rest.all (· == '_')
  | '0' :: 'x' :: rest => rest.all (· == '_')
  | _ => false

/-- Whether a component of a number in base sixty has the right form. -/
def isSixtieth : List Char → Bool
  | [d] => isAsciiDigit d
  | [t, d] => 0x30 ≤ t.toNat && t.toNat ≤ 0x35 && isAsciiDigit d
  | _ => false

/-- A number in base sixty from its components. -/
def ofSixtieths (parts : List (List Char)) : Nat :=
  parts.foldl (fun n p => n * 60 + ofDigits 10 (p.filter (· ≠ '_'))) 0

/-- Whether the characters begin with a digit other than zero and go on with digits. -/
def isWhole : List Char → Bool
  | c :: rest => isAsciiDigit c && c ≠ '0' && rest.all isDigitPart
  | [] => false

/-- A whole number without its sign. -/
def natural? (cs : List Char) : Option Nat :=
  match cs with
  | ['0'] => some 0
  | '0' :: 'b' :: rest => groupedDigits? 2 (fun c => c == '0' || c == '1') rest
  | '0' :: 'x' :: rest => groupedDigits? 16 isHexDigit rest
  | '0' :: rest => groupedDigits? 8 (fun c => 0x30 ≤ c.toNat && c.toNat ≤ 0x37) rest
  | _ =>
    match cs.splitOn ':' with
    | [whole] => if isWhole whole then groupedDigits? 10 isAsciiDigit whole else none
    | whole :: rest =>
      if isWhole whole && rest.all isSixtieth then some (ofSixtieths (whole :: rest)) else none
    | [] => none

/-- A whole number, by its text. -/
def int? (text : String) : Option (Except ValueFault Int) :=
  let (isNegative, cs) := signed text.toList
  (natural? cs).map fun (n : Nat) =>
    if isBare cs then .error (.scalar .noNumber)
    else .ok (if isNegative then -(n : Int) else (n : Int))

/-- The exponent at the end of a number; no exponent counts as zero. -/
def exponent? : List Char → Option Int
  | [] => some 0
  | e :: s :: digits =>
    if (e == 'e' || e == 'E') && !digits.isEmpty && digits.all isAsciiDigit then
      if s == '+' then some (ofDigits 10 digits)
      else if s == '-' then some (-(ofDigits 10 digits : Int))
      else none
    else none
  | _ => none

/-- The nearest binary number to a decimal one. -/
def ofDecimal (digits : Nat) (exponent : Int) : Float :=
  match exponent with
  | .ofNat e => Float.ofScientific digits false e
  | .negSucc e => Float.ofScientific digits true (e + 1)

/-- A number with a decimal point without its sign.  `needsWhole` asks for digits before the
point. -/
def decimal? (needsWhole : Bool) (cs : List Char) : Option Float :=
  let whole := cs.takeWhile isDigitPart
  match cs.dropWhile isDigitPart with
  | '.' :: rest =>
    let fraction := rest.takeWhile isDigitPart
    let isGood :=
      if whole.isEmpty then !needsWhole && fraction.head?.any isAsciiDigit
      else whole.head?.any isAsciiDigit
    if !isGood then none
    else
      match exponent? (rest.dropWhile isDigitPart) with
      | none => none
      | some e =>
        let digits := (whole ++ fraction).filter (· ≠ '_')
        let places := (fraction.filter (· ≠ '_')).length
        some (ofDecimal (ofDigits 10 digits) (e - places))
  | _ => none

/-- A number in base sixty with a decimal point. -/
def sixtieths? (cs : List Char) : Option Float :=
  match cs.splitOn '.' with
  | [whole, fraction] =>
    match whole.splitOn ':' with
    | first :: second :: rest =>
      if first.head?.any isAsciiDigit && first.all isDigitPart
          && (second :: rest).all isSixtieth && fraction.all isDigitPart then
        let digits := fraction.filter (· ≠ '_')
        let last := ofDecimal (ofDigits 10 digits) (-(digits.length : Int))
        some (Float.ofNat (ofSixtieths (first :: second :: rest)) + last)
      else none
    | _ => none
  | _ => none

/-- A number that is not whole, by its text. -/
def float? (text : String) : Option Float :=
  let (isNegative, cs) := signed text.toList
  let hasSign := cs.length < text.length
  let isOneOf (words : List String) : Bool := words.contains (String.ofList cs)
  let size :=
    if isOneOf [".inf", ".Inf", ".INF"] then some (1.0 / 0.0)
    else if !hasSign && isOneOf [".nan", ".NaN", ".NAN"] then some (0.0 / 0.0)
    else (decimal? hasSign cs).orElse fun _ => sixtieths? cs
  size.map fun x => if isNegative then -x else x

end TaintFlow.Yaml
