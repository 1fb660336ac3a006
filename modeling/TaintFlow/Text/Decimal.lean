/-!
# Decimal text of binary floating-point numbers

A finite number is `m · 2^q` with `m` a natural number, taken from its bits.  It is written either
with a fixed number of decimals, rounded half to even, or with the fewest digits that read back as
the same number, the nearest of those.  All arithmetic is exact.
-/

namespace TaintFlow.Text

/-- A decoded floating-point number. -/
inductive Binary where
  | nan
  | infinite (negative : Bool)
  /-- The number `significand · 2^exponent`; `lowEdge` says that the gap to the next number
  towards zero is half as wide as the gap on the other side. -/
  | finite (negative : Bool) (significand : Nat) (exponent : Int) (lowEdge : Bool)
  deriving DecidableEq, Repr

namespace Binary

/-- Decodes the bits of a double-precision number. -/
def ofBits (bits : Nat) : Binary :=
  let negative := (bits >>> 63) % 2 == 1
  let exponent := (bits >>> 52) % 0x800
  let fraction := bits % 0x10000000000000
  if exponent == 0x7ff then if fraction == 0 then infinite negative else nan
  else if exponent == 0 then finite negative fraction (-1074) false
  else finite negative (0x10000000000000 + fraction) (Int.ofNat exponent - 1075)
    (fraction == 0 && exponent > 1)

/-- Decodes a double-precision number. -/
def ofFloat (x : Float) : Binary :=
  ofBits x.toBits.toNat

end Binary

/-- The quotient rounded to the nearest number, a half to the even one. -/
def roundDiv (num den : Nat) : Nat :=
  let q := num / den
  let r := num % den
  if 2 * r < den then q else if 2 * r > den then q + 1 else q + q % 2

/-- `m · 2^q` as numerator and denominator. -/
def ratio (m : Nat) (q : Int) : Nat × Nat :=
  if q < 0 then (m, Nat.pow 2 (-q).toNat) else (m * Nat.pow 2 q.toNat, 1)

/-- `n · 10^k` with `k` decimal places cut off the digits of `n`. -/
def withPoint (digits : List Char) (places : Nat) : List Char :=
  let padded := List.replicate (places + 1 - digits.length) '0' ++ digits
  let whole := padded.length - places
  if places == 0 then padded else padded.take whole ++ '.' :: padded.drop whole

/-- The number with a fixed number of decimal places. -/
def fixed (places : Nat) (x : Float) : String :=
  match Binary.ofFloat x with
  | .nan => "nan"
  | .infinite negative => if negative then "-inf" else "inf"
  | .finite negative m q _ =>
    let (num, den) := ratio m q
    let scaled := roundDiv (num * Nat.pow 10 places) den
    (if negative then "-" else "") ++ String.ofList (withPoint (Nat.toDigits 10 scaled) places)

/-! ### The fewest digits -/

/-- The power of ten just at or below a positive ratio. -/
def decimalExponent (num den : Nat) : Int :=
  let guess : Int := Int.ofNat (Nat.toDigits 10 num).length - Int.ofNat (Nat.toDigits 10 den).length
  let atLeast (k : Int) : Bool :=
    if k < 0 then num * Nat.pow 10 (-k).toNat ≥ den else num ≥ den * Nat.pow 10 k.toNat
  if atLeast guess then guess else guess - 1

/-- The digits `d` with `count` places that are nearest to the ratio among those whose value lies
between the bounds `lo` and `hi`, given over the denominator `den`; `unit` is the exponent of the
last digit. -/
def nearestWithin (num den lo hi : Nat) (closed : Bool) (unit : Int) : Option Nat :=
  let scale (x : Nat) : Nat := if unit < 0 then x * Nat.pow 10 (-unit).toNat else x
  let step : Nat := if unit < 0 then den else den * Nat.pow 10 unit.toNat
  let inside (d : Nat) : Bool :=
    if closed then scale lo ≤ d * step && d * step ≤ scale hi
    else scale lo < d * step && d * step < scale hi
  let below := scale num / step
  let r := scale num % step
  match inside below, inside (below + 1) with
  | true, true =>
    some (if 2 * r < step then below else if 2 * r > step then below + 1 else below + below % 2)
  | true, false => some below
  | false, true => some (below + 1)
  | false, false => none

/-- Tries `count` digits and more, until some lie within the bounds. -/
def shortestFrom (num den lo hi : Nat) (closed : Bool) (top : Int) :
    (fuel : Nat) → (count : Nat) → Nat × Int
  | 0, count => (num * Nat.pow 10 count / den, -Int.ofNat count)
  | fuel + 1, count =>
    let unit := top - Int.ofNat count + 1
    match nearestWithin num den lo hi closed unit with
    | some d => (d, unit)
    | none => shortestFrom num den lo hi closed top fuel (count + 1)

/-- Digits `d` and exponent `e` of the shortest decimal `d · 10^e` that reads back as the positive
number `m · 2^q`. -/
def shortestDecimal (m : Nat) (q : Int) (lowEdge : Bool) : Nat × Int :=
  let (num, den) := ratio (4 * m) (q - 2)
  let half := (ratio 2 (q - 2)).1 * (den / (ratio 2 (q - 2)).2)
  let lower := if lowEdge then half / 2 else half
  shortestFrom num den (num - lower) (num + half) (m % 2 == 0) (decimalExponent num den) 17 1

/-- Removes the zeros at the end of the digits, and counts them. -/
def dropZeros (digits : List Char) : List Char × Nat :=
  let kept := (digits.reverse.dropWhile (· == '0')).reverse
  (kept, digits.length - kept.length)

/-- The digits of an exponent, at least two, with their sign. -/
def exponentText (e : Int) : List Char :=
  let digits := Nat.toDigits 10 e.natAbs
  (if e < 0 then '-' else '+') :: (List.replicate (2 - digits.length) '0' ++ digits)

/-- A shortest decimal as text: positional from 10⁻⁴ up to below 10¹⁶, with at least one decimal
place, and with an exponent outside. -/
def decimalText (d : Nat) (e : Int) : List Char :=
  let (digits, zeros) := dropZeros (Nat.toDigits 10 d)
  let e := e + Int.ofNat zeros
  let top := e + Int.ofNat digits.length - 1
  if -4 ≤ top && top < 16 then
    if 0 ≤ e then digits ++ List.replicate e.toNat '0' ++ ['.', '0']
    else withPoint digits (-e).toNat
  else
    match digits with
    | [] => []
    | first :: rest =>
      first :: (if rest.isEmpty then [] else '.' :: rest) ++ 'e' :: exponentText top

/-- The number with the fewest digits that read back as the same number. -/
def shortest (x : Float) : String :=
  match Binary.ofFloat x with
  | .nan => "nan"
  | .infinite negative => if negative then "-inf" else "inf"
  | .finite negative m q lowEdge =>
    let sign := if negative then "-" else ""
    if m == 0 then sign ++ "0.0"
    else
      let (d, e) := shortestDecimal m q lowEdge
      sign ++ String.ofList (decimalText d e)

end TaintFlow.Text
