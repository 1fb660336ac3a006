import TaintFlow.Yaml.Scalar

/-!
# Times in YAML

A day, or a day with a time of day and perhaps a time zone.
-/

namespace TaintFlow.Yaml

open TaintFlow.Text

/-- A time of day. -/
structure Clock where
  hour : Nat
  minute : Nat
  second : Nat
  micros : Nat
  /-- How many minutes its zone is ahead of universal time. -/
  zone : Option Int

/-- A day, with a time of day if one is given. -/
structure Moment where
  year : Nat
  month : Nat
  day : Nat
  clock : Option Clock := none

/-! ### Forms -/

/-- The number that the digits at the front make up, `least` or up to `most` of them. -/
def numberAt? (least most : Nat) (cs : List Char) : Option (Nat × List Char) :=
  let digits := (cs.take most).takeWhile isAsciiDigit
  if least ≤ digits.length then some (ofDigits 10 digits, cs.drop digits.length) else none

/-- The number after a mark. -/
def numberAfter? (mark : Char) (least most : Nat) : List Char → Option (Nat × List Char)
  | c :: rest => if c == mark then numberAt? least most rest else none
  | [] => none

/-- The time zone that is all that is left, if one is given. -/
def zone? (cs : List Char) : Option (Option Int) :=
  match cs, cs.dropWhile fun c => c == ' ' || c == '\t' with
  | [], _ => some none
  | _, ['Z'] => some (some 0)
  | _, sign :: rest => do
    let isNegative := sign == '-'
    if !isNegative && sign != '+' then failure
    let (hours, rest) ← numberAt? 1 2 rest
    let (minutes, rest) ← if rest.isEmpty then some (0, []) else numberAfter? ':' 2 2 rest
    if !rest.isEmpty then failure
    let ahead : Int := hours * 60 + minutes
    return some (if isNegative then -ahead else ahead)
  | _, [] => none

/-- The time of day that is all that is left. -/
def clock? (cs : List Char) : Option Clock := do
  let rest ←
    match cs with
    | 'T' :: rest => some rest
    | 't' :: rest => some rest
    | ' ' :: _ => some (cs.dropWhile fun c => c == ' ' || c == '\t')
    | '\t' :: _ => some (cs.dropWhile fun c => c == ' ' || c == '\t')
    | _ => none
  let (hour, rest) ← numberAt? 1 2 rest
  let (minute, rest) ← numberAfter? ':' 2 2 rest
  let (second, rest) ← numberAfter? ':' 2 2 rest
  let (fraction, rest) :=
    match rest with
    | '.' :: rest => (rest.takeWhile isAsciiDigit, rest.dropWhile isAsciiDigit)
    | _ => ([], rest)
  let micros := ofDigits 10 ((fraction ++ List.replicate 6 '0').take 6)
  return { hour, minute, second, micros, zone := ← zone? rest }

/-- A day or a moment, by its text. -/
def moment? (text : String) : Option Moment := do
  let (year, rest) ← numberAt? 4 4 text.toList
  let (month, rest) ← numberAfter? '-' 1 2 rest
  let (day, rest) ← numberAfter? '-' 1 2 rest
  if rest.isEmpty then return { year, month, day }
  return { year, month, day, clock := some (← clock? rest) }

/-! ### Values -/

/-- How many days a month has. -/
def daysOf (year month : Nat) : Nat :=
  if month == 2 then
    if year % 4 == 0 && (year % 100 != 0 || year % 400 == 0) then 29 else 28
  else if [4, 6, 9, 11].contains month then 30 else 31

namespace Moment

/-- Whether there is such a moment. -/
def isReal (m : Moment) : Bool :=
  1 ≤ m.year && 1 ≤ m.month && m.month ≤ 12 && 1 ≤ m.day && m.day ≤ daysOf m.year m.month
    && m.clock.all fun c => c.hour < 24 && c.minute < 60 && c.second < 60
      && c.zone.all fun ahead => ahead.natAbs < 24 * 60

/-- A number with zeros before it. -/
def padded (width n : Nat) : String :=
  let digits := toString n
  String.ofList (List.replicate (width - digits.length) '0') ++ digits

/-- The moment as text. -/
def toText (m : Moment) : String :=
  let day := padded 4 m.year ++ "-" ++ padded 2 m.month ++ "-" ++ padded 2 m.day
  match m.clock with
  | none => day
  | some c =>
    let fraction := if c.micros == 0 then "" else "." ++ padded 6 c.micros
    let zone :=
      match c.zone with
      | none => ""
      | some ahead => (if ahead < 0 then "-" else "+") ++ padded 2 (ahead.natAbs / 60) ++ ":"
          ++ padded 2 (ahead.natAbs % 60)
    day ++ " " ++ padded 2 c.hour ++ ":" ++ padded 2 c.minute ++ ":" ++ padded 2 c.second
      ++ fraction ++ zone

/-- The moment as it is shown in messages. -/
def shown (m : Moment) : String :=
  let call (name : String) (items : List String) : String :=
    "datetime." ++ name ++ "(" ++ ", ".intercalate items ++ ")"
  let day := [m.year, m.month, m.day].map toString
  match m.clock with
  | none => call "date" day
  | some c =>
    let precise :=
      if c.micros ≠ 0 then [c.second, c.micros] else if c.second ≠ 0 then [c.second] else []
    let zone :=
      match c.zone with
      | none => []
      | some 0 => ["tzinfo=datetime.timezone.utc"]
      | some ahead =>
        let days := if ahead < 0 then ["days=-1"] else []
        let seconds := "seconds=" ++ toString ((ahead % (24 * 60)) * 60)
        ["tzinfo=" ++ call "timezone" [call "timedelta" (days ++ [seconds])]]
    call "datetime" (day ++ ([c.hour, c.minute] ++ precise).map toString ++ zone)

/-- The value of a moment, if there is one. -/
def value (m : Moment) : Except ValueFault Value :=
  if m.isReal then .ok (.time m.shown m.toText) else .error (.scalar .noSuchTime)

end Moment

end TaintFlow.Yaml
