/-!
# Patterns for paths

A pattern matches a whole text.  `*` stands for any characters, `?` for one, and brackets for one
character of a set, or of none of it after `!`.  A set lists characters and ranges; a range from a
higher to a lower character is empty.
-/

namespace TaintFlow.Files

/-- The parts of a pattern. -/
inductive GlobPart where
  | any
  | one
  | char (c : Char)
  /-- A set of characters and ranges. -/
  | set (isNegated : Bool) (chars : List Char) (ranges : List (Char × Char))
  deriving DecidableEq, Repr

namespace Glob

/-- The contents of a set up to its closing bracket, which is not the first character. -/
def setBody? (cs : List Char) : Option (List Char) :=
  let (mark, rest) : List Char × List Char :=
    match cs with
    | '!' :: rest => (['!'], rest)
    | _ => ([], cs)
  let (first, rest) : List Char × List Char :=
    match rest with
    | ']' :: rest => ([']'], rest)
    | _ => ([], rest)
  if rest.contains ']' then some (mark ++ first ++ rest.takeWhile (· ≠ ']')) else none

/-- Splits the contents of a set at the hyphens of ranges.  The first `skip` characters are not
such a hyphen. -/
def chunksFrom (chunk : List Char) : (skip : Nat) → List Char → List (List Char)
  | _, [] => [chunk.reverse]
  | 0, '-' :: rest => chunk.reverse :: chunksFrom [] 2 rest
  | 0, c :: rest => chunksFrom (c :: chunk) 0 rest
  | n + 1, c :: rest => chunksFrom (c :: chunk) n rest

/-- The parts of a set between the hyphens of its ranges.  A hyphen at the end is a character. -/
def chunks (body : List Char) : List (List Char) :=
  let skip := if body.head? == some '!' then 2 else 1
  let all := chunksFrom [] skip body
  match all.getLast?, all.dropLast.getLast? with
  | some [], some before => all.dropLast.dropLast ++ [before ++ ['-']]
  | _, _ => all

/-- Joins the parts of a set where the range between them is empty, from the last one on. -/
def joinEmpty : List (List Char) → List (List Char)
  | [] => []
  | chunk :: rest =>
    match joinEmpty rest with
    | [] => [chunk]
    | next :: others =>
      match chunk.getLast?, next.head? with
      | some a, some b =>
        if b < a then (chunk.dropLast ++ next.drop 1) :: others else chunk :: next :: others
      | _, _ => chunk :: next :: others

/-- The ranges between neighbouring parts of a set. -/
def rangesOf : List (List Char) → List (Char × Char)
  | a :: b :: rest =>
    match a.getLast?, b.head? with
    | some x, some y => (x, y) :: rangesOf (b :: rest)
    | _, _ => rangesOf (b :: rest)
  | _ => []

/-- The part of a pattern for the contents of a set. -/
def setPart (body : List Char) : GlobPart :=
  let parts := joinEmpty (chunks body)
  let ranges := rangesOf parts
  let chars := parts.flatten
  match parts.head?.getD [] with
  | '!' :: _ =>
    if chars == ['!'] && ranges.isEmpty then .one else .set true (chars.drop 1) ranges
  | _ => .set false chars ranges

/-- The parts of a pattern.  `n` bounds their number. -/
def partsFrom : (n : Nat) → List Char → List GlobPart
  | 0, _ => []
  | _, [] => []
  | n + 1, '*' :: rest => .any :: partsFrom n rest
  | n + 1, '?' :: rest => .one :: partsFrom n rest
  | n + 1, '[' :: rest =>
    match setBody? rest with
    | some body => setPart body :: partsFrom n (rest.drop (body.length + 1))
    | none => .char '[' :: partsFrom n rest
  | n + 1, c :: rest => .char c :: partsFrom n rest

/-- The parts of a pattern. -/
def parts (pattern : String) : List GlobPart :=
  partsFrom pattern.length pattern.toList

/-- Whether a part stands for a character. -/
def fits (c : Char) : GlobPart → Bool
  | .any => true
  | .one => true
  | .char d => c == d
  | .set isNegated chars ranges =>
    (chars.contains c || ranges.any fun (a, b) => a ≤ c && c ≤ b) ≠ isNegated

/-- Whether parts match characters. -/
def matchParts : List GlobPart → List Char → Bool
  | [], cs => cs.isEmpty
  | .any :: ps, [] => matchParts ps []
  | .any :: ps, c :: cs => matchParts ps (c :: cs) || matchParts (.any :: ps) cs
  | _ :: _, [] => false
  | p :: ps, c :: cs => fits c p && matchParts ps cs
termination_by ps cs => ps.length + cs.length

end Glob

/-- Whether a pattern matches a text. -/
def globMatches (pattern text : String) : Bool :=
  Glob.matchParts (Glob.parts pattern) text.toList

end TaintFlow.Files
