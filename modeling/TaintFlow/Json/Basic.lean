import TaintFlow.Text.Decimal
import TaintFlow.Text.Quoted

/-!
# JSON text

Documents and their text.  A document is written over several lines, two blanks deeper for each
level.  Characters beyond ASCII are written as escapes of their UTF-16 units.
-/

namespace TaintFlow

/-- A JSON document. -/
inductive Json where
  | null
  | bool (b : Bool)
  | int (n : Int)
  | float (x : Float)
  | text (s : String)
  | list (items : List Json)
  | object (members : List (String × Json))

namespace Json

instance : Inhabited Json := ⟨null⟩

/-- The text or null. -/
def ofOption {α : Type} (f : α → Json) : Option α → Json
  | none => null
  | some a => f a

/-- A natural number. -/
def nat (n : Nat) : Json :=
  int n

/-- A list of texts. -/
def texts (ss : List String) : Json :=
  list (ss.map text)

/-- An escape of one UTF-16 unit. -/
def unitEscape (n : Nat) : List Char :=
  '\\' :: 'u' :: Text.hexDigits 4 n

/-- A character inside a JSON text. -/
def charText (c : Char) : List Char :=
  let code := c.toNat
  if c == '"' || c == '\\' then ['\\', c]
  else if c == '\n' then ['\\', 'n']
  else if c == '\r' then ['\\', 'r']
  else if c == '\t' then ['\\', 't']
  else if code == 0x08 then ['\\', 'b']
  else if code == 0x0c then ['\\', 'f']
  else if code < 0x20 then unitEscape code
  else if code < 0x7f then [c]
  else if code < 0x10000 then unitEscape code
  else unitEscape (0xd800 + (code - 0x10000) / 0x400) ++ unitEscape (0xdc00 + code % 0x400)

/-- A text between quotes. -/
def quotedText (s : String) : String :=
  "\"" ++ String.ofList (s.toList.flatMap charText) ++ "\""

/-- A floating-point number; JSON texts spell out the values that are not finite. -/
def floatText (x : Float) : String :=
  match Text.Binary.ofFloat x with
  | .nan => "NaN"
  | .infinite negative => if negative then "-Infinity" else "Infinity"
  | .finite .. => Text.shortest x

/-- Items between brackets, one a line at the given depth. -/
def bracketed (first last : String) (depth : Nat) (items : List String) : String :=
  if items.isEmpty then first ++ last
  else
    let inner := "\n" ++ String.ofList (List.replicate (2 * (depth + 1)) ' ')
    let outer := "\n" ++ String.ofList (List.replicate (2 * depth) ' ')
    first ++ inner ++ ("," ++ inner).intercalate items ++ outer ++ last

mutual

/-- The document over several lines, its inner lines at `depth + 1` levels. -/
def prettyAt (depth : Nat) : Json → String
  | null => "null"
  | bool b => if b then "true" else "false"
  | int n => toString n
  | float x => floatText x
  | text s => quotedText s
  | list items => bracketed "[" "]" depth (prettyItems (depth + 1) items)
  | object members => bracketed "\x7b" "\x7d" depth (prettyMembers (depth + 1) members)
termination_by structural j => j

/-- The items of a list, at the given depth. -/
def prettyItems (depth : Nat) : List Json → List String
  | [] => []
  | j :: js => prettyAt depth j :: prettyItems depth js
termination_by structural js => js

/-- The members of an object, at the given depth. -/
def prettyMembers (depth : Nat) : List (String × Json) → List String
  | [] => []
  | (k, j) :: rest => (quotedText k ++ ": " ++ prettyAt depth j) :: prettyMembers depth rest
termination_by structural ms => ms

end

/-- The document over several lines, in ASCII. -/
def pretty (j : Json) : String :=
  prettyAt 0 j

end Json

end TaintFlow
