import TaintFlow.Text.Decimal
import TaintFlow.Text.Quoted

/-!
# Data values

Values of configuration and catalog files, as far as they are not yet known to have the right
shape.  How a document becomes a value is a parameter: a reader, which may fail.
-/

namespace TaintFlow

/-- A value of a data file. -/
inductive Value where
  | null
  | bool (b : Bool)
  | int (n : Int)
  | float (x : Float)
  | text (s : String)
  | binary (bytes : List UInt8)
  /-- A day or a moment, as it is shown in messages and as text. -/
  | time (shown text : String)
  | list (items : List Value)
  /-- An item of a list of keys with values. -/
  | pair (key value : Value)
  | set (items : List Value)
  /-- A mapping, in the order in which its keys first came. -/
  | map (entries : List (Value × Value))

namespace Value

instance : Inhabited Value := ⟨null⟩

/-- Whether a value counts as present: everything but null, false, zero and what is empty. -/
def isPresent : Value → Bool
  | null => false
  | bool b => b
  | int n => n ≠ 0
  | float x => !(x == 0.0)
  | text s => s ≠ ""
  | binary bytes => !bytes.isEmpty
  | time _ _ => true
  | list items => !items.isEmpty
  | pair _ _ => true
  | set items => !items.isEmpty
  | map entries => !entries.isEmpty

/-- The text of a value that is one. -/
def text? : Value → Option String
  | text s => some s
  | _ => none

/-- The value at a key of a mapping. -/
def get? (key : String) : List (Value × Value) → Option Value
  | [] => none
  | (text k, v) :: rest => if k == key then some v else get? key rest
  | _ :: rest => get? key rest

mutual

/-- The value as it is shown in messages. -/
def shown : Value → String
  | null => "None"
  | bool true => "True"
  | bool false => "False"
  | int n => toString n
  | float x => Text.shortest x
  | text s => Text.quoted s
  | binary bytes => Text.quotedBytes bytes
  | time shown _ => shown
  | list items => "[" ++ ", ".intercalate (shownAll items) ++ "]"
  | pair key value => "(" ++ key.shown ++ ", " ++ value.shown ++ ")"
  | set items =>
    if items.isEmpty then "set()" else "\x7b" ++ ", ".intercalate (shownAll items) ++ "\x7d"
  | map entries => "\x7b" ++ ", ".intercalate (shownEntries entries) ++ "\x7d"
termination_by structural v => v

/-- The values as they are shown in messages. -/
def shownAll : List Value → List String
  | [] => []
  | v :: vs => v.shown :: shownAll vs
termination_by structural vs => vs

/-- The entries of a mapping as they are shown in messages. -/
def shownEntries : List (Value × Value) → List String
  | [] => []
  | (k, v) :: rest => (k.shown ++ ": " ++ v.shown) :: shownEntries rest
termination_by structural es => es

end

/-- The value as text: texts and times have one, any other value is shown. -/
def toText : Value → String
  | text s => s
  | time _ s => s
  | v => v.shown

end Value

/-! ### Readers -/

/-- What is wrong with a scalar that does not have the form of its type. -/
inductive ScalarFault where
  | noTruthValue
  | noDigits
  | noNumber
  | noTime
  /-- A day or a time of day that does not exist. -/
  | noSuchTime
  deriving DecidableEq, Repr

/-- Why a document gives no value. -/
inductive ValueFault where
  /-- The text is no document, or one with parts that do not fit together. -/
  | malformed
  /-- A scalar of the document has no value. -/
  | scalar (fault : ScalarFault)
  deriving DecidableEq, Repr

/-- A reader of documents. -/
abbrev ValueReader := (text : String) → Except ValueFault Value

end TaintFlow
