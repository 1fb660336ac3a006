import TaintFlow.Text.Case
import TaintFlow.Text.Integer
import TaintFlow.Yaml.Node
import TaintFlow.Yaml.Time

/-!
# Values from YAML

The value that a document stands for.  A plain scalar stands for a truth value, a number, a time or
nothing if it has one of their forms, and otherwise for its text.  Keys of a mapping are scalars; of
two entries with equal keys the later value counts, in the place of the earlier one.
-/

namespace TaintFlow.Yaml

/-! ### Scalars -/

/-- What a plain scalar stands for. -/
def plainValue (text : String) : Except ValueFault Value :=
  match bool? text, float? text, int? text, moment? text with
  | some b, _, _, _ => .ok (.bool b)
  | none, some x, _, _ => .ok (.float x)
  | none, none, some n, _ => n.map Value.int
  | none, none, none, some m =>
    -- a day without a time of day is written with all its digits
    if m.clock.isSome || text.length == 10 then m.value else .ok (.text text)
  | none, none, none, none => .ok (if isNull text then .null else .text text)

/-- The number that a text has to show. -/
def intOf (text : String) : Except ValueFault Int :=
  match int? text, Text.integer? (String.ofList (text.toList.filter (· ≠ '_'))) with
  | some n, _ => n
  | none, some n => .ok n
  | none, none => .error (.scalar (if text == "" then .noDigits else .noNumber))

/-- The value of a scalar with a tag for its type. -/
def typedScalar (text : String) : (type : String) → Except ValueFault Value
  | "str" => .ok (.text text)
  | "null" => .ok .null
  | "bool" =>
    match bool? (Text.lower text) with
    | some b => .ok (.bool b)
    | none => .error (.scalar .noTruthValue)
  | "int" => (intOf text).map Value.int
  | "float" =>
    match float? text with
    | some x => .ok (.float x)
    | none => (intOf text).map fun n => .float (Float.ofInt n)
  | "timestamp" =>
    match moment? text with
    | some m => m.value
    | none => .error (.scalar .noTime)
  | _ => .error .malformed

/-! ### Mappings -/

/-- Whether two values are equal as keys: numbers are equal if they have the same size. -/
def sameKey : Value → Value → Bool
  | .null, .null => true
  | .text s, .text t => s == t
  | .time s _, .time t _ => s == t
  | a, b =>
    match asNumber? a, asNumber? b with
    | some (.inl m), some (.inl n) => m == n
    | some (.inl m), some (.inr y) => Float.ofInt m == y
    | some (.inr x), some (.inl n) => x == Float.ofInt n
    | some (.inr x), some (.inr y) => x == y
    | _, _ => false
where
  /-- A number, or a truth value as one. -/
  asNumber? : Value → Option (Int ⊕ Float)
    | .bool b => some (.inl (if b then 1 else 0))
    | .int n => some (.inl n)
    | .float x => some (.inr x)
    | _ => none

/-- Whether a value can be a key. -/
def isKey : Value → Bool
  | .list _ => false
  | .map _ => false
  | _ => true

/-- The entries with the value at a key replaced or added. -/
def setEntry (key value : Value) : List (Value × Value) → List (Value × Value)
  | [] => [(key, value)]
  | (k, v) :: rest =>
    if sameKey k key then (k, value) :: rest else (k, v) :: setEntry key value rest

/-- What the tags of the basic types are short for. -/
def basicTag? (tag : String) : Option String :=
  let long := "tag:yaml.org,2002:"
  if tag.startsWith "!!" then some (tag.drop 2).toString
  else if tag.startsWith ("!<" ++ long) && tag.endsWith ">" then
    some ((tag.drop (long.length + 2)).dropEnd 1).toString
  else none

/-- The value of a scalar with a tag. -/
def taggedScalar (text tag : String) : Except ValueFault Value :=
  if tag == "!" then plainValue text
  else
    match basicTag? tag with
    | some type => typedScalar text type
    | none => .error .malformed

/-- Whether a collection may have a tag. -/
def fitsTag (tag : Option String) (type : String) : Bool :=
  match tag with
  | none => true
  | some t => t == "!" || basicTag? t == some type

/-- Whether a node is the key that stands for the entries of other mappings. -/
def isMerge : Node → Bool
  | .scalar "<<" true none => true
  | _ => false

/-- The mappings that a merge key brings in, the most important one last. -/
def merged : Value → Except ValueFault (List (Value × Value))
  | .map entries => .ok entries
  | .list items => (items.reverse.mapM entriesOf).map List.flatten
  | _ => .error .malformed
where
  /-- The entries of a mapping. -/
  entriesOf : Value → Except ValueFault (List (Value × Value))
    | .map entries => .ok entries
    | _ => .error .malformed

/-- The mapping of entries, of which those brought in from other mappings come first. -/
def mappingOf (entries : List (Bool × Value × Value)) : Except ValueFault Value := do
  let foreign ← (entries.filter (·.1)).mapM fun e => merged e.2.2
  let own := (entries.filter (!·.1)).map (·.2)
  let all := foreign.reverse.flatten ++ own
  if all.all (isKey ·.1) then
    return .map (all.foldl (fun es (k, v) => setEntry k v es) [])
  else throw .malformed

mutual

/-- The value of a node. -/
def valueOf : Node → Except ValueFault Value
  | .scalar text isPlain none =>
    if !isPlain then .ok (.text text)
    else if text == "=" || text == "<<" then .error .malformed
    else plainValue text
  | .scalar text _ (some tag) => taggedScalar text tag
  | .sequence items tag =>
    if fitsTag tag "seq" then (valuesOf items).map Value.list else .error .malformed
  | .mapping entries tag =>
    if fitsTag tag "map" then (entriesOf entries).bind mappingOf else .error .malformed
termination_by structural n => n

/-- The values of nodes. -/
def valuesOf : List Node → Except ValueFault (List Value)
  | [] => .ok []
  | n :: ns => do
    let v ← valueOf n
    let vs ← valuesOf ns
    return v :: vs
termination_by structural ns => ns

/-- The keys and values of entries, with a mark for merge keys. -/
def entriesOf : List (Node × Node) → Except ValueFault (List (Bool × Value × Value))
  | [] => .ok []
  | (k, v) :: rest => do
    let key ←
      match k with
      | .scalar "<<" true none => .ok .null
      | .scalar "=" true none => .ok (.text "=")
      | k => valueOf k
    let value ← valueOf v
    let others ← entriesOf rest
    return (isMerge k, key, value) :: others
termination_by structural es => es

end

/-- The value of the only document of a text, null if there is none. -/
def value : ValueReader := fun text =>
  match root? text with
  | none => .error .malformed
  | some none => .ok .null
  | some (some node) => valueOf node

end TaintFlow.Yaml
