import TaintFlow.Catalog.Basic
import TaintFlow.Catalog.Error
import TaintFlow.Text.Blank
import TaintFlow.Text.Case
import TaintFlow.Types.Erasure

/-!
# Points from values

The points that the sections of a catalog file list.  A value that counts as absent is as good as
none; any other value of a name is taken as text.
-/

namespace TaintFlow.Catalog

open TaintFlow.Code

/-- The entries of a mapping. -/
abbrev Entries := List (Value × Value)

/-- The value at a key, if it counts as present. -/
def present? (key : String) (entries : Entries) : Option Value :=
  match Value.get? key entries with
  | some v => if v.isPresent then some v else none
  | none => none

/-- The entries of a section: a list of mappings. -/
def section? (path key : String) (file : Entries) : Except CatalogError (List Entries) :=
  match present? key file with
  | none => .ok []
  | some (.list items) => items.mapM entryOf
  | some _ => .error (.notList key path)
where
  /-- An entry of the section. -/
  entryOf : Value → Except CatalogError Entries
    | .map entries => .ok entries
    | v => .error (.badEntry path v)

/-- The parameters of an entry. -/
def parametersOf (path : String) (entry : Entries) : Except CatalogError (List Value) :=
  match present? "parameters" entry with
  | none => .ok []
  | some (.list items) => .ok items
  | some _ =>
    .error (.badParameters ((Value.get? "methodName" entry).getD .null).toText path)

/-- The type of a parameter. -/
def parameterType (path method : String) : Value → Except CatalogError String
  | .text s => .ok (Types.erase s)
  | .map entries =>
    match present? "type" entries with
    | some type => .ok (Types.erase type.toText)
    | none => .error (.badParameter method path)
  | _ => .error (.badParameter method path)

/-- The pattern of an entry. -/
def patternOf (path : String) (entry : Entries) : Except CatalogError Pattern := do
  match present? "qualifiedName" entry, present? "methodName" entry with
  | some type, some method =>
    let parameters ← parametersOf path entry
    let types ← parameters.mapM (parameterType path (type.toText ++ "." ++ method.toText))
    return ⟨type.toText, method.toText, types⟩
  | _, _ => throw (.unnamed path (.map entry))

/-- The number of a category: given as such, or by its name. -/
def categoryOf (path : String) : Value → Except CatalogError Int
  | .int n => .ok n
  | .text s =>
    match Kind.ofLabel? (Text.upper (Text.trim s)) with
    | some k => .ok k.code
    | none => .error (.badRule path (.text s))
  | v => .error (.badRule path v)

/-- The word for a parameter of no concern. -/
def ignoreWord : String := "ignore"

/-- The rule that a value gives: the word for no concern, a category or a list of categories. -/
def ruleOf (path : String) (value : Value) : Except CatalogError Rule :=
  let isIgnored : Bool :=
    match value with
    | .text s => Text.lower (Text.trim s) == ignoreWord
    | _ => false
  if isIgnored then .ok .ignored
  else
    let values :=
      match value with
      | .list items => items
      | v => [v]
    (values.mapM (categoryOf path)).map fun accepted => { accepted }

/-- The rule of a parameter of an exit point. -/
def parameterRule (path method : String) : Value → Except CatalogError Rule
  | .map entries => ruleOf path ((Value.get? "rules" entries).getD (.text ignoreWord))
  | v => .error (.noRules method path v)

/-- The exit point of an entry, with one rule for each parameter. -/
def exitPointOf (path : String) (entry : Entries) : Except CatalogError ExitPoint := do
  let pattern ← patternOf path entry
  let parameters ← parametersOf path entry
  let rules ← parameters.mapM (parameterRule path pattern.toText)
  return ⟨pattern, rules⟩

end TaintFlow.Catalog
