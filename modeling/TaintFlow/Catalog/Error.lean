import TaintFlow.Files.Basic
import TaintFlow.Value

/-!
# Catalog errors

Why the files of a catalog cannot be used, and what is said about it.
-/

namespace TaintFlow

/-- Why a catalog cannot be used.  Each error names the file. -/
inductive CatalogError where
  | notFound (path : String)
  | unreadable (path : String) (fault : Files.Fault)
  | malformed (path : String)
  | notMapping (path : String)
  | notList (key path : String)
  | badEntry (path : String) (entry : Value)
  | unnamed (path : String) (entry : Value)
  | badParameters (method path : String)
  | badParameter (method path : String)
  | noRules (method path : String) (parameter : Value)
  | badRule (path : String) (value : Value)
  | noExitPoint (path : String)
  /-- A file that is not in UTF-8. -/
  | encoding (path : String)
  /-- A file with a scalar that has no value. -/
  | scalar (path : String) (fault : ScalarFault)

namespace CatalogError

/-- The text of an error.  `detail` is the text of a failure to use a file. -/
def messageWith (detail : String → Files.Fault → String) : CatalogError → String
  | notFound path => "Catalog file not found: " ++ path
  | unreadable path fault => "Failed to read catalog " ++ path ++ ": " ++ detail path fault
  | malformed path => "Failed to read catalog " ++ path ++ ": " ++ Files.detail
  | notMapping path => "Catalog " ++ path ++ " must be a mapping"
  | notList key path => "'" ++ key ++ "' in " ++ path ++ " must be a list"
  | badEntry path entry => "Malformed entry in " ++ path ++ ": " ++ entry.shown
  | unnamed path entry =>
    "Entry in " ++ path ++ " needs qualifiedName and methodName: " ++ entry.shown
  | badParameters method path => "'parameters' of " ++ method ++ " in " ++ path ++ " must be a list"
  | badParameter method path => "Malformed parameter of " ++ method ++ " in " ++ path
  | noRules method path parameter =>
    "Exit point " ++ method ++ " in " ++ path ++ " needs type and rules for every parameter: "
      ++ parameter.shown
  | badRule path value => "Invalid rule value " ++ value.shown ++ " in " ++ path
  | noExitPoint path => "No exit points defined in " ++ path
  | encoding path => path ++ " is not in UTF-8"
  | scalar path _ => "A scalar in " ++ path ++ " has no value"

/-- The text of an error. -/
def message (e : CatalogError) : String :=
  e.messageWith fun path fault => fault.message path

/-- Whether an error is one of the catalog itself: a scan goes on without it. -/
def isOfCatalog : CatalogError → Bool
  | encoding _ => false
  | scalar _ _ => false
  | _ => true

end CatalogError

end TaintFlow
