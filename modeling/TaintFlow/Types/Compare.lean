/-!
# Comparison of type names

Type names may be qualified or simple.  Two names agree when they are equal, or when at least one
of them is simple and their last components are equal.  An argument type matches a declared type
when nothing that is known of it speaks against it.
-/

namespace TaintFlow.Types

/-- The root of the class hierarchy. -/
def objectType : String := "java.lang.Object"

/-- The type of string literals. -/
def stringType : String := "java.lang.String"

/-- The type of the null literal. -/
def nullType : String := "null"

/-- Types without reference values. -/
def primitiveTypes : List String :=
  ["boolean", "byte", "char", "short", "int", "long", "float", "double", "void"]

/-- Simple names of types that need no import. -/
def languageTypes : List String :=
  ["Boolean", "Byte", "Character", "Class", "ClassLoader", "Double", "Enum", "Exception", "Float",
   "Integer", "Iterable", "Long", "Math", "Number", "Object", "Process", "ProcessBuilder",
   "Runnable", "Runtime", "RuntimeException", "Short", "StrictMath", "String", "StringBuffer",
   "StringBuilder", "System", "Thread", "Throwable", "Void"]

/-- Whether a type accepts every argument. -/
def isObject (type : String) : Bool :=
  type == "Object" || type == objectType

/-- The characters after the last dot. -/
def afterLastDot (cs : List Char) : List Char :=
  (cs.reverse.takeWhile (· ≠ '.')).reverse

/-- The last component of a type name. -/
def simpleName (type : String) : String :=
  String.ofList (afterLastDot type.toList)

/-- Whether a type name has more than one component. -/
def isQualified (type : String) : Bool :=
  type.toList.contains '.'

/-- Whether two names may denote the same type. -/
def same (first second : String) : Bool :=
  first == second ||
    (!(isQualified first && isQualified second) && simpleName first == simpleName second)

/-- Whether an argument of static type `actual` may be passed where `expected` is declared. -/
def accepts (expected : String) (actual : Option String) : Bool :=
  isObject expected ||
    match actual with
    | none => true
    | some type =>
      if type == nullType then !primitiveTypes.contains expected else same expected type

end TaintFlow.Types
