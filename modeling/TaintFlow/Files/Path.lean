/-!
# Paths

Paths are texts with `/` between their components.  The normal form of a path has no empty
components and no component `.`; the empty path is `.`.  Components `..` are kept, because what
they lead to depends on the files.
-/

namespace TaintFlow.Files.Path

/-- The components of a path, without the empty ones and those that lead nowhere. -/
def components (path : String) : List String :=
  ((path.toList.splitOn '/').map String.ofList).filter fun c => c ≠ "" && c ≠ "."

/-- What an absolute path begins with: one slash, or exactly two. -/
def anchor (path : String) : String :=
  match path.toList with
  | '/' :: '/' :: '/' :: _ => "/"
  | '/' :: '/' :: _ => "//"
  | '/' :: _ => "/"
  | _ => ""

/-- Whether a path is absolute. -/
def isAbsolute (path : String) : Bool :=
  anchor path ≠ ""

/-- A path from what it begins with and its components. -/
def ofParts (anchor : String) (components : List String) : String :=
  let text := anchor ++ String.intercalate "/" components
  if text == "" then "." else text

/-- The normal form of a path. -/
def normal (path : String) : String :=
  ofParts (anchor path) (components path)

/-- A path that starts at another one. -/
def join (base path : String) : String :=
  if isAbsolute path then normal path
  else ofParts (anchor base) (components base ++ components path)

/-- The last component of a path. -/
def name (path : String) : String :=
  (components path).getLast?.getD ""

/-- The ending of a file name from its last dot on.  A name that begins or ends with its last dot
has none. -/
def ending (path : String) : String :=
  let reversed := (name path).toList.reverse
  let after := reversed.takeWhile (· ≠ '.')
  if after.isEmpty || after.length + 1 ≥ reversed.length then ""
  else String.ofList ('.' :: after.reverse)

/-- Components without those that lead back up, given the ones before in reverse. -/
def collapse (above : List String) : List String → List String
  | [] => above.reverse
  | c :: rest => if c == ".." then collapse (above.drop 1) rest else collapse (c :: above) rest

/-- Whether a path is another one or lies below it. -/
def isUnder (base path : String) : Bool :=
  anchor base == anchor path && (components base).isPrefixOf (components path)

end TaintFlow.Files.Path
