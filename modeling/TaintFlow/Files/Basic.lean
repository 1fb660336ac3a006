import TaintFlow.Files.Path
import TaintFlow.Text.Quoted
import TaintFlow.Text.Utf8

/-!
# Files

The state of a file system as a tree of directories, with the operations that a scan uses.  The
entries of a directory are kept in the order of their names.
-/

namespace TaintFlow.Files

/-- An entry of a directory. -/
inductive Entry where
  | file (bytes : ByteArray)
  /-- A file of size zero that cannot be read. -/
  | unreadable
  /-- A link to nothing. -/
  | brokenLink
  | directory (entries : List (String × Entry))

/-- Why a file cannot be used. -/
inductive Fault where
  | notFound
  | notDirectory
  | isDirectory
  | notReadable
  deriving DecidableEq, Repr

/-- The text of a failure to use the file at a path. -/
def Fault.message (path : String) : Fault → String
  | notFound => "[Errno 2] No such file or directory: " ++ Text.quoted path
  | notDirectory => "[Errno 20] Not a directory: " ++ Text.quoted path
  | isDirectory => "[Errno 21] Is a directory: " ++ Text.quoted path
  | notReadable => "[Errno 5] Input/output error"

/-- Stands in messages for what is wrong inside a file. -/
def detail : String := "<detail>"

/-- A file system and the directory that relative paths start at. -/
structure FileSystem where
  root : Entry := .directory []
  /-- Components of the current directory. -/
  here : List String := []

namespace Entry

/-- The entry with a name. -/
def child? (name : String) : List (String × Entry) → Option Entry
  | [] => none
  | (n, e) :: rest => if n = name then some e else child? name rest

/-- The entries with one of them put in its place or replaced. -/
def insert (name : String) (entry : Entry) : List (String × Entry) → List (String × Entry)
  | [] => [(name, entry)]
  | (n, e) :: rest =>
    if n = name then (name, entry) :: rest
    else if name < n then (name, entry) :: (n, e) :: rest
    else (n, e) :: insert name entry rest

/-- The entries without the one with a name. -/
def remove (name : String) (entries : List (String × Entry)) : List (String × Entry) :=
  entries.filter fun e => e.1 ≠ name

/-- What a directory holds; anything else holds nothing. -/
def inside : Entry → List (String × Entry)
  | directory entries => entries
  | _ => []

/-- Follows the components of a path.  `above` are the directories that lead to the entry. -/
def follow (above : List Entry) (entry : Entry) : List String → Except Fault Entry
  | [] =>
    match entry with
    | brokenLink => .error .notFound
    | _ => .ok entry
  | c :: rest =>
    match entry with
    | directory entries =>
      if c == ".." then
        match above with
        | [] => follow [] entry rest
        | parent :: above => follow above parent rest
      else
        match child? c entries with
        | none => .error .notFound
        | some e => follow (entry :: above) e rest
    | brokenLink => .error .notFound
    | _ => .error .notDirectory

/-- Puts an entry at a path; directories on the way are made. -/
def putAt (new : Entry) : List String → Entry → Entry
  | [], _ => new
  | c :: rest, entry =>
    let entries := entry.inside
    directory (insert c (putAt new rest ((child? c entries).getD (directory []))) entries)

/-- Removes the entry at a path. -/
def removeAt : List String → Entry → Entry
  | [], entry => entry
  | [c], entry => directory (remove c entry.inside)
  | c :: rest, entry =>
    match child? c entry.inside with
    | none => entry
    | some e => directory (insert c (removeAt rest e) entry.inside)

end Entry

namespace FileSystem

variable (fs : FileSystem)

/-- The components of a path from the root on. -/
def fromRoot (path : String) : List String :=
  if Path.isAbsolute path then Path.components path else fs.here ++ Path.components path

/-- The entry at a path. -/
def entry (path : String) : Except Fault Entry :=
  Entry.follow [] fs.root (fs.fromRoot path)

/-- Whether there is something at a path. -/
def contains (path : String) : Bool :=
  (fs.entry path).isOk

/-- The bytes of the file at a path. -/
def read (path : String) : Except Fault ByteArray :=
  match fs.entry path with
  | .error f => .error f
  | .ok (.file bytes) => .ok bytes
  | .ok (.directory _) => .error .isDirectory
  | .ok _ => .error .notReadable

/-- The absolute path of a path without components that lead back up. -/
def resolve (path : String) : String :=
  Path.ofParts "/" (Path.collapse [] (fs.fromRoot path))

/-- Puts an entry at a path; directories on the way are made. -/
def put (path : String) (new : Entry) : FileSystem :=
  { fs with root := Entry.putAt new (fs.fromRoot path) fs.root }

/-- Removes what is at a path. -/
def remove (path : String) : FileSystem :=
  { fs with root := Entry.removeAt (fs.fromRoot path) fs.root }

/-- Writes a file into a directory that is there. -/
def write (path : String) (bytes : ByteArray) : Except Fault FileSystem :=
  let components := Path.collapse [] (fs.fromRoot path)
  match Entry.follow [] fs.root ((fs.fromRoot path).dropLast) with
  | .error f => .error f
  | .ok (.directory entries) =>
    match Entry.child? (components.getLast?.getD "") entries with
    | some (.directory _) => .error .isDirectory
    | _ => .ok { fs with root := Entry.putAt (.file bytes) components fs.root }
  | .ok _ => .error .notDirectory

end FileSystem

/-! ### Texts of files -/

/-- The text of a file in UTF-8, without what is no UTF-8. -/
def lenientText (bytes : ByteArray) : String :=
  Text.withUnixLines (Text.utf8Lenient bytes.toList)

/-- The text of a file in UTF-8, if it is. -/
def strictText? (bytes : ByteArray) : Option String :=
  (Text.utf8Strict? bytes.toList).map Text.withUnixLines

/-- The text of a file in UTF-8, or else in Latin-1. -/
def anyText (bytes : ByteArray) : String :=
  (strictText? bytes).getD (Text.withUnixLines (Text.latin1 bytes.toList))

end TaintFlow.Files
