import TaintFlow.Catalog.Bundled
import TaintFlow.Catalog.Points
import TaintFlow.Table

/-!
# Stores of catalogs

A store loads the catalogs of a directory and keeps them: the entry points and the common
sanitization points are read once, and so is the catalog of each family.  What was read before a
failure is kept.  How the files are read as documents is a parameter.
-/

namespace TaintFlow.Catalog

open TaintFlow.Files

/-- Where catalogs come from: a directory, or the bundled ones. -/
inductive Origin where
  | bundled
  | directory (path : String)
  deriving DecidableEq, Repr

/-- The origin for the directory that is set, if one is. -/
def Origin.ofDirectory? : Option String → Origin
  | none => bundled
  | some path => directory path

/-! ### Files -/

/-- Path of the file with the entry points. -/
def entryFile (dir : String) : String :=
  Path.join dir "entry_point.yaml"

/-- Path of the file with the exit points of a family. -/
def exitFile (dir : String) (v : Vulnerability) : String :=
  Path.join dir ("exit_point/" ++ v.key ++ ".yaml")

/-- Path of a file with sanitization points. -/
def sanitizationFile (dir name : String) : String :=
  Path.join dir ("sanitization_point/" ++ name ++ ".yaml")

section

variable (read : ValueReader) (fs : FileSystem)

/-- The mapping in a file that is there. -/
def readFile (path : String) : Except CatalogError Entries := do
  let bytes ← (fs.read path).mapError (.unreadable path)
  let some text := strictText? bytes | throw (.encoding path)
  match read text with
  | .error .malformed => throw (.malformed path)
  | .error (.scalar fault) => throw (.scalar path fault)
  | .ok (.map entries) => return entries
  | .ok _ => throw (.notMapping path)

/-- The mapping in a file that has to be there. -/
def readRequired (path : String) : Except CatalogError Entries :=
  if fs.contains path then readFile read fs path else .error (.notFound path)

/-- The entry points of a directory. -/
def readEntryPoints (dir : String) : Except CatalogError (List Pattern) := do
  let path := entryFile dir
  let entries ← section? path "entry_points" (← readRequired read fs path)
  entries.mapM (patternOf path)

/-- The exit points of a family, of which there must be one. -/
def readExitPoints (dir : String) (v : Vulnerability) : Except CatalogError (List ExitPoint) := do
  let path := exitFile dir v
  let entries ← section? path "exit_points" (← readRequired read fs path)
  let points ← entries.mapM (exitPointOf path)
  if points.isEmpty then throw (.noExitPoint path)
  return points

/-- The sanitization points in a file, none if the file is missing. -/
def readSanitizers (dir name : String) : Except CatalogError (List Pattern) := do
  let path := sanitizationFile dir name
  if fs.contains path then
    let entries ← section? path "sanitization_points" (← readFile read fs path)
    entries.mapM (patternOf path)
  else return []

end

/-! ### Stores -/

/-- What was loaded so far. -/
structure Store where
  origin : Origin := .bundled
  catalogs : Table Vulnerability Catalog := {}
  entryPoints : Option (List Pattern) := none
  commonSanitizers : Option (List Pattern) := none

/-- An operation on a store that can fail; what it kept stays. -/
abbrev Load := ExceptT CatalogError (StateM Store)

namespace Store

/-- The store without what was loaded. -/
def clear (s : Store) : Store :=
  { origin := s.origin }

/-- The result of reading, as an operation on a store. -/
def ofRead {α : Type} (result : Except CatalogError α) : Load α :=
  match result with
  | .ok a => return a
  | .error e => throw e

variable (read : ValueReader) (fs : FileSystem)

/-- Loads the entry points. -/
def loadEntryPoints : Load (List Pattern) := do
  let s ← get
  match s.origin, s.entryPoints with
  | _, some points => return points
  | .bundled, none =>
    set { s with entryPoints := some Bundled.entryPoints }
    return Bundled.entryPoints
  | .directory dir, none =>
    let points ← ofRead (readEntryPoints read fs dir)
    set { s with entryPoints := some points }
    return points

/-- Loads the exit points of a family. -/
def loadExitPoints (v : Vulnerability) : Load (List ExitPoint) := do
  match (← get).origin with
  | .bundled => return Bundled.exitPoints v
  | .directory dir => ofRead (readExitPoints read fs dir v)

/-- Loads the common sanitization points. -/
def loadCommonSanitizers : Load (List Pattern) := do
  let s ← get
  match s.origin, s.commonSanitizers with
  | _, some points => return points
  | .bundled, none =>
    set { s with commonSanitizers := some Bundled.commonSanitizers }
    return Bundled.commonSanitizers
  | .directory dir, none =>
    let points ← ofRead (readSanitizers read fs dir "common")
    set { s with commonSanitizers := some points }
    return points

/-- Loads the sanitization points of a family: the common ones, then its own. -/
def loadSanitizers (v : Vulnerability) : Load (List Pattern) := do
  let common ← loadCommonSanitizers read fs
  match (← get).origin with
  | .bundled => return common ++ Bundled.ownSanitizers v
  | .directory dir => return common ++ (← ofRead (readSanitizers read fs dir v.key))

/-- Loads the catalog of a family. -/
def load (v : Vulnerability) : Load Catalog := do
  match (← get).catalogs.get? v with
  | some catalog => return catalog
  | none =>
    let entryPoints ← loadEntryPoints read fs
    let exitPoints ← loadExitPoints read fs v
    let sanitizationPoints ← loadSanitizers read fs v
    let catalog : Catalog := { vulnerability := v, entryPoints, exitPoints, sanitizationPoints }
    modify fun s => { s with catalogs := s.catalogs.insert v catalog }
    return catalog

/-- The families that have a file with exit points. -/
def available (fs : FileSystem) (s : Store) : List Vulnerability :=
  match s.origin with
  | .bundled => Vulnerability.all
  | .directory dir => Vulnerability.all.filter fun v => fs.contains (exitFile dir v)

end Store

end TaintFlow.Catalog
