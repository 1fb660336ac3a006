import TaintFlow.Catalog.Store
import TaintFlow.Config.Settings
import TaintFlow.Files.Glob
import TaintFlow.Java.Unit
import TaintFlow.Result
import TaintFlow.Verify
import TaintFlow.Workspace

/-!
# Scans

A scan collects the source files below a target, brings the workspace up to date with them, and
looks for each selected family of vulnerabilities.  A scanner keeps its workspace and its catalogs
from one scan to the next.  How texts are taken apart is left open: a scanner has readers for sources
and for documents.
-/

namespace TaintFlow

open TaintFlow.Code TaintFlow.Files TaintFlow.Flow

/-- Directories that are not looked into. -/
def skippedDirectories : List String :=
  [".git", ".svn", ".hg", "node_modules", "__pycache__", ".idea", ".vscode", "target", "build",
   "dist", "out", "vendor", "venv", ".venv", ".gradle", ".mvn", "bin", "obj"]

/-- Why a scan ends without a result. -/
inductive ScanFault where
  /-- Patterns that are no list, or a pattern that is no text. -/
  | badPattern
  /-- A catalog file that is not in UTF-8. -/
  | encoding (path : String)
  /-- A catalog file with a scalar that has no value. -/
  | scalar (path : String) (fault : ScalarFault)
  deriving DecidableEq, Repr

/-- The text of a fault. -/
def ScanFault.message : ScanFault → String
  | badPattern => "A pattern to exclude is no text"
  | encoding path => path ++ " is not in UTF-8"
  | scalar path _ => "A scalar in " ++ path ++ " has no value"

/-- The fault in which an error of loading ends, if it is not one of the catalog. -/
def ScanFault.ofCatalogError? : CatalogError → Option ScanFault
  | .encoding path => some (.encoding path)
  | .scalar path fault => some (.scalar path fault)
  | _ => none

/-! ### Collecting files -/

namespace Collect

variable (c : Config) (patterns : List Value)

/-- Whether one of the patterns matches a path. -/
def isExcluded (path : String) : List Value → Except ScanFault Bool
  | [] => .ok false
  | .text p :: rest => if globMatches p path then .ok true else isExcluded path rest
  | _ :: _ => .error .badPattern

/-- The size of a file; links to nothing and directories have none. -/
def sizeOf? : Entry → Option Nat
  | .file bytes => some bytes.size
  | .unreadable => some 0
  | .brokenLink => none
  | .directory _ => none

/-- Whether a file is scanned. -/
def isScanned (path : String) (entry : Entry) : Except ScanFault Bool :=
  if !hasEnding c.endings path then .ok false
  else
    match sizeOf? entry with
    | none => .ok false
    | some n =>
      if n > c.maxFileSize then .ok false
      else (isExcluded path patterns).map (!·)

/-- The files among the entries of a directory that are scanned. -/
def filesIn (dir : String) : List (String × Entry) → Except ScanFault (List String)
  | [] => .ok []
  | (name, entry) :: rest => do
    let path := Path.join dir name
    let this ← isScanned c patterns path entry
    let others ← filesIn dir rest
    return if this then path :: others else others

mutual

/-- The files of a directory and of the directories in it that are scanned. -/
def under (dir : String) : Entry → Except ScanFault (List String)
  | .directory entries => do
    let files ← filesIn c patterns dir entries
    let deeper ← underAll dir entries
    return files ++ deeper
  | _ => .ok []
termination_by structural e => e

/-- The files of the directories among the entries that are scanned. -/
def underAll (dir : String) : List (String × Entry) → Except ScanFault (List String)
  | [] => .ok []
  | (name, entry) :: rest => do
    let files ←
      if skippedDirectories.contains name then .ok [] else under (Path.join dir name) entry
    let others ← underAll dir rest
    return files ++ others
termination_by structural es => es

end

/-- The files that are scanned for a target: the target itself, or those below it. -/
def files (fs : FileSystem) (target : String) : Except ScanFault (List String) :=
  match fs.entry target with
  | .error _ => .ok []
  | .ok (.directory entries) => under c patterns target (.directory entries)
  | .ok entry => do
    return if ← isScanned c patterns target entry then [target] else []

end Collect

/-! ### Scanners -/

/-- The readers that a scan depends on. -/
structure Readers where
  source : Java.TreeReader
  document : ValueReader

/-- A scanner with what it keeps between scans. -/
structure Scanner where
  readers : Readers
  config : Config
  store : Catalog.Store
  workspace : Workspace := {}
  metrics : Metrics := {}

namespace Scanner

/-- A scanner that has not scanned yet. -/
def new (readers : Readers) (config : Config) : Scanner where
  readers
  config
  store := { origin := .ofDirectory? config.catalogDir }

/-- The reader of source texts. -/
def reader (s : Scanner) : UnitReader Java.Fault :=
  Java.unitWith s.readers.source s.config.directive

/-- Forgets the units of files under the target that are not among the collected ones. -/
def dropVanished (w : Workspace) (target : String) (files : List String) : Workspace :=
  w.graph.unitPaths.foldl (fun w unit =>
    if Path.isUnder target unit && !files.contains unit then w.removeUnit unit else w) w

/-- The texts of the files that can be read, and messages about the others. -/
def readTexts (fs : FileSystem) : List String → List (String × String) × List String
  | [] => ([], [])
  | path :: rest =>
    let (texts, errors) := readTexts fs rest
    match fs.read path with
    | .ok bytes => ((path, anyText bytes) :: texts, errors)
    | .error _ => (texts, ("Failed to read " ++ path) :: errors)

/-- The progress of looking for families of vulnerabilities. -/
structure Search where
  store : Catalog.Store
  metrics : Metrics
  findings : List Finding := []
  checked : List String := []
  errors : List String := []
  cancellation : Cancellation

/-- Looks for one family.  A catalog that cannot be used is reported. -/
def searchOne (read : ValueReader) (fs : FileSystem) (c : Config) (w : Workspace)
    (units : List String) (v : Vulnerability) (s : Search) : Search × Option ScanFault :=
  match (Catalog.Store.load read fs v).run.run s.store with
  | (.error e, store) =>
    match ScanFault.ofCatalogError? e with
    | some fault => ({ s with store }, some fault)
    | none =>
      ({ s with store, errors := s.errors ++ [v.displayName ++ ": " ++ e.message] }, none)
  | (.ok catalog, store) =>
    let engine : Engine :=
      { graph := w.graph, catalog, trusted := w.trusted, maxDepth := c.maxDepth }
    let o := Verify.run engine units s.cancellation
    let metrics := (s.metrics.record ("verify." ++ v.key) 0.0).increment "problems" o.reported
    ({ s with
        store
        metrics
        findings := s.findings ++ o.findings
        checked := s.checked ++ [v.key]
        cancellation := o.cancellation }, none)

/-- Looks for the families, one after the other.  Before each of them the cancellation token is
asked. -/
def search (read : ValueReader) (fs : FileSystem) (c : Config) (w : Workspace)
    (units : List String) : List Vulnerability → Search → Search × Option ScanFault
  | [], s => (s, none)
  | v :: vs, s =>
    let (stop, token) := s.cancellation.poll
    let s := { s with cancellation := token }
    if stop then (s, none)
    else
      match searchOne read fs c w units v s with
      | (s, none) => search read fs c w units vs s
      | stopped => stopped

/-- Scans the collected files. -/
def scanFiles (s : Scanner) (fs : FileSystem) (target : String) (files : List String)
    (cancellation : Cancellation) : Scanner × Except ScanFault ScanResult :=
  let workspace := dropVanished s.workspace target files
  let (texts, unread) := readTexts fs files
  let b : Workspace.Build :=
    { workspace
      texts := texts.foldl (fun t (path, text) => t.insert path text) {}
      cancellation }
  let b := b.run s.reader fs s.config.endings (texts.map (·.1))
  let metrics := (({} : Metrics).record "parse" 0.0).increment "units" b.updated.length
  let start : Search := { store := s.store, metrics, cancellation := b.cancellation }
  let (found, fault) :=
    search s.readers.document fs s.config b.workspace b.updated s.config.selected start
  let s := { s with store := found.store, workspace := b.workspace, metrics := found.metrics }
  match fault with
  | some f => (s, .error f)
  | none =>
    let result : ScanResult :=
      { target
        findings := found.findings
        filesScanned := b.updated.length
        checked := found.checked
        errors := unread ++ b.workspace.errors ++ found.errors
        cancelled := found.cancellation.poll.1
        metrics := found.metrics }
    (s, .ok result.sorted)

/-- Scans a target, except for files that match a pattern. -/
def scan (s : Scanner) (fs : FileSystem) (path : String) (excludes : List Value)
    (cancellation : Cancellation) : Scanner × Except ScanFault ScanResult :=
  let target := fs.resolve path
  if !fs.contains target then
    (s, .ok { target, errors := ["Target path does not exist: " ++ target] })
  else
    let s := { s with metrics := {}, workspace := { s.workspace with errors := [] } }
    match s.config.excludes.items? with
    | none => (s, .error .badPattern)
    | some own =>
      match Collect.files s.config (own ++ excludes) fs target with
      | .error f => (s, .error f)
      | .ok files => s.scanFiles fs target files cancellation

end Scanner

end TaintFlow
