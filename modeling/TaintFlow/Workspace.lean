import TaintFlow.Cancellation
import TaintFlow.CallGraph
import TaintFlow.Files.Basic
import TaintFlow.Text.Case
import TaintFlow.TrustedLines

/-!
# Workspaces

The call graph and the trusted lines of a set of source files, kept up to date with them.  How a
text becomes a unit is a parameter: a reader, which may fail.
-/

namespace TaintFlow

open TaintFlow.Code TaintFlow.Files

/-- A reader of source texts. -/
abbrev UnitReader (ε : Type) := (path text : String) → Except ε SourceUnit

/-- What is known of a set of source files. -/
structure Workspace where
  graph : CallGraph := .empty
  trusted : TrustedLines := .empty
  /-- Messages about files that could not be used. -/
  errors : List String := []

/-- The endings of source files when no other are set. -/
def defaultEndings : List String := [".java"]

/-- Whether a file has one of the endings, in any case. -/
def hasEnding (endings : List String) (path : String) : Bool :=
  let endings := if endings.isEmpty then defaultEndings else endings
  (endings.map Text.lower).contains (Text.lower (Path.ending path))

namespace Workspace

/-- Forgets a unit. -/
def removeUnit (w : Workspace) (path : String) : Workspace :=
  { w with trusted := w.trusted.removeUnit path, graph := w.graph.removeUnit path }

/-- Replaces a unit. -/
def replaceUnit (w : Workspace) (unit : SourceUnit) : Workspace :=
  { w with
    graph := w.graph.replaceUnit unit
    trusted := w.trusted.replaceUnit unit.path unit.trustedLines }

/-- Adds a message. -/
def addError (w : Workspace) (message : String) : Workspace :=
  { w with errors := w.errors ++ [message] }

section

variable {ε : Type} (read : UnitReader ε)

/-- Reads a text and replaces its unit.  A unit that cannot be read is forgotten. -/
def update (w : Workspace) (path text : String) : Workspace × Option SourceUnit :=
  match read path text with
  | .error _ => ((w.addError ("Failed to parse " ++ path ++ ": " ++ detail)).removeUnit path, none)
  | .ok unit => (w.replaceUnit unit, some unit)

/-- The progress of building from files. -/
structure Build where
  workspace : Workspace
  /-- Texts of files by path. -/
  texts : Table String String
  /-- Units that were replaced. -/
  updated : List String := []
  cancellation : Cancellation := .never

/-- The text of a file, from the texts at hand or else from the files, which then joins them. -/
def Build.text (b : Build) (fs : FileSystem) (path : String) :
    Except Files.Fault (String × Build) :=
  match b.texts.get? path with
  | some text => .ok (text, b)
  | none =>
    match fs.read path with
    | .error f => .error f
    | .ok bytes =>
      let text := lenientText bytes
      .ok (text, { b with texts := b.texts.insert path text })

/-- Builds from one file. -/
def Build.step (fs : FileSystem) (b : Build) (path : String) : Build :=
  match b.text fs path with
  | .error f =>
    let message := "Failed to read " ++ path ++ ": " ++ f.message path
    { b with workspace := b.workspace.addError message }
  | .ok (text, b) =>
    let (workspace, unit) := b.workspace.update read path text
    { b with workspace, updated := if unit.isSome then b.updated ++ [path] else b.updated }

/-- Builds from files, one after the other.  Before each of them the cancellation token is asked;
files without one of the endings are passed over. -/
def Build.run (fs : FileSystem) (endings : List String) : List String → Build → Build
  | [], b => b
  | path :: paths, b =>
    let (stop, token) := b.cancellation.poll
    let b := { b with cancellation := token }
    if stop then b
    else if hasEnding endings path then Build.run fs endings paths (b.step read fs path)
    else Build.run fs endings paths b

end

end Workspace

end TaintFlow
