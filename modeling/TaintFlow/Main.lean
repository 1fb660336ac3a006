import Std.Time
import TaintFlow.CommandLine.Run
import TaintFlow.Readers

/-!
# The program

Loads the files that a run may look at, runs it and shows what it answers.  All decisions are in
`TaintFlow.CommandLine.Run`.
-/

namespace TaintFlow.CommandLine

open TaintFlow.Files

/-- What is at a path: a link to a directory inside a tree is left out. -/
partial def entryAt (path : String) : IO Entry := do
  let place ← IO.FS.realPath path
  if ← place.isDir then
    let found ← place.readDir
    let entries ← found.toList.filterMapM fun child => do
      let kind := (← child.path.symlinkMetadata).type
      if kind == .symlink && (← child.path.isDir) then return none
      else if kind == .symlink && !(← child.path.pathExists) then
        return some (child.fileName, Entry.brokenLink)
      else return some (child.fileName, ← entryAt (path ++ "/" ++ child.fileName))
    return .directory (entries.foldl (fun es (name, e) => Entry.insert name e es) [])
  else
    try return .file (← IO.FS.readBinFile path)
    catch _ => return .unreadable

/-- Loads what is at a path, if there is something. -/
def loaded (fs : FileSystem) (path : String) : IO FileSystem := do
  try
    if ← (← IO.FS.realPath path).pathExists then return fs.put (fs.resolve path) (← entryAt path)
    else return fs
  catch _ => return fs

/-- Loads the directory of a file that may be written, without what is in it. -/
def withPlaceOf (fs : FileSystem) (path : String) : IO FileSystem := do
  let place := fs.resolve path
  let parent := fs.resolve (path ++ "/..")
  let known (fs : FileSystem) (dir : String) : IO FileSystem := do
    try
      if !fs.contains dir && (← (← IO.FS.realPath dir).isDir) then
        return fs.put dir (.directory [])
      else return fs
    catch _ => return fs
  known (← known fs parent) place

/-- The variables of the environment that a configuration looks at. -/
def environment : IO Config.Environment := do
  [Config.catalogVariable, Config.depthVariable].filterMapM fun name => do
    return (← IO.getEnv name).map fun value => (name, value)

/-- The files that a run may look at. -/
def filesFor (a : Arguments) (env : Config.Environment) : IO FileSystem := do
  let here := Path.components (← IO.currentDir).toString
  let empty : FileSystem := { here }
  let start := empty.put (Path.ofParts "/" here) (.directory [])
  let named := (a.target.toList ++ a.config.toList ++ a.catalogDir.toList).filter (· ≠ "")
  let fs ← named.foldlM loaded start
  let fs ←
    match Config.create Readers.standard.document fs env (configOptions a) with
    | .ok { catalogDir := some dir, .. } => loaded fs dir
    | _ => pure fs
  a.output.toList.foldlM withPlaceOf fs

/-- The current time as reports show it. -/
def timestamp : IO String := do
  return (← Std.Time.PlainDateTime.now).format "uuuu-MM-dd'T'HH:mm:ss.SSSSSS"

/-- Shows what a run answers, and its exit code. -/
def conclude (o : Outcome) : IO UInt32 := do
  (← IO.getStdout).putStr o.printed
  (← IO.getStderr).putStr o.complaint
  match o.ending with
  | .exit code => return code.toUInt32
  | .usage code => return code.toUInt32
  | .crash e => throw (IO.userError e.message)

/-- Runs the program on its arguments. -/
def execute (texts : List String) : IO UInt32 := do
  let env ← environment
  let arguments := (Arguments.ofTexts texts).toOption.getD {}
  let files ← filesFor arguments env
  let w : World :=
    { readers := .standard, files, environment := env, isTerminal := ← (← IO.getStdout).isTty,
      timestamp := ← timestamp }
  let start ← IO.monoNanosNow
  let progress ← IO.lazyPure fun _ => prepare w texts
  let stop ← IO.monoNanosNow
  match progress with
  | .inl o => conclude o
  | .inr (a, r) =>
    let duration := Float.ofNat (stop - start) / 1000000000.0
    let o := report w a { r with duration }
    if let some path := a.output.filter (· ≠ "") then
      if let .ok bytes := o.files.read path then IO.FS.writeBinFile path bytes
    conclude o

end TaintFlow.CommandLine

/-- The program. -/
def main (texts : List String) : IO UInt32 :=
  TaintFlow.CommandLine.execute texts
