import TaintFlow.Config.Settings
import TaintFlow.Text.Integer

/-!
# Configurations

The settings of a scan come from defaults, a file, the environment and options, of which the later
ones count more.

* `Config.ofMap`, `Config.ofFile` and `Config.load` read settings,
* `Config.withEnvironment` and `Config.withOptions` replace some of them.
-/

namespace TaintFlow

open TaintFlow.Files

namespace Config

/-- The configuration without any settings. -/
def default : Except ConfigError Config :=
  ({} : Settings).check

/-- The configuration that the entries of a mapping give. -/
def ofMap (entries : List (Value × Value)) : Except ConfigError Config :=
  let isKnown (key : Value) : Bool := key.text?.any Settings.names.contains
  let unknown := (entries.map (·.1)).filter fun k => !isKnown k
  if unknown.isEmpty then (Settings.ofEntries entries).check
  else
    match unknown.mapM Value.text? with
    | some keys => .error (.unknownKeys (keys.mergeSort fun a b => !decide (b < a)))
    | none => .error .badType

/-- The configuration that a file gives.  `read` reads it as a document. -/
def ofFile (read : ValueReader) (fs : FileSystem) (file : String) : Except ConfigError Config := do
  let path := Path.normal file
  let bytes ← (fs.read path).mapError (.unreadable path)
  let some text := strictText? bytes | throw (.encoding path)
  let entries ←
    match read text with
    | .error .malformed => throw (.malformed path)
    | .error (.scalar fault) => throw (.scalar path fault)
    | .ok .null => pure []
    | .ok (.map entries) => pure entries
    | .ok _ => throw (.notMapping path)
  match ofMap entries with
  | .error .badType => .error (.badFile path)
  | result => result

/-! ### Layers -/

/-- Variables of the environment. -/
abbrev Environment := List (String × String)

/-- The value of a variable that is set to something. -/
def lookup? (environment : Environment) (name : String) : Option String :=
  match environment.find? (·.1 == name) with
  | some (_, text) => if text == "" then none else some text
  | none => none

/-- The variable for the directory of the catalogs. -/
def catalogVariable : String := "TAINTSCAN_CATALOG_DIR"

/-- The variable for the number of hops. -/
def depthVariable : String := "TAINTSCAN_MAX_DEPTH"

/-- The configuration with the settings of the environment. -/
def withEnvironment (c : Config) (environment : Environment) : Except ConfigError Config := do
  let s := c.settings
  let s :=
    match lookup? environment catalogVariable with
    | some dir => { s with catalogDir := .text dir }
    | none => s
  let s ←
    match lookup? environment depthVariable with
    | some text =>
      match Text.integer? text with
      | some n => pure { s with maxDepth := .int n }
      | none => throw (.notInteger depthVariable text)
    | none => pure s
  s.check

/-- The configuration of defaults, a file if one is named, and the environment. -/
def load (read : ValueReader) (fs : FileSystem) (file : Option String)
    (environment : Environment) : Except ConfigError Config := do
  let c ←
    match file with
    | some path => if path == "" then default else ofFile read fs path
    | none => default
  c.withEnvironment environment

/-- Options that replace settings; null stands for one that is not given. -/
structure Options where
  configFile : Option String := none
  vulnerabilities : Value := .null
  catalogDir : Value := .null
  maxDepth : Value := .null
  endings : Value := .null
  directive : Value := .null

/-- The configuration with options in place of settings.  An empty list or text is as good as
none, except for the number of hops and the directive. -/
def withOptions (c : Config) (o : Options) : Except ConfigError Config :=
  let s := c.settings
  let isGiven : Value → Bool
    | .null => false
    | _ => true
  Settings.check
    { s with
      vulnerabilities :=
        if o.vulnerabilities.isPresent then o.vulnerabilities else s.vulnerabilities
      catalogDir := if o.catalogDir.isPresent then o.catalogDir else s.catalogDir
      maxDepth := if isGiven o.maxDepth then o.maxDepth else s.maxDepth
      endings := if o.endings.isPresent then o.endings else s.endings
      directive := if isGiven o.directive then o.directive else s.directive }

/-- The configuration of defaults, a file, the environment and options. -/
def create (read : ValueReader) (fs : FileSystem) (environment : Environment) (o : Options) :
    Except ConfigError Config := do
  let c ← load read fs o.configFile environment
  c.withOptions o

end Config

end TaintFlow
