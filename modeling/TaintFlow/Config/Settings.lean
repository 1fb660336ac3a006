import TaintFlow.Config.Error
import TaintFlow.Java.Directive
import TaintFlow.Text.Case

/-!
# Settings

`Settings` are values as they were given; `Config` is what they mean once they are checked and in
normal form.  `Settings.check` leads from one to the other.
-/

namespace TaintFlow

open TaintFlow.Files

/-- Settings as they were given. -/
structure Settings where
  maxDepth : Value := .int 10
  endings : Value := .list [.text ".java"]
  vulnerabilities : Value := .list []
  catalogDir : Value := .null
  excludes : Value := .list []
  /-- Files of more bytes are passed over. -/
  maxFileSize : Value := .int (10 * 1024 * 1024)
  directive : Value := .text Java.defaultDirective

/-- Settings that were checked, in normal form. -/
structure Config where
  maxDepth : Nat
  /-- Endings of source files, in lower case and with a dot. -/
  endings : List String
  /-- The families to look for; none stands for all. -/
  vulnerabilities : List Vulnerability
  catalogDir : Option String
  excludes : Value
  maxFileSize : Nat
  directive : Java.Directive

/-- The items of a value that is iterated over: the characters of a text, the bytes of binary data,
the keys of a mapping. -/
def Value.items? : Value → Option (List Value)
  | .text s => some (s.toList.map fun c => .text c.toString)
  | .binary bytes => some (bytes.map fun b => .int b.toNat)
  | .list items => some items
  | .pair key value => some [key, value]
  | .set items => some items
  | .map entries => some (entries.map (·.1))
  | _ => none

/-- The normal form of the ending of a file. -/
def normalEnding (ending : Value) : String :=
  let text := Text.lower (Text.trim ending.toText)
  if text.startsWith "." then text else "." ++ text

namespace Settings

/-- The normal form of the directory of the catalogs. -/
def catalogPath (s : Settings) : Except ConfigError (Option String) :=
  match s.catalogDir with
  | .null => .ok none
  | .text path => .ok (some (Path.normal path))
  | _ => .error .badType

/-- A family by its name. -/
def family (name : Value) : Except ConfigError Vulnerability :=
  match Vulnerability.ofName? name.toText with
  | some v => .ok v
  | none => .error (.unknownVulnerability name.toText)

/-- A positive number. -/
def positive? : Value → Option Nat
  | .int n => if 0 < n then some n.toNat else none
  | _ => none

/-- The items of a setting that takes a list. -/
def itemsOf (v : Value) : Except ConfigError (List Value) :=
  match v.items? with
  | some items => .ok items
  | none => .error .badType

/-- The directive, which must not be blank. -/
def checkedDirective : Value → Except ConfigError Java.Directive
  | .text s => notBlank (.text s)
  | .binary bytes => notBlank (.binary bytes)
  | _ => .error .directiveType
where
  /-- A directive that is not blank. -/
  notBlank (directive : Java.Directive) : Except ConfigError Java.Directive :=
    if directive.isBlank then .error .blankDirective else .ok directive

/-- A positive number, or an error. -/
def checkedPositive (error : Value → ConfigError) (v : Value) : Except ConfigError Nat :=
  match positive? v with
  | some n => .ok n
  | none => .error (error v)

/-- Checks settings and brings them into normal form. -/
def check (s : Settings) : Except ConfigError Config := do
  let catalogDir ← s.catalogPath
  let endings := (← itemsOf s.endings).map normalEnding
  let vulnerabilities ← (← itemsOf s.vulnerabilities).mapM family
  let maxDepth ← checkedPositive .depth s.maxDepth
  if endings.isEmpty then throw .noEnding
  let maxFileSize ← checkedPositive .fileSize s.maxFileSize
  let directive ← checkedDirective s.directive
  return { maxDepth, endings, vulnerabilities, catalogDir, excludes := s.excludes, maxFileSize,
           directive }

/-- The names of the settings. -/
def names : List String :=
  ["max_depth", "extensions", "vulnerabilities", "catalog_dir", "exclude_patterns",
   "max_file_size", "trusted_directive"]

/-- The settings that the entries of a mapping give. -/
def ofEntries (entries : List (Value × Value)) : Settings :=
  let given (name : String) (default : Value) : Value := (Value.get? name entries).getD default
  let s : Settings := {}
  { maxDepth := given "max_depth" s.maxDepth
    endings := given "extensions" s.endings
    vulnerabilities := given "vulnerabilities" s.vulnerabilities
    catalogDir := given "catalog_dir" s.catalogDir
    excludes := given "exclude_patterns" s.excludes
    maxFileSize := given "max_file_size" s.maxFileSize
    directive := given "trusted_directive" s.directive }

end Settings

/-- The setting that gives a directive. -/
def Java.Directive.setting : Java.Directive → Value
  | text s => .text s
  | binary bytes => .binary bytes

namespace Config

/-- The settings that a configuration came from, in normal form. -/
def settings (c : Config) : Settings where
  maxDepth := .int c.maxDepth
  endings := .list (c.endings.map Value.text)
  vulnerabilities := .list (c.vulnerabilities.map fun v => .text v.key)
  catalogDir := (c.catalogDir.map Value.text).getD .null
  excludes := c.excludes
  maxFileSize := .int c.maxFileSize
  directive := c.directive.setting

/-- The families to look for. -/
def selected (c : Config) : List Vulnerability :=
  if c.vulnerabilities.isEmpty then Vulnerability.all else c.vulnerabilities

end Config

end TaintFlow
