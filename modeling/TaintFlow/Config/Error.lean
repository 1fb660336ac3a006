import TaintFlow.Files.Basic
import TaintFlow.Value
import TaintFlow.Vulnerability

/-!
# Configuration errors

Why a configuration cannot be used, and what is said about it.
-/

namespace TaintFlow

/-- Why a configuration cannot be used. -/
inductive ConfigError where
  | unknownKeys (keys : List String)
  | depth (got : Value)
  | noEnding
  | fileSize (got : Value)
  | blankDirective
  | unknownVulnerability (name : String)
  | notInteger (name text : String)
  | unreadable (path : String) (fault : Files.Fault)
  | malformed (path : String)
  | notMapping (path : String)
  /-- A file with a value of a type that its key does not take. -/
  | badFile (path : String)
  /-- A value of a type that its key does not take. -/
  | badType
  /-- A directive that is no text. -/
  | directiveType
  /-- A file that is not in UTF-8. -/
  | encoding (path : String)
  /-- A file with a scalar that has no value. -/
  | scalar (path : String) (fault : ScalarFault)

namespace ConfigError

/-- The text of an error.  `detail` is the text of a failure to use a file. -/
def messageWith (detail : String → Files.Fault → String) : ConfigError → String
  | unknownKeys keys => "Unknown configuration key(s): " ++ ", ".intercalate keys
  | depth got => "max_depth must be a positive integer, got " ++ got.shown
  | noEnding => "At least one file extension is required"
  | fileSize got => "max_file_size must be positive, got " ++ got.shown
  | blankDirective => "trusted_directive must not be empty"
  | unknownVulnerability name => Vulnerability.unknownMessage name
  | notInteger name text => name ++ " must be an integer, got " ++ Text.quoted text
  | unreadable path fault => "Cannot read config file " ++ path ++ ": " ++ detail path fault
  | malformed path => "Invalid YAML in " ++ path ++ ": " ++ Files.detail
  | notMapping path => "Config file " ++ path ++ " must contain a mapping"
  | badFile path => "Invalid configuration in " ++ path ++ ": " ++ Files.detail
  | badType => "A configuration value has the wrong type"
  | directiveType => "trusted_directive must be a text"
  | encoding path => path ++ " is not in UTF-8"
  | scalar path _ => "A scalar in " ++ path ++ " has no value"

/-- The text of an error. -/
def message (e : ConfigError) : String :=
  e.messageWith fun path fault => fault.message path

/-- Whether an error is one of the configuration itself, and not of the way it is given. -/
def isOfConfig : ConfigError → Bool
  | badType => false
  | directiveType => false
  | encoding _ => false
  | scalar _ _ => false
  | _ => true

end ConfigError

end TaintFlow
