import Packwright.Error
import Packwright.Files.OsError
import Packwright.Files.Path
import Packwright.Schema

/-
  Why a command stops: a cause for each stage of a run, from reading the settings to writing the
  output.
-/

namespace Packwright

/-- Why a command stopped. -/
inductive RunError where
  /-- The identities cannot be read. -/
  | unreadableInput (p : Path) (cause : OsError)
  /-- The identities are no document of a table. -/
  | malformedInput (p : Path)
  /-- There are no identities. -/
  | emptyInput (p : Path)
  /-- The output device failed during generation. -/
  | generation (cause : Error)
  /-- Some identities failed, and that was not to be passed over. -/
  | failedIdentities (names : List String)
  /-- A count overflowed, or an encoding had no end. -/
  | fault (cause : Fault)
  /-- A schema cannot describe the identities. -/
  | unsupportedShape (cause : UnsupportedShape)
  /-- The schema cannot be written. -/
  | unwritableSchema (dest : Destination) (cause : OsError)
  /-- The settings cannot be read. -/
  | unreadableSettings (p : Path) (cause : OsError)
  /-- The settings are no document of settings. -/
  | malformedSettings (p : Path)
  /-- A setting that must not be empty. -/
  | emptySetting (key : String)
  /-- The directory of the output cannot be created. -/
  | uncreatableDirectory (p : Path) (cause : OsError)
  /-- A file of the output cannot be written. -/
  | unwritableFile (p : Path) (cause : OsError)
  /-- The output cannot be completed. -/
  | incompleteFile (p : Path) (cause : Error)
  /-- There are settings already. -/
  | settingsExist (p : Path)
  /-- The new settings cannot be written. -/
  | unwritableSettings (cause : OsError)
deriving DecidableEq

namespace RunError

/-- The report of a schema that cannot be written. -/
def schemaReport (dest : Destination) (cause : OsError) : String :=
  "failed to write schema to " ++ dest.text ++ ": " ++ cause.message

/-- What is said of a document that does not parse. -/
def malformed : String := "not a document of this kind"

/-- The report of a fault that is no fault of one identity. -/
def faultReport : Fault → String
  | .error cause => cause.message
  | .overflow => "a count exceeds 64 bits"
  | .tooDeep => "the encoding has no end"

/-- The report of an error. -/
def message : RunError → String
  | unreadableInput p cause =>
    "Failed to load identities: Failed to read " ++ p ++ ": " ++ cause.message
  | malformedInput p =>
    "Failed to load identities: Invalid identities JSON in " ++ p ++ ": " ++ malformed
  | emptyInput p => "Failed to load identities: No identities found in " ++ p
  | generation cause => "Failed to generate code: " ++ cause.message
  | failedIdentities names =>
    "Failed to generate code: " ++ Decimal.ofNat names.length ++ " identity(ies) failed: " ++
      ", ".intercalate names
  | fault cause => "Failed to generate code: " ++ faultReport cause
  | unsupportedShape cause => "Failed to export schema: " ++ cause.message
  | unwritableSchema dest cause => "Failed to export schema: " ++ schemaReport dest cause
  | unreadableSettings p cause =>
    "Failed to load configuration: Failed to read config " ++ p ++ ": " ++ cause.message
  | malformedSettings p =>
    "Failed to load configuration: Invalid TOML in " ++ p ++ ": " ++ malformed
  | emptySetting key =>
    "Failed to load configuration: Invalid configuration value for '" ++ key ++
      "': must not be empty"
  | uncreatableDirectory p cause =>
    "Failed to write output: Failed to create directory " ++ p ++ ": " ++ cause.message
  | unwritableFile p cause =>
    "Failed to write output: Failed to write file " ++ p ++ ": " ++ cause.message
  | incompleteFile p cause =>
    "Failed to write output: Output for " ++ p ++ " failed: " ++ cause.message
  | settingsExist p => "Configuration file already exists: " ++ p
  | unwritableSettings cause => "IO error: " ++ cause.message

/-- The exit status of a command that stopped. -/
def exitCode : RunError → UInt8
  | settingsExist _ => 2
  | fault _ => 101
  | _ => 1

end RunError

end Packwright
