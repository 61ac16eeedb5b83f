import Packwright.Command.Arguments
import Packwright.Files.Staged
import Packwright.Job
import Packwright.Settings.Template

/-
  Running commands. A command is an action on the files; `run` adds what is said when it stops and
  the exit status.
-/

namespace Packwright

namespace Command

/-- Tells what became of the identities. -/
def tellReport (r : Report) : Action Unit := do
  Action.tell ("  Generated " ++ Decimal.ofNat r.generated.length ++ " identity(ies)\n")
  for f in r.failures do
    Action.tell ("  Skipped " ++ f.name ++ ": " ++ f.error.message ++ "\n")

/-- The line around code that is only shown. -/
def rule : String := String.ofList (List.replicate 60 '─') ++ "\n"

/-- Shows the code that would be written. -/
def preview (j : Job) (t : Table) : Action Unit := do
  match j.generate t with
  | .error e => throw e
  | .ok output =>
    tellReport output.report
    Action.tell ("[dry-run] Would write to " ++ j.settings.outputPath ++ ":\n")
    Action.print rule
    Action.print (output.content ++ "\n")
    Action.print rule

/-- Generates code into a staged output and commits it. -/
def complete (j : Job) (t : Table) (staged : Staged) : Action Unit := do
  match (j.generateInto t).run staged.printer with
  | .error e _ => staged.fail e
  | .ok report printer =>
    tellReport report
    let written ← Staged.commit { staged with printer }
    Action.tell written.message

/-- Generates code into its file. -/
def produce (j : Job) (t : Table) : Action Unit := do
  complete j t (← Staged.create j.settings.outputPath)

/-- Writes the schema of the identities, or tells where it would go. -/
def exportSchema (j : Job) (t : Table) (dest : Destination) (dryRun : Bool) : Action Unit := do
  let schema ← j.schema t
  match dest with
  | .standardOutput => schema.send dest
  | .file p =>
    if dryRun then Action.tell ("[dry-run] Would write schema to " ++ p ++ "\n")
    else
      schema.send dest
      Action.tell ("✓ Schema with " ++ Decimal.ofNat schema.structs.length ++
        " struct(s) written to " ++ p ++ "\n")

/-- Loads the identities that code is to be generated for. -/
def loadIdentities (input : Path) (d : Directives) : Action Input := do
  Action.tell "Loading identities...\n"
  let loaded ← Input.load input d
  Action.tell ("  Found " ++ Decimal.ofNat loaded.declared ++ " identity(ies), " ++
    Decimal.ofNat loaded.identities.size ++ " after passes\n")
  Action.tell "Generating encoders...\n"
  return loaded

/-- Exports the schema of the identities, if the settings ask for it. -/
def exportRequested (j : Job) (t : Table) (dryRun : Bool) : Action Unit :=
  match j.settings.destination with
  | some dest => exportSchema j t dest dryRun
  | none => pure ()

/-- Generates code with given settings. -/
def generateWith (input : Path) (j : Job) (dryRun : Bool) : Action Unit := do
  let loaded ← loadIdentities input j.settings.directives
  if dryRun then preview j loaded.identities else produce j loaded.identities
  exportRequested j loaded.resolved dryRun

/-- Writes a schema with given settings. -/
def schemaWith (input : Path) (j : Job) : Action Unit := do
  let loaded ← Input.load input j.settings.directives
  exportSchema j loaded.resolved (j.settings.destination.getD .standardOutput) false

/-- Creates a settings file. -/
def createSettings (c : InitCommand) : Action Unit := do
  if (← Action.request (.present c.output)) && !c.force then
    Action.tell "  Use --force to overwrite\n"
    throw (.settingsExist c.output)
  Action.attempt (.request (.write c.output (utf8 Settings.template))) .unwritableSettings
  Action.tell ("✓ Created configuration file: " ++ c.output ++ "\n")

/-- What a command does. -/
def action : Command → Action Unit
  | generate c => do
    let settings ← Settings.load c.settings
    generateWith c.input ⟨settings.override c.overrides, c.keepGoing⟩ c.dryRun
  | schema c => do
    let settings ← Settings.load c.settings
    schemaWith c.input { settings := settings.override { schema := some c.dest, genid := c.genid } }
  | init c => createSettings c

/-- Runs a command to its exit status. -/
def run (c : Command) : Script UInt8 := do
  match ← c.action.run with
  | .ok _ => return 0
  | .error e =>
    Script.request (.tell ("Error: " ++ e.message ++ "\n"))
    return e.exitCode

end Command

/-- The version of the program. -/
def versionText : String := "zebrapack 0.1.0\n"

/-- How the program is called. -/
def usageText : String :=
  "Usage: zebrapack [-v] generate --input <FILE> [--output <DIR>] [--file <NAME>]\n" ++
  "           [--protocol fast|msgp2] [--no-fuse] [--schema <DEST>] [--genid]\n" ++
  "           [--dry-run] [--keep-going] [--config <FILE>]\n" ++
  "       zebrapack [-v] schema --input <FILE> [--dest <DEST>] [--genid] [--config <FILE>]\n" ++
  "       zebrapack [-v] init [--output <FILE>] [--force]\n" ++
  "       zebrapack --version\n"

/-- Runs a command line to its exit status. -/
def runArguments (words : List String) : Script UInt8 := do
  match Arguments.parse words with
  | .ok c => c.run
  | .error .version =>
    Script.request (.print versionText)
    return 0
  | .error .help =>
    Script.request (.print usageText)
    return 0
  | .error (.misuse reason) =>
    Script.request (.tell ("error: " ++ reason ++ "\n\n" ++ usageText))
    return 2

end Packwright
