import Packwright.Settings

/-
  The commands of the program, and command lines. Words are read from left to right; the first one
  that is wrong, or that asks for help or the version, decides. An option takes its value from the
  same word or the next one, a flag takes none, and each is given at most once, except the one for
  verbosity.
-/

namespace Packwright

/-- What to generate. -/
structure GenerateCommand where
  input : Path
  overrides : Overrides := {}
  dryRun : Bool := false
  keepGoing : Bool := false
  settings : Option Path := none

/-- What schema to write. -/
structure SchemaCommand where
  input : Path
  dest : String := "-"
  genid : Bool := false
  settings : Option Path := none

/-- What settings file to create. -/
structure InitCommand where
  output : Path := Settings.defaultPath
  force : Bool := false

/-- A command. -/
inductive Command where
  | generate (c : GenerateCommand)
  | schema (c : SchemaCommand)
  | init (c : InitCommand)

/-- What a command line says instead of naming a command to run. -/
inductive Detour where
  /-- It is wrong, for the reason given. -/
  | misuse (reason : String)
  | help
  | version
deriving DecidableEq

/-- What an option takes. -/
inductive OptionKind where
  /-- Nothing, once. -/
  | flag
  /-- Nothing, any number of times. -/
  | count
  /-- A value of a certain form. -/
  | value (accepts : String → Bool)
  /-- It leads away from running a command. -/
  | detour (d : Detour)

/-- An option: its long name, its letter if it has one, and what it takes. -/
structure OptionSpec where
  long : String
  short : Option Char := none
  kind : OptionKind

namespace Arguments

/-- Any text. -/
def anyText (_ : String) : Bool := true

/-- A path, which is not empty. -/
def anyPath (s : String) : Bool := !s.isEmpty

/-- The options that stand anywhere. -/
def commonOptions : List OptionSpec := [
  { long := "verbose", short := some 'v', kind := .count },
  { long := "help", short := some 'h', kind := .detour .help }]

/-- The options before the name of a command. -/
def topOptions : List OptionSpec :=
  commonOptions ++ [{ long := "version", short := some 'V', kind := .detour .version }]

/-- The options of the command that generates code. -/
def generateOptions : List OptionSpec := commonOptions ++ [
  { long := "input", short := some 'i', kind := .value anyPath },
  { long := "output", short := some 'o', kind := .value anyPath },
  { long := "file", kind := .value anyText },
  { long := "protocol", short := some 'p', kind := .value fun w => (Protocol.ofWord? w).isSome },
  { long := "no-fuse", kind := .flag },
  { long := "schema", kind := .value anyText },
  { long := "genid", kind := .flag },
  { long := "dry-run", kind := .flag },
  { long := "keep-going", kind := .flag },
  { long := "config", short := some 'c', kind := .value anyPath }]

/-- The options of the command that writes a schema. -/
def schemaOptions : List OptionSpec := commonOptions ++ [
  { long := "input", short := some 'i', kind := .value anyPath },
  { long := "dest", short := some 'd', kind := .value anyText },
  { long := "genid", kind := .flag },
  { long := "config", short := some 'c', kind := .value anyPath }]

/-- The options of the command that creates a settings file. -/
def initOptions : List OptionSpec := commonOptions ++ [
  { long := "output", short := some 'o', kind := .value anyPath },
  { long := "force", kind := .flag }]

/-- What has been given so far: options with their values, flags with an empty one. -/
abbrev Given := List (String × String)

/-- Whether an option has been given. -/
def has (given : Given) (name : String) : Bool := given.any fun g => g.1 == name

/-- The value of an option. -/
def value? (given : Given) (name : String) : Option String := given.lookup name

/-- The state of the reader: what was given, and the option that waits for its value, with what it
accepts. -/
structure State where
  given : Given := []
  waiting : Option (OptionSpec × (String → Bool)) := none

/-- Records an option that may be given once. -/
def record (s : State) (name value : String) : Except Detour State :=
  if has s.given name then .error (.misuse ("the option '--" ++ name ++ "' is given twice"))
  else .ok { given := (name, value) :: s.given }

/-- Gives an option its value. -/
def supply (s : State) (spec : OptionSpec) (accepts : String → Bool) (value : String) :
    Except Detour State :=
  if accepts value then record s spec.long value
  else .error (.misuse ("'" ++ value ++ "' is no value for '--" ++ spec.long ++ "'"))

/-- An option without a value in the same word. -/
def beginOption (s : State) (spec : OptionSpec) : Except Detour State :=
  match spec.kind with
  | .flag => record s spec.long ""
  | .count => .ok s
  | .value accepts => .ok { s with waiting := some (spec, accepts) }
  | .detour d => .error d

/-- A word that starts with two dashes. -/
def longOption (specs : List OptionSpec) (s : State) (body : List Char) : Except Detour State :=
  let name := String.ofList (body.takeWhile (· ≠ '='))
  match specs.find? fun spec => spec.long == name, body.dropWhile (· ≠ '=') with
  | none, _ => .error (.misuse ("there is no option '--" ++ name ++ "'"))
  | some spec, [] => beginOption s spec
  | some spec, _ :: value =>
    match spec.kind with
    | .value accepts => supply s spec accepts (String.ofList value)
    | _ => .error (.misuse ("the option '--" ++ name ++ "' takes no value"))

/-- The letters behind a single dash: flags, and at the end an option with the rest as value. -/
def shortOptions (specs : List OptionSpec) : State → List Char → Except Detour State
  | s, [] => .ok s
  | s, c :: rest =>
    match specs.find? fun spec => spec.short == some c with
    | none => .error (.misuse ("there is no option '-" ++ String.ofList [c] ++ "'"))
    | some spec =>
      match spec.kind, rest with
      | .value accepts, '=' :: value => supply s spec accepts (String.ofList value)
      | .value accepts, d :: value => supply s spec accepts (String.ofList (d :: value))
      | _, rest => do shortOptions specs (← beginOption s spec) rest

/-- What a word is, by its dashes. -/
inductive WordForm where
  /-- A long option, without the dashes. -/
  | long (body : List Char)
  /-- Letters of short options. -/
  | short (letters : List Char)
  /-- Two dashes alone, after which no word is an option. -/
  | dashes
  /-- Anything else. -/
  | plain

/-- The form of a word. -/
def wordForm (w : String) : WordForm :=
  match w.toList with
  | ['-', '-'] => .dashes
  | '-' :: '-' :: body => .long body
  | '-' :: c :: rest => .short (c :: rest)
  | _ => .plain

/-- Refuses to go on while an option waits for its value. -/
def settle (s : State) : Except Detour Unit :=
  match s.waiting with
  | none => .ok ()
  | some (spec, _) => .error (.misuse ("the option '--" ++ spec.long ++ "' needs a value"))

/-- Reads the options of a command. -/
def options (specs : List OptionSpec) : State → List String → Except Detour Given
  | s, [] => do
    settle s
    return s.given
  | s, w :: rest =>
    match wordForm w with
    | .long body => do
      settle s
      options specs (← longOption specs s body) rest
    | .short letters => do
      settle s
      options specs (← shortOptions specs s letters) rest
    | .dashes => do
      settle s
      match rest with
      | [] => return s.given
      | extra :: _ => throw (.misuse ("there is no place for '" ++ extra ++ "'"))
    | .plain =>
      match s.waiting with
      | some (spec, accepts) => do
        options specs (← supply { s with waiting := none } spec accepts w) rest
      | none => throw (.misuse ("there is no place for '" ++ w ++ "'"))

/-- The value of an option that has to be given. -/
def required (given : Given) (name : String) : Except Detour String :=
  match value? given name with
  | some v => .ok v
  | none => .error (.misuse ("the option '--" ++ name ++ "' is missing"))

/-- The commands of which help can be asked. -/
def commandNames : List String := ["generate", "schema", "init", "help"]

/-- The command that asks for help, about all commands or about one of them. -/
def help : List String → Detour
  | [] => .help
  | [name] =>
    if commandNames.contains name then .help
    else .misuse ("there is no command '" ++ name ++ "'")
  | _ :: extra :: _ => .misuse ("there is no place for '" ++ extra ++ "'")

/-- The command that a name and its options call for. -/
def command (name : String) (words : List String) : Except Detour Command :=
  if name = "generate" then do
    let given ← options generateOptions {} words
    return .generate {
      input := ← required given "input"
      overrides := {
        directory := value? given "output"
        file := value? given "file"
        protocol := (value? given "protocol").bind Protocol.ofWord?
        fuse := if has given "no-fuse" then some false else none
        schema := value? given "schema"
        genid := has given "genid" }
      dryRun := has given "dry-run"
      keepGoing := has given "keep-going"
      settings := value? given "config" }
  else if name = "schema" then do
    let given ← options schemaOptions {} words
    return .schema {
      input := ← required given "input"
      dest := (value? given "dest").getD "-"
      genid := has given "genid"
      settings := value? given "config" }
  else if name = "init" then do
    let given ← options initOptions {} words
    return .init {
      output := (value? given "output").getD Settings.defaultPath
      force := has given "force" }
  else if name = "help" then .error (help words)
  else .error (.misuse ("there is no command '" ++ name ++ "'"))

/-- Reads a command line. -/
def parse : List String → Except Detour Command
  | [] => .error (.misuse "a command is missing")
  | w :: rest =>
    match wordForm w with
    | .long body => do
      let _ ← longOption topOptions {} body
      parse rest
    | .short letters => do
      let _ ← shortOptions topOptions {} letters
      parse rest
    | .dashes => .error (.misuse "a command is missing")
    | .plain => command w rest

end Arguments

end Packwright
