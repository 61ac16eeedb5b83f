import Packwright.Batch
import Packwright.Pass
import Packwright.Script
import Packwright.Toml.Reader

/-
  Settings of a run: where the output goes, how code is generated, whether a schema is written,
  and the directives of the passes. A settings file gives some of them, the command line may
  override them, and the rest have defaults.
-/

namespace Packwright

/-- Settings of a run. -/
structure Settings where
  directory : Path := "./generated"
  file : String := "zebrapack_gen.rs"
  config : Config := {}
  msgsize : Bool := true
  schema : Option String := none
  genid : Bool := false
  directives : Directives := {}

/-- What the command line overrides. -/
structure Overrides where
  directory : Option Path := none
  file : Option String := none
  protocol : Option Protocol := none
  fuse : Option Bool := none
  schema : Option String := none
  genid : Bool := false

namespace Settings

/-- The settings file that is read when none is named. -/
def defaultPath : Path := "zebrapack.toml"

/-- The path of the generated file. -/
def outputPath (s : Settings) : Path := Path.join s.directory s.file

/-- The functions to generate. -/
def methods (s : Settings) : List Method :=
  if s.msgsize then [.marshal, .msgsize] else [.marshal]

/-- Where the schema goes, if one is to be written. -/
def destination (s : Settings) : Option Destination := s.schema.map .ofText

/-- The settings with the overrides of the command line. -/
def override (s : Settings) (o : Overrides) : Settings :=
  { s with
    directory := o.directory.getD s.directory
    file := o.file.getD s.file
    config := { s.config with
      protocol := o.protocol.getD s.config.protocol
      fuse := o.fuse.getD s.config.fuse }
    schema := o.schema <|> s.schema
    genid := o.genid || s.genid }

/-! Reading a settings file. -/

/-- Reads a string. -/
def text? : Toml → Option String
  | .str s => some s
  | _ => none

/-- Reads a boolean. -/
def flag? : Toml → Option Bool
  | .bool b => some b
  | _ => none

/-- Reads a 64-bit count. -/
def count? : Toml → Option Nat
  | .int (.ofNat n) => if n < countLimit then some n else none
  | _ => none

/-- Reads a list. -/
def list? {α : Type} (read : Toml → Option α) (v : Toml) : Option (List α) := do
  (← v.items?).mapM read

/-- Reads one of some words: a string, or a table that holds nothing but the word with an empty
value. -/
def word? {α : Type} (ofWord? : String → Option α) : Toml → Option α
  | .str w => ofWord? w
  | .table _ [(w, .list [])] => ofWord? w
  | .table _ [(w, .table _ [])] => ofWord? w
  | _ => none

/-- The members of a section, in the order of its keys: a table by name, a list by position. A
date has none. What stands under an unknown key is passed over but has to be sound, what follows
the last position is not looked at. -/
def members? (keys : List String) : Toml → Option (List (String × Toml))
  | .table _ entries =>
    if entries.all fun e => keys.contains e.1 || e.2.isSound then some entries else none
  | .moment _ => some []
  | v => v.items?.map keys.zip

/-- Reads an optional member. -/
def member {α : Type} (entries : List (String × Toml)) (key : String) (default : α)
    (read : Toml → Option α) : Option α :=
  match Assoc.get? entries key with
  | some v => read v
  | none => some default

/-- Reads the section of the output. -/
def output? (s : Settings) (v : Toml) : Option Settings := do
  let es ← members? ["dir", "file"] v
  let directory ← member es "dir" s.directory text?
  let file ← member es "file" s.file text?
  return { s with directory, file }

/-- Reads the section of the generators. -/
def generator? (s : Settings) (v : Toml) : Option Settings := do
  let es ← members? ["protocol", "runtime_path", "fuse", "indent", "generate_docs", "msgsize"] v
  let protocol ← member es "protocol" s.config.protocol (word? Protocol.ofWord?)
  let runtimePath ← member es "runtime_path" s.config.runtimePath text?
  let fuse ← member es "fuse" s.config.fuse flag?
  let indent ← member es "indent" s.config.indent (word? Indent.ofWord?)
  let docs ← member es "generate_docs" s.config.docs flag?
  let msgsize ← member es "msgsize" s.msgsize flag?
  return { s with config := { protocol, runtimePath, fuse, indent, docs }, msgsize }

/-- Reads the section of the schema. -/
def schema? (s : Settings) (v : Toml) : Option Settings := do
  let es ← members? ["dest", "genid"] v
  let schema ← member es "dest" s.schema fun v => (text? v).map some
  let genid ← member es "genid" s.genid flag?
  return { s with schema, genid }

/-- Reads named constants, which are ordered by name. -/
def constants? : Toml → Option (List (String × Nat))
  | .table _ entries => do
    let constants ← entries.mapM fun (name, v) => do return (name, ← count? v)
    return constants.mergeSort fun a b => a.1 ≤ b.1
  | _ => none

/-- Reads the section of the directives. -/
def directives? (s : Settings) (v : Toml) : Option Settings := do
  let es ← members? ["ignore", "tuple", "constants"] v
  let ignore ← member es "ignore" [] (list? text?)
  let tuple ← member es "tuple" [] (list? text?)
  let constants ← member es "constants" [] constants?
  return { s with directives := { ignore, tuple, constants } }

/-- Reads a settings file. -/
def read? (text : String) : Option Settings := do
  let es ← members? ["output", "generator", "schema", "directives"]
    (.table .header (← Toml.read? text))
  let s : Settings := {}
  let s ← member es "output" s s.output?
  let s ← member es "generator" s s.generator?
  let s ← member es "schema" s s.schema?
  member es "directives" s s.directives?

/-- Whether generated code would have nowhere to find the runtime. -/
def lacksRuntime (s : Settings) : Bool := Blank.trim s.config.runtimePath == ""

/-- Loads the settings from a file; all have their defaults if there is none. -/
def load (path : Option Path) : Action Settings := do
  let p := path.getD defaultPath
  if ← Action.request (.present p) then
    let text ← Action.attempt (.readText p) (.unreadableSettings p)
    match read? text with
    | none => throw (.malformedSettings p)
    | some s => if s.lacksRuntime then throw (.emptySetting "generator.runtime_path") else return s
  else return {}

end Settings

end Packwright
