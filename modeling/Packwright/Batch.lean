import Packwright.Generator.Marshal
import Packwright.Generator.Msgsize
import Packwright.Printer
import Packwright.Table
import Packwright.Text.Lossy

/-
  Generation of a whole file. There is one generator for each requested method, and all of them
  render one identity after another. Each identity contributes the blocks of all methods, or, if
  one of them fails, nothing but an entry in the report. A failing output device ends the batch.
-/

namespace Packwright

/-- A function that is generated for each identity. -/
inductive Method where
  | marshal
  | msgsize
deriving DecidableEq

namespace Method

/-- The name of the generated function. -/
def function : Method → String
  | marshal => "marshal_msg"
  | msgsize => "msgsize"

/-- The generated block for an identity, if code is generated for it. -/
def render : Method → Config → String → Shape → Except Fault (Option String)
  | marshal => Marshal.render
  | msgsize => Msgsize.render

end Method

/-- The generator of a method. -/
inductive CodeGenerator where
  | marshal (g : Generator Marshal.Pending)
  | msgsize (g : Generator Msgsize.Pending)

/-- The generator of a method, not used yet. -/
def Method.generator (c : Config) : Method → CodeGenerator
  | marshal => .marshal (.new c {})
  | msgsize => .msgsize (.new c {})

namespace CodeGenerator

/-- The outcome of a step, and the generator after it. -/
def outcome {σ α : Type} (build : Generator σ → CodeGenerator) :
    EStateM.Result Fault (Generator σ) α → Except Fault α × CodeGenerator
  | .ok a g => (.ok a, build g)
  | .error fault g => (.error fault, build g)

/-- The generated block for an identity, if code is generated for it. -/
def render (name : String) (s : Shape) :
    CodeGenerator → Except Fault (Option String) × CodeGenerator
  | marshal g => outcome marshal ((Marshal.generate name s).run g)
  | msgsize g => outcome msgsize ((Msgsize.generate name s).run g)

/-- The blocks of an identity, one for each generator that has one. The first generator that fails
ends it, and those after it are not used. -/
def renderAll (name : String) (s : Shape) :
    List CodeGenerator → Except Fault (List String) × List CodeGenerator
  | [] => (.ok [], [])
  | g :: rest =>
    match g.render name s with
    | (.error fault, g) => (.error fault, g :: rest)
    | (.ok block, g) =>
      let (blocks, rest) := renderAll name s rest
      ((block.toList ++ ·) <$> blocks, g :: rest)

end CodeGenerator

/-- An identity that could not be generated. -/
structure Failure where
  name : String
  error : Error
deriving DecidableEq

/-- What became of the identities of a batch. -/
structure Report where
  generated : List String := []
  failures : List Failure := []

/-- Whether nothing failed. -/
def Report.isClean (r : Report) : Bool := r.failures.isEmpty

namespace Batch

/-- The first line of every generated file. -/
def fileHeader : String := "// Code generated by zebrapack. DO NOT EDIT."

/-- Prints a text. -/
def print (text : String) : Print Unit := Print.call fun p => p.print text

/-- A batch under way: the generators, and what became of the identities so far. -/
structure Progress where
  generators : List CodeGenerator
  report : Report := {}

/-- Prints the blocks of an identity, each on a new line. -/
def printBlocks (blocks : List String) : Print Unit :=
  blocks.forM fun block => do
    print "\n"
    print block

/-- Prints what an identity contributes and enters it into the report. -/
def identity (progress : Progress) (entry : String × Shape) : Print Progress := do
  Print.call Printer.ok
  let (outcome, generators) := CodeGenerator.renderAll entry.1 entry.2 progress.generators
  let report := progress.report
  match outcome with
  | .ok [] => return { progress with generators }
  | .ok blocks =>
    printBlocks blocks
    return ⟨generators, { report with generated := report.generated ++ [entry.1] }⟩
  | .error (.error e) =>
    return ⟨generators, { report with failures := report.failures ++ [⟨entry.1, e⟩] }⟩
  | .error fault => throw fault

/-- Generates the code of a table. -/
def generate (t : Table) (c : Config) (methods : List Method) : Print Report := do
  let start : Progress := { generators := methods.map (Method.generator c) }
  print fileHeader
  print "\n\n"
  if c.runtimeImport ≠ "" then
    print c.runtimeImport
    print "\n"
  let done ← t.entries.foldlM identity start
  Print.call Printer.flush
  return done.report

/-- The code of a table as one text, with its report. -/
def generateFile (t : Table) (c : Config) (methods : List Method) :
    Except Fault (String × Report) :=
  match (generate t c methods).run { sink := .memory } with
  | .ok report p => .ok (Lossy.decode p.sink.data.toList, report)
  | .error fault _ => .error fault

end Batch

end Packwright
