import Packwright.Shape.Visit
import Packwright.Table
import Packwright.Text.Characters

/-
  Passes over a table of identities, as the author of the table asks for them besides the shapes
  themselves. A pass changes the shape of an identity or drops the
  identity; a pipeline runs passes one after another. The standard pipeline finalizes a table:
  after it every array size is resolved and every struct carries the data derived from its
  fields.
-/

namespace Packwright

/-- Identities to leave out, structs to encode as tuples, and named array sizes. -/
structure Directives where
  ignore : List String := []
  tuple : List String := []
  constants : List (String × Nat) := []

/-- A pass over one identity. -/
inductive Pass where
  /-- Drops the identities with these names. -/
  | ignore (names : List String)
  /-- Makes the structs with these names tuples, wherever they stand. -/
  | tuple (names : List String)
  /-- Resolves array sizes; an identity with one that cannot be resolved is dropped. -/
  | arraySizes (constants : List (String × Nat))
  /-- Computes what structs record about their fields. -/
  | structMetadata
  /-- Drops the identities for which no code is generated. -/
  | printable

/-- The value of a declared array size: a numeral, or else the name of a constant. -/
def resolveSize? (constants : List (String × Nat)) (size : String) : Option Nat :=
  let size := Blank.trim size
  match Decimal.count? size with
  | some n => some n
  | none => Assoc.get? constants size

namespace Shape

/-- Makes a struct a tuple if its name is listed. -/
def markTuple (names : List String) : Shape → Shape
  | struct info fields =>
    if names.contains info.name then struct { info with asTuple := true } fields
    else struct info fields
  | node => node

/-- Records the value of an array's declared size. -/
def resolveArray? (constants : List (String × Nat)) : Shape → Option Shape
  | array info element => do
    let n ← resolveSize? constants info.size
    return array { info with resolved := some n } element
  | node => some node

/-- Records how many fields of a struct are skipped, and whether a live one is tagged. -/
def computeMetadata : Shape → Shape
  | struct info fields =>
    let skipCount := fields.countP fun f => f.info.skip
    let hasTags := fields.any fun f => !f.info.skip && f.info.omitEmpty
    struct { info with skipCount := skipCount, hasOmitEmptyTags := hasTags } fields
  | node => node

end Shape

namespace Pass

/-- The name of a pass. -/
def name : Pass → String
  | ignore _ => "ignore"
  | tuple _ => "tuple"
  | arraySizes _ => "array-sizes"
  | structMetadata => "struct-metadata"
  | printable => "printable"

/-- The pass with a given name, taking its data from the directives. -/
def ofName? (d : Directives) (name : String) : Option Pass :=
  [ignore d.ignore, tuple d.tuple, arraySizes d.constants, structMetadata, printable].find?
    fun p => p.name == name

/-- Runs a pass over an identity. -/
def apply : Pass → String → Shape → Option Shape
  | ignore names, identity, s => if names.contains identity then none else some s
  | tuple names, _, s => some (s.mapNodes (Shape.markTuple names))
  | arraySizes constants, _, s => s.mapNodes? (Shape.resolveArray? constants)
  | structMetadata, _, s => some (s.mapNodes Shape.computeMetadata)
  | printable, _, s => if s.isPrintable then some s else none

end Pass

/-- Passes that run one after another. -/
abbrev Pipeline := List Pass

namespace Pipeline

/-- Everything but the printability filter. -/
def resolving (d : Directives) : Pipeline :=
  [.ignore d.ignore, .tuple d.tuple, .arraySizes d.constants, .structMetadata]

/-- The pipeline that finalizes a table for the generators. -/
def standard (d : Directives) : Pipeline :=
  resolving d ++ [.printable]

/-- The names of the passes, in order. -/
def names (p : Pipeline) : List String := p.map Pass.name

/-- The names of the passes as one text. -/
def describe (p : Pipeline) : String :=
  "[" ++ ", ".intercalate (p.names.map fun n => "\"" ++ n ++ "\"") ++ "]"

/-- Runs the passes over one identity. -/
def finalize (p : Pipeline) (identity : String) (s : Shape) : Option Shape :=
  p.foldlM (fun s pass => pass.apply identity s) s

/-- Runs the passes over every identity of a table. -/
def finalizeAll (p : Pipeline) (t : Table) : Table :=
  t.filterMap p.finalize

end Pipeline

end Packwright
