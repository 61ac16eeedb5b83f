import Packwright.Settings
import Packwright.Shape.Document

/-
  The identities of a run, and its work on them: generating code, and describing them in a schema.
-/

namespace Packwright

/-- The identities of a run: those that code is generated for, those that a schema describes, and
how many were declared. -/
structure Input where
  identities : Table
  resolved : Table
  declared : Nat

namespace Input

/-- The identities of a table after the passes. -/
def ofTable (d : Directives) (t : Table) : Input :=
  let resolved := (Pipeline.resolving d).finalizeAll t
  { identities := Pipeline.finalizeAll [.printable] resolved, resolved, declared := t.size }

/-- The number of identities that the passes dropped. -/
def dropped (i : Input) : Nat := i.declared - i.identities.size

/-- Loads identities from a file. -/
def load (p : Path) (d : Directives) : Action Input := do
  let text ← Action.attempt (.readText p) (.unreadableInput p)
  match Table.read? text with
  | none => throw (.malformedInput p)
  | some t => if t.size = 0 then throw (.emptyInput p) else return ofTable d t

end Input

/-- Settings, and whether identities that fail are passed over. -/
structure Job where
  settings : Settings
  keepGoing : Bool := false

/-- Generated code, and what became of the identities. -/
structure Generated where
  content : String
  report : Report

namespace Job

/-- The error that a fault during generation ends a run with. -/
def ofFault : Fault → RunError
  | .error cause => .generation cause
  | cause => .fault cause

/-- Generates code into a printer. -/
def generateInto (j : Job) (t : Table) : EStateM RunError Printer Report := fun p =>
  match (Batch.generate t j.settings.config j.settings.methods).run p with
  | .error cause p => .error (ofFault cause) p
  | .ok report p =>
    if report.isClean || j.keepGoing then .ok report p
    else .error (.failedIdentities (report.failures.map Failure.name)) p

/-- Generates code as one text. -/
def generate (j : Job) (t : Table) : Except RunError Generated :=
  match (j.generateInto t).run { sink := .memory } with
  | .error e _ => .error e
  | .ok report p => .ok ⟨Lossy.decode p.sink.data.toList, report⟩

/-- The schema of the identities, with a fresh id if the settings ask for one. -/
def schema (j : Job) (t : Table) : Action Schema := do
  match Schema.extract t with
  | .error cause => throw (.unsupportedShape cause)
  | .ok schema =>
    if j.settings.genid then return { schema with id := some (← Action.request .freshId) }
    else return schema

end Job

/-- Writes a schema where it is to go. -/
def Schema.send (s : Schema) (dest : Destination) : Action Unit := do
  let text := s.write ++ "\n"
  match dest with
  | .standardOutput => Action.print text
  | .file p =>
    match p.parent?.filter fun parent => !parent.isEmpty with
    | some parent =>
      Action.attempt (.request (.makeDirectories parent)) (.unwritableSchema dest)
    | none => pure ()
    Action.attempt (.request (.write p (utf8 text))) (.unwritableSchema dest)

end Packwright
