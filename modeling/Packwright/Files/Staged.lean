import Packwright.Printer
import Packwright.Script

/-
  Staged output. A file is written under another name beside its target and moved over the target
  when it is complete, so the target never holds part of an output. A staged file that is
  discarded leaves the target as it was.
-/

namespace Packwright

/-- An output that has not reached its target. -/
structure Staged where
  target : Path
  staging : Path
  printer : Printer

/-- An output that has reached its target. -/
structure Written where
  path : Path
  bytes : Nat
deriving DecidableEq

/-- What is said of an output that has reached its target. -/
def Written.message (w : Written) : String :=
  "✓ Written " ++ Decimal.ofNat w.bytes ++ " bytes to " ++ w.path ++ "\n"

/-- The name under which an output is staged. -/
def Path.staging (p : Path) : Path :=
  p.withFileName (p.fileName?.getD "" ++ ".partial")

namespace Staged

/-- Creates an empty staging file. -/
def start (target : Path) : Action Staged := do
  let staging := target.staging
  let sink ← Action.attempt (.request (.create staging)) (.unwritableFile staging)
  return { target, staging, printer := { sink } }

/-- Creates the directory of a target and an empty staging file. -/
def create (target : Path) : Action Staged := do
  match target.parent?.filter fun p => !p.isEmpty with
  | some parent =>
    Action.attempt (.request (.makeDirectories parent)) (.uncreatableDirectory parent)
  | none => pure ()
  start target

/-- Removes the staging file. That it is gone already does no harm. -/
def discard (s : Staged) : Action Unit := do
  let _ ← Action.request (.remove s.staging)

/-- Brings what was printed into the staging file. -/
def save (s : Staged) : Script (Except OsError Unit) :=
  .request (.write s.staging s.printer.sink.data.toList)

/-- Stops with an error, and the staging file is removed. -/
def fail {α : Type} (s : Staged) (e : RunError) : Action α := do
  s.discard
  throw e

/-- Moves a complete output over its target. -/
def commit (s : Staged) : Action Written := do
  match s.printer.flush with
  | (.error e, _) => s.fail (.incompleteFile s.target (.sink e))
  | (.ok _, printer) =>
    match ← ExceptT.lift (save { s with printer }) with
    | .error e => s.fail (.incompleteFile s.target (.sink ⟨.other, e.message⟩))
    | .ok _ =>
      match ← Action.request (.rename s.staging s.target) with
      | .error e => s.fail (.unwritableFile s.target e)
      | .ok _ => return { path := s.target, bytes := printer.written }

end Staged

end Packwright
