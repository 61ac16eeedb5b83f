import Packwright.Command.Run

/-
  The program: its command line as a script, answered by the operating system.
-/

namespace Packwright

/-- The failure that an error of the operating system stands for. -/
def OsError.ofSystem (e : IO.Error) : OsError :=
  match e with
  | .noFileOrDirectory .. => .notFound
  | .alreadyExists .. => .alreadyExists
  | .resourceBusy .. => .busy
  | .inappropriateType _ 20 _ => .notDirectory
  | .inappropriateType _ 21 _ => .isDirectory
  | .invalidArgument _ 36 _ => .nameTooLong
  | .invalidArgument _ 22 "string contains NUL bytes" => .containsNul
  | e => .other (toString e)

/-- An operation whose failure is an answer. -/
def attemptSystem {α : Type} (operation : IO α) : IO (Except OsError α) := do
  try
    return .ok (← operation)
  catch e =>
    return .error (.ofSystem e)

/-- A positive random number. -/
def randomId : IO Int64 := do
  let bytes ← IO.getRandomBytes 8
  let n := bytes.toList.foldl (fun n b => n * 256 + b.toNat) 0
  return Int64.ofNat (max (n / 2) 1)

/-- The operating system's answer to a request. -/
def Request.perform : (r : Request) → IO r.Reply
  | .present p => do
    match ← attemptSystem (IO.FS.Handle.mk p .read) with
    | .ok _ => return true
    | .error _ => return false
  | .read p => attemptSystem do return (← IO.FS.readBinFile p).toList
  | .write p content => attemptSystem (IO.FS.writeBinFile p ⟨content.toArray⟩)
  | .create p => attemptSystem do
    IO.FS.writeBinFile p ⟨#[]⟩
    return .memory
  | .makeDirectories p => attemptSystem (IO.FS.createDirAll p)
  | .rename source target => attemptSystem (IO.FS.rename source target)
  | .remove p => attemptSystem (IO.FS.removeFile p)
  | .print text => do
    let out ← IO.getStdout
    out.putStr text
    out.flush
  | .tell text => IO.eprint text
  | .freshId => randomId

/-- Runs a script with the operating system's answers. -/
def Script.perform {α : Type} : Script α → IO α
  | .done a => return a
  | .ask r next => do (next (← r.perform)).perform

end Packwright

/-- Runs a command line. -/
def main (words : List String) : IO UInt32 := do
  return (← (Packwright.runArguments words).perform).toUInt32
