import Packwright.Files.Tree
import Packwright.RunError
import Packwright.Sink
import Packwright.Text.Lossy

/-
  What a command does, as a value: a script asks for one thing after another and goes on with the
  answers. `Script.run` answers from a world that is a value too, so what a command does to files
  and what it prints are statements about functions. An action is a script that may stop with an
  error.
-/

namespace Packwright

/-- What a command may ask for. -/
inductive Request where
  /-- Whether a path leads to something. -/
  | present (p : Path)
  /-- The content of a file. -/
  | read (p : Path)
  /-- To write a file, which is created if there is none. -/
  | write (p : Path) (content : Bytes)
  /-- To create an empty file, and the device that what it is to hold is printed to. -/
  | create (p : Path)
  /-- To create a directory and those above it, unless they are there. -/
  | makeDirectories (p : Path)
  /-- To move a file over another. -/
  | rename (source target : Path)
  /-- To remove a file. -/
  | remove (p : Path)
  /-- To print a text. -/
  | print (text : String)
  /-- To tell the person at the terminal something. -/
  | tell (text : String)
  /-- A schema id that was not in use before. -/
  | freshId

/-- The type of the answer to a request. -/
abbrev Request.Reply : Request → Type
  | present _ => Bool
  | read _ => Except OsError Bytes
  | create _ => Except OsError Sink
  | write .. | makeDirectories _ | rename .. | remove _ => Except OsError Unit
  | print _ | tell _ => Unit
  | freshId => Int64

/-- A computation that asks for things. -/
inductive Script (α : Type) where
  | done (a : α)
  | ask (r : Request) (next : r.Reply → Script α)

namespace Script

variable {α β : Type}

/-- One script after another. -/
def andThen : Script α → (α → Script β) → Script β
  | done a, f => f a
  | ask r next, f => ask r fun reply => andThen (next reply) f

instance : Monad Script where
  pure := done
  bind := andThen

/-- The script of a single request. -/
def request (r : Request) : Script r.Reply := ask r done

/-- Reads a file as text. -/
def readText (p : Path) : Script (Except OsError String) := do
  match ← request (.read p) with
  | .error e => return .error e
  | .ok content =>
    match Lossy.undamaged? content with
    | some text => return .ok text
    | none => return .error .notText

end Script

/-- Where scripts run: files, how the device of a new file answers, the texts printed and told so
far, and the next fresh id. -/
structure World where
  files : FileTree := {}
  device : Sink := .memory
  printed : String := ""
  told : String := ""
  nextId : Int64 := 1

namespace World

/-- The answer to an operation that changes the files. -/
def change (w : World) (result : Except OsError FileTree) : Except OsError Unit × World :=
  match result with
  | .ok files => (.ok (), { w with files })
  | .error e => (.error e, w)

/-- The answer to a request, and the world after it. -/
def answer (w : World) : (r : Request) → r.Reply × World
  | .present p => (w.files.contains p, w)
  | .read p => (w.files.read p, w)
  | .write p content => w.change (w.files.write p content)
  | .create p =>
    match w.files.write p [] with
    | .ok files => (.ok { w.device with data := #[] }, { w with files })
    | .error e => (.error e, w)
  | .makeDirectories p =>
    let (reply, files) := w.files.makeDirectories p
    (reply, { w with files })
  | .rename source target => w.change (w.files.rename source target)
  | .remove p => w.change (w.files.remove p)
  | .print text => ((), { w with printed := w.printed ++ text })
  | .tell text => ((), { w with told := w.told ++ text })
  | .freshId => (w.nextId, { w with nextId := w.nextId + 1 })

end World

/-- Runs a script in a world. -/
def Script.run {α : Type} : Script α → World → α × World
  | .done a, w => (a, w)
  | .ask r next, w =>
    let (reply, w) := w.answer r
    (next reply).run w

/-- The second of two scripts runs in the world that the first one leaves. -/
theorem Script.run_bind {α β : Type} (s : Script α) (f : α → Script β) (w : World) :
    (s >>= f).run w = (f (s.run w).1).run (s.run w).2 := by
  induction s generalizing w with
  | done a => rfl
  | ask r next ih => exact ih (w.answer r).1 (w.answer r).2

/-- A script that may stop. -/
abbrev Action := ExceptT RunError Script

namespace Action

/-- A request as a step of an action. -/
def request (r : Request) : Action r.Reply := ExceptT.lift (.request r)

/-- A request whose failure ends the action. -/
def attempt {α : Type} (r : Script (Except OsError α)) (e : OsError → RunError) : Action α := do
  match ← ExceptT.lift r with
  | .ok a => return a
  | .error cause => throw (e cause)

/-- Prints a text. -/
def print (text : String) : Action Unit := request (.print text)

/-- Tells the person at the terminal something. -/
def tell (text : String) : Action Unit := request (.tell text)

end Action

end Packwright
