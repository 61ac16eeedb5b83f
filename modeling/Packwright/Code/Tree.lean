import Packwright.Code.Place
import Packwright.Code.Writer

/-
  Generated code as a tree of statements. The lines differ between the generated functions; the
  blocks around them are the same: loops, tests of a flag, and the two arms of an optional value.
-/

namespace Packwright

/-- The flags and the count that tell which fields of a struct are written. -/
inductive Tally where
  /-- Those of the struct the function is generated for. -/
  | outer
  /-- Those of a struct inside it. -/
  | nested (number : Nat)
  /-- Those of the function that computes them. -/
  | computed
deriving DecidableEq

namespace Tally

/-- The name of the flags. -/
def flags : Tally → String
  | outer => "empty"
  | nested number => "empty" ++ localSuffix number
  | computed => "isempty"

/-- The name of the count. -/
def count : Tally → String
  | outer | computed => "fields_in_use"
  | nested number => "fields_in_use" ++ localSuffix number

/-- The flag of a field. -/
def flag (t : Tally) (index : Nat) : String := t.flags ++ "[" ++ Decimal.ofNat index ++ "]"

end Tally

/-- The head of a block. -/
inductive Head where
  /-- For each element of a list. -/
  | items (item : Local) (source : Place)
  /-- For each entry of a map; key and value share a number. -/
  | entries (number : Nat) (source : Place)
  /-- If a flag is set. -/
  | ifFlag (t : Tally) (index : Nat)
  /-- If a flag is not set. -/
  | unlessFlag (t : Tally) (index : Nat)
deriving DecidableEq

/-- The local name of a map key. -/
def keyLocal (number : Nat) : Local := ⟨"zk", number⟩

/-- The local name of a map value. -/
def valueLocal (number : Nat) : Local := ⟨"zv", number⟩

/-- The text of the head of a block. -/
def Head.text : Head → String
  | items item source => "for " ++ item.text ++ " in " ++ source.text ++ ".iter()"
  | entries number source =>
    "for (" ++ (keyLocal number).text ++ ", " ++ (valueLocal number).text ++ ") in " ++
      source.text ++ ".iter()"
  | ifFlag t index => "if " ++ t.flag index
  | unlessFlag t index => "if !" ++ t.flag index

/-- A statement. -/
inductive Code (α : Type) where
  | line (l : α)
  | block (head : Head) (body : List (Code α))
  /-- One arm for a value that is present, which is bound to a name, and one for its absence. -/
  | optional (name : Local) (source : Var) (body orElse : List (Code α))

namespace Code

/-- The head of the arm for a value that is present. -/
def presentHead (name : Local) (source : Var) : String :=
  "if let Some(" ++ name.text ++ ") = " ++ source.reference

/-- The line between the two arms. -/
def otherwise : String := "\x7d else \x7b"

mutual

/-- Writes a statement, given how to write a line. -/
def write {α : Type} (writeLine : Writer → α → Writer) (w : Writer) : Code α → Writer
  | line l => writeLine w l
  | block head body => (writeAll writeLine (w.openBlock head.text) body).closeBlock
  | optional name source body orElse =>
    let w := w.openBlock (presentHead name source)
    let w := (writeAll writeLine w body).reopen otherwise
    (writeAll writeLine w orElse).closeBlock

/-- Writes statements in order. -/
def writeAll {α : Type} (writeLine : Writer → α → Writer) (w : Writer) : List (Code α) → Writer
  | [] => w
  | c :: rest => writeAll writeLine (write writeLine w c) rest

end

end Code

end Packwright
