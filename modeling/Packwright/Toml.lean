import Packwright.Assoc

/-
  TOML documents: strings, numbers, booleans, dates and times, lists and tables.

  A table remembers how it came to be, because that decides what may still be added to it. A list
  that repeated section headers fill is kept apart from one that is written out, which is complete
  where it ends. A number may have the right form and no value; it is refused where it is used.
-/

namespace Packwright

namespace Toml

/-- How a table came to be. -/
inductive Origin where
  /-- By a section header of its own. -/
  | header
  /-- On the way to the table of a section header. -/
  | implied
  /-- On the way to the value of a dotted key. -/
  | dotted
  /-- As a value in braces. -/
  | braces
deriving DecidableEq

/-- The number of lists and tables in braces that may be open at once, and of the parts of a
key. -/
def nestingLimit : Nat := 80

end Toml

/-- A TOML value. -/
inductive Toml where
  | str (s : String)
  | int (n : Int)
  | float (text : String)
  | bool (b : Bool)
  /-- A date, a time of the day, or both, as it is written. -/
  | moment (text : String)
  /-- A number that has no value, because it is too large or its digits are not of its base. -/
  | flawed
  | list (items : List Toml)
  /-- The tables of a repeated section header. -/
  | sections (tables : List Toml)
  | table (origin : Toml.Origin) (entries : List (String × Toml))

namespace Toml

/-- The entries of a table. -/
abbrev Entries := List (String × Toml)

/-- The items of a list. -/
def items? : Toml → Option (List Toml)
  | list items => some items
  | sections tables => some tables
  | _ => none

mutual

/-- Whether a value can be used throughout. -/
def isSound : Toml → Bool
  | str _ | int _ | float _ | bool _ | moment _ => true
  | flawed => false
  | list items => areItemsSound items
  | sections tables => areItemsSound tables
  | table _ entries => areEntriesSound entries

/-- Whether the items of a list can be used. -/
def areItemsSound : List Toml → Bool
  | [] => true
  | v :: rest => v.isSound && areItemsSound rest

/-- Whether the entries of a table can be used. -/
def areEntriesSound : List (String × Toml) → Bool
  | [] => true
  | (_, v) :: rest => v.isSound && areEntriesSound rest

end

/-- Changes the last item of a list. -/
def changeLast (f : Toml → Option Toml) : List Toml → Option (List Toml)
  | [] => none
  | [v] => do return [← f v]
  | v :: rest => do return v :: (← changeLast f rest)

/-- Changes the entries of a table. -/
def changeEntries (f : Entries → Option Entries) : Toml → Option Toml
  | table origin entries => do return table origin (← f entries)
  | _ => none

/-- Changes the entries of a table, or of the last table of a repeated section header. -/
def changeTable (f : Entries → Option Entries) : Toml → Option Toml
  | sections tables => do return sections (← changeLast (changeEntries f) tables)
  | v => changeEntries f v

/-- Whether a dotted key may go through a value: to another table on its way, or to the entry
itself. -/
def admitsDotted (isLast : Bool) : Toml → Bool
  | table .dotted _ => true
  | table .implied _ | sections _ => !isLast
  | _ => false

/-- Enters a value under a key of one or more parts. A key is entered once. -/
def assign (v : Toml) : List String → Entries → Option Entries
  | [], _ => none
  | [name], es =>
    match Assoc.get? es name with
    | some _ => none
    | none => some (Assoc.insert es name v)
  | name :: rest, es =>
    match Assoc.get? es name with
    | none => do return Assoc.insert es name (table .dotted (← assign v rest []))
    | some old =>
      if old.admitsDotted (rest.length == 1) then do
        return Assoc.insert es name (← old.changeTable fun inner => assign v rest inner)
      else none

/-- Whether a section header may go through a value. -/
def admitsHeader : Toml → Bool
  | table .braces _ => false
  | table .. | sections _ => true
  | _ => false

/-- What a section header makes of the value that its key has so far. A table has one header. -/
def section? : Option Toml → Option Toml
  | none => some (table .header [])
  | some (table .implied inner) => some (table .header inner)
  | some _ => none

/-- What a repeated section header makes of the value that its key has so far. -/
def repeated? : Option Toml → Option Toml
  | none => some (sections [table .header []])
  | some (sections tables) => some (sections (tables ++ [table .header []]))
  | some _ => none

/-- Opens the table of a section header, given what the header makes of a value. -/
def openSection (make : Option Toml → Option Toml) : List String → Entries → Option Entries
  | [], _ => none
  | [name], es => do return Assoc.insert es name (← make (Assoc.get? es name))
  | name :: rest, es =>
    match Assoc.get? es name with
    | none => do return Assoc.insert es name (table .implied (← openSection make rest []))
    | some old =>
      if old.admitsHeader then do
        return Assoc.insert es name (← old.changeTable fun inner => openSection make rest inner)
      else none

/-- Changes the entries of the table that a section is in. -/
def changeAt (f : Entries → Option Entries) : List String → Entries → Option Entries
  | [], es => f es
  | name :: rest, es => do
    let old ← Assoc.get? es name
    return Assoc.insert es name (← old.changeTable fun inner => changeAt f rest inner)

end Toml

end Packwright
