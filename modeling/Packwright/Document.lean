import Packwright.Assoc
import Packwright.Json

/-
  Rules for reading typed data out of a JSON document. A record is an object whose known members
  occur at most once, unknown ones being ignored, or a list of its members in declared order. A
  word out of a fixed set is a string, or an object with that word as its only key and null under
  it. Reading gives `none` when the document has another form.
-/

namespace Packwright.Document

/-- The members of a record, as found in a document. -/
abbrev Members := List (String × Json)

/-- The members of a record with the given member names. -/
def members? (names : List String) : Json → Option Members
  | .obj found =>
    let known := found.filter fun m => names.contains m.1
    if (Assoc.names known).Nodup then some known else none
  | .arr items => if items.length ≤ names.length then some (names.zip items) else none
  | _ => none

/-- A member that has to be present. -/
def required {α : Type} (ms : Members) (name : String) (read : Json → Option α) : Option α := do
  read (← Assoc.get? ms name)

/-- A member that may be absent. -/
def optional {α : Type} (ms : Members) (name : String) (default : α) (read : Json → Option α) :
    Option α :=
  match Assoc.get? ms name with
  | none => some default
  | some v => read v

/-- A string. -/
def text? : Json → Option String
  | .str s => some s
  | _ => none

/-- A boolean. -/
def flag? : Json → Option Bool
  | .bool b => some b
  | _ => none

/-- A signed 64-bit integer. -/
def int64? : Json → Option Int64
  | .int n =>
    if Int64.minValue.toInt ≤ n ∧ n ≤ Int64.maxValue.toInt then some (Int64.ofInt n) else none
  | _ => none

/-- A 64-bit count. -/
def count? : Json → Option Nat
  | .int n => if 0 ≤ n ∧ n < UInt64.size then some n.toNat else none
  | _ => none

/-- A value or null. -/
def nullable {α : Type} (read : Json → Option α) : Json → Option (Option α)
  | .null => some none
  | v => (read v).map some

/-- A list. -/
def list? {α : Type} (read : Json → Option α) : Json → Option (List α)
  | .arr items => items.mapM read
  | _ => none

/-- A word out of a fixed set. -/
def word? {α : Type} (ofWord : String → Option α) : Json → Option α
  | .str s => ofWord s
  | .obj [(s, .null)] => ofWord s
  | _ => none

/-- A word out of a fixed set as a member of a shape, where an empty object does for null. -/
def memberWord? {α : Type} (ofWord : String → Option α) : Json → Option α
  | .obj [(s, .obj [])] => ofWord s
  | v => word? ofWord v

end Packwright.Document
