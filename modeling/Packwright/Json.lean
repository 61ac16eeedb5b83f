/-
  JSON documents as trees. Members of an object stand in the order of the text, repetitions
  included. A number is kept as an integer when it is written as one and fits a 64-bit word,
  signed or unsigned; any other number is kept as it is written. A text can hold values that have
  the right form and stand for nothing: a number that is too large, or a string with half of a
  surrogate pair. A reader may skip such a value, but cannot use it.
-/

namespace Packwright

/-- A JSON document. -/
inductive Json where
  | null
  | bool (b : Bool)
  | int (n : Int)
  | real (literal : String)
  | str (s : String)
  | arr (items : List Json)
  | obj (members : List (String × Json))
  /-- A value that has the right form and stands for nothing. -/
  | flawed

namespace Json

/-- The number of brackets that may be open at once in a text that is read. -/
def nestingLimit : Nat := 127

mutual

/-- Whether a document stands for something throughout. -/
def isSound : Json → Bool
  | null | bool _ | int _ | real _ | str _ => true
  | arr items => areItemsSound items
  | obj members => areMembersSound members
  | flawed => false

/-- Whether the items of an array stand for something. -/
def areItemsSound : List Json → Bool
  | [] => true
  | v :: rest => v.isSound && areItemsSound rest

/-- Whether the members of an object stand for something. -/
def areMembersSound : List (String × Json) → Bool
  | [] => true
  | (_, v) :: rest => v.isSound && areMembersSound rest

end

end Json

end Packwright
