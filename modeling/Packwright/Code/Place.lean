import Packwright.Shape

/-
  Expressions of generated code that denote the value being encoded. A variable is a place, such
  as `self.x`, or a local name that holds a reference. Local names are numbered from one within
  each generated function.
-/

namespace Packwright

/-- A numbered local name. -/
structure Local where
  stem : String
  number : Nat
deriving DecidableEq

/-- The digits behind the stem of a local name. -/
def localSuffix (number : Nat) : String := Decimal.padded 4 number

/-- The text of a local name. -/
def Local.text (l : Local) : String := l.stem ++ localSuffix l.number

/-- The numbers of local names drawn so far. -/
structure NameSupply where
  last : Nat := 0

namespace NameSupply

/-- The next number. -/
def draw (s : NameSupply) : Nat × NameSupply := (s.last + 1, ⟨s.last + 1⟩)

end NameSupply

/-- An expression that denotes a value. -/
inductive Place where
  /-- The receiver. -/
  | self
  /-- The value inside a receiver that is not a struct. -/
  | wrapped
  /-- Any other expression, given by its text. -/
  | given (text : String)
  /-- A local name. -/
  | bound (l : Local)
  /-- A field of a place. -/
  | field (base : Place) (name : String)
deriving DecidableEq

/-- The text of a place. -/
def Place.text : Place → String
  | self => "self"
  | wrapped => "self.0"
  | given text => text
  | bound l => l.text
  | field base name => base.text ++ "." ++ name

/-- A place, and whether it holds a reference to the value rather than the value. -/
structure Var where
  place : Place
  byRef : Bool := false
deriving DecidableEq

namespace Var

/-- The receiver's own value: the receiver of a struct, else what it wraps. -/
def receiver : Shape → Var
  | .struct _ _ => ⟨.self, false⟩
  | _ => ⟨.wrapped, false⟩

/-- A local name, which holds a reference. -/
def ofLocal (l : Local) : Var := ⟨.bound l, true⟩

/-- The field of a variable. -/
def field (v : Var) (name : String) : Var := ⟨.field v.place name, false⟩

/-- The text of the value itself. -/
def value (v : Var) : String :=
  if v.byRef then "*" ++ v.place.text else v.place.text

/-- The text of a reference to the value. The receiver is one already. -/
def reference (v : Var) : String :=
  if v.byRef || v.place.text == "self" then v.place.text else "&" ++ v.place.text

end Var

/-- What generated code hands to a runtime primitive or a test. -/
inductive Arg where
  /-- The place as it stands. -/
  | place (p : Place)
  /-- The value. -/
  | value (v : Var)
  /-- A reference to the value. -/
  | reference (v : Var)
  /-- The value, converted to a type. -/
  | converted (type : String) (v : Var)
  /-- The value, seen as a text. -/
  | asText (v : Var)
  /-- The value, seen as bytes. -/
  | asBytes (v : Var)
deriving DecidableEq

/-- The text of an argument. -/
def Arg.text : Arg → String
  | place p => p.text
  | value v => v.value
  | reference v => v.reference
  | converted type v => type ++ "::from(" ++ v.value ++ ")"
  | asText v => "AsRef::<str>::as_ref(" ++ v.reference ++ ")"
  | asBytes v => "AsRef::<[u8]>::as_ref(" ++ v.reference ++ ")"

/-- A scalar as the argument of its primitive. -/
def BaseInfo.arg (info : BaseInfo) (v : Var) : Arg :=
  if info.kind.isCopy then
    if info.needsConversion then .converted info.underlying v else .value v
  else if info.needsConversion then
    match info.kind with
    | .string => .asText v
    | .bytes => .asBytes v
    | _ => .reference v
  else .reference v

end Packwright
