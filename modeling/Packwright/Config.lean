/-
  Settings of the generators: the map protocol of structs, where generated code finds the
  runtime primitives, and how it is laid out.
-/

namespace Packwright

/-- How structs that are not tuples are written. -/
inductive Protocol where
  /-- Maps keyed by zid, empty fields left out, with an entry that identifies the type. -/
  | fast
  /-- Maps keyed as the struct says, tagged fields left out when empty. -/
  | msgp2
deriving DecidableEq

/-- The word for a protocol. -/
def Protocol.word : Protocol → String
  | fast => "fast"
  | msgp2 => "msgp2"

/-- The protocol with a given word. -/
def Protocol.ofWord? (w : String) : Option Protocol :=
  [fast, msgp2].find? fun p => p.word == w

/-- The unit of indentation of generated code. -/
inductive Indent where
  | spaces4
  | spaces2
  | tabs
deriving DecidableEq

namespace Indent

/-- The word for a unit of indentation. -/
def word : Indent → String
  | spaces4 => "spaces4"
  | spaces2 => "spaces2"
  | tabs => "tabs"

/-- The unit of indentation with a given word. -/
def ofWord? (w : String) : Option Indent :=
  [spaces4, spaces2, tabs].find? fun i => i.word == w

/-- One level of indentation. -/
def unit : Indent → List Char
  | spaces4 => [' ', ' ', ' ', ' ']
  | spaces2 => [' ', ' ']
  | tabs => ['\t']

/-- The indentation at a depth. -/
def text (i : Indent) (depth : Nat) : String :=
  String.ofList (List.replicate depth i.unit).flatten

end Indent

/-- Settings of the generators. -/
structure Config where
  protocol : Protocol := .fast
  runtimePath : String := "zebrapack_runtime::msgp"
  fuse : Bool := true
  indent : Indent := .spaces4
  docs : Bool := true

namespace Config

/-- Drops colon pairs from the front. -/
def dropColons : List Char → List Char
  | ':' :: ':' :: rest => dropColons rest
  | rest => rest

/-- The line that brings the runtime into scope as `msgp`, empty if it is there already. -/
def runtimeImport (c : Config) : String :=
  let reversed := dropColons c.runtimePath.toList.reverse
  let path := String.ofList reversed.reverse
  if path = "msgp" then ""
  else if ['p', 'g', 's', 'm', ':', ':'].isPrefixOf reversed then "use " ++ path ++ ";"
  else "use " ++ path ++ " as msgp;"

end Config

end Packwright
