import Packwright.Wire

/-
  Dynamic values: what the encoder is given at run time. A record is a list of named values in
  the order of their first insertion (`Assoc.ofList`). `dynamic` is the encoding that looks at
  nothing but the value.
-/

namespace Packwright

/-- A dynamic value. Floating point numbers are given by their bits. -/
inductive Value where
  | nil
  | bool (b : Bool)
  | int (n : Int64)
  | uint (n : UInt64)
  | float32 (bits : UInt32)
  | float64 (bits : UInt64)
  | str (s : String)
  | bin (data : Bytes)
  | time (secs : Int64) (nanos : UInt32)
  | ext (type : Int8) (data : Bytes)
  | array (items : List Value)
  | map (entries : List (Value × Value))
  | record (fields : List (String × Value))

namespace Value

/-- The word for the kind of a value, as error messages use it. -/
def kindName : Value → String
  | nil => "nil"
  | bool _ => "bool"
  | int _ => "int"
  | uint _ => "uint"
  | float32 _ => "float32"
  | float64 _ => "float64"
  | str _ => "string"
  | bin _ => "bytes"
  | time _ _ => "time"
  | ext _ _ => "extension"
  | array _ => "array"
  | map _ => "map"
  | record _ => "record"

mutual

/-- How deeply containers are nested in a value. -/
def height : Value → Nat
  | array items => heights items + 1
  | map entries => entryHeights entries + 1
  | record fields => fieldHeights fields + 1
  | _ => 0

/-- The largest height in a list of values. -/
def heights : List Value → Nat
  | [] => 0
  | v :: rest => max v.height (heights rest)

/-- The largest height among the keys and values of a map. -/
def entryHeights : List (Value × Value) → Nat
  | [] => 0
  | (k, v) :: rest => max (max k.height v.height) (entryHeights rest)

/-- The largest height among the values of a record. -/
def fieldHeights : List (String × Value) → Nat
  | [] => 0
  | (_, v) :: rest => max v.height (fieldHeights rest)

end

mutual

/-- The bytes of a value, chosen by its own kind alone. A record is a map with string keys. -/
def dynamic : Value → Bytes
  | nil => Wire.nil
  | bool b => Wire.bool b
  | int n => Wire.int n
  | uint n => Wire.uint n
  | float32 bits => Wire.float32 bits
  | float64 bits => Wire.float64 bits
  | str s => Wire.str s
  | bin data => Wire.bin data
  | time secs nanos => Wire.time secs nanos
  | ext type data => Wire.ext type data
  | array items => Wire.arrayHeader (UInt32.ofNat items.length) ++ dynamicItems items
  | map entries => Wire.mapHeader (UInt32.ofNat entries.length) ++ dynamicEntries entries
  | record fields => Wire.mapHeader (UInt32.ofNat fields.length) ++ dynamicFields fields

/-- The bytes of the elements of an array. -/
def dynamicItems : List Value → Bytes
  | [] => []
  | v :: rest => v.dynamic ++ dynamicItems rest

/-- The bytes of the entries of a map. -/
def dynamicEntries : List (Value × Value) → Bytes
  | [] => []
  | (k, v) :: rest => k.dynamic ++ v.dynamic ++ dynamicEntries rest

/-- The bytes of the entries of a record. -/
def dynamicFields : List (String × Value) → Bytes
  | [] => []
  | (k, v) :: rest => Wire.str k ++ v.dynamic ++ dynamicFields rest

end

end Value

end Packwright
