import Packwright.Wire

/-
  Scalar kinds and map key kinds: their words in documents, schemas and generated code, and the
  classes the generators distinguish.
-/

namespace Packwright

/-- The kind of a scalar. An identifier stands for a named identity, an interface for a value
of any kind, and an extension for an application-defined payload. -/
inductive Kind where
  | identifier
  | interface
  | extension
  | bytes
  | string
  | float32
  | float64
  | uint
  | uint8
  | uint16
  | uint32
  | uint64
  | byte
  | int
  | int8
  | int16
  | int32
  | int64
  | bool
  | time
deriving DecidableEq

namespace Kind

/-- All kinds. -/
def all : List Kind :=
  [identifier, interface, extension, bytes, string, float32, float64, uint, uint8, uint16, uint32,
    uint64, byte, int, int8, int16, int32, int64, bool, time]

/-- The word for a kind in documents, schemas and error messages. -/
def word : Kind → String
  | identifier => "identifier"
  | interface => "interface"
  | extension => "extension"
  | bytes => "bytes"
  | string => "string"
  | float32 => "float32"
  | float64 => "float64"
  | uint => "uint"
  | uint8 => "uint8"
  | uint16 => "uint16"
  | uint32 => "uint32"
  | uint64 => "uint64"
  | byte => "byte"
  | int => "int"
  | int8 => "int8"
  | int16 => "int16"
  | int32 => "int32"
  | int64 => "int64"
  | bool => "bool"
  | time => "time"

/-- The kind with a given word. -/
def ofWord? (w : String) : Option Kind :=
  all.find? fun k => k.word == w

/-- The word for a kind in the names of the runtime primitives. -/
def primitive : Kind → String
  | identifier => "ident"
  | interface => "intf"
  | k => k.word

/-- Whether another definition decides how the value is written. -/
def isDelegated : Kind → Bool
  | identifier | interface | extension => true
  | _ => false

/-- Whether the kind holds one byte, so that an array of it is a byte string. -/
def isSingleByte : Kind → Bool
  | byte | uint8 => true
  | _ => false

/-- Whether the kind is a signed integer. -/
def isSigned : Kind → Bool
  | int | int8 | int16 | int32 | int64 => true
  | _ => false

/-- Whether the kind is an unsigned integer. -/
def isUnsigned : Kind → Bool
  | uint | uint8 | uint16 | uint32 | uint64 | byte => true
  | _ => false

/-- Whether the kind is a floating point number. -/
def isFloat : Kind → Bool
  | float32 | float64 => true
  | _ => false

/-- Whether generated code passes the kind by value. -/
def isCopy (k : Kind) : Bool :=
  k.isSigned || k.isUnsigned || k.isFloat || k == bool

/-- The type of the kind in generated code, where it has one of its own. -/
def nativeType? : Kind → Option String
  | bytes => some "Vec<u8>"
  | string => some "String"
  | float32 => some "f32"
  | float64 => some "f64"
  | uint | uint64 => some "u64"
  | uint8 | byte => some "u8"
  | uint16 => some "u16"
  | uint32 => some "u32"
  | int | int64 => some "i64"
  | int8 => some "i8"
  | int16 => some "i16"
  | int32 => some "i32"
  | bool => some "bool"
  | identifier | interface | extension | time => none

/-- The largest encoded size of the kind, when it does not depend on the value. -/
def fixedSize? : Kind → Option Nat
  | bool => some Wire.boolSize
  | int8 | uint8 | byte => some Wire.int8Size
  | int16 | uint16 => some Wire.int16Size
  | int32 | uint32 => some Wire.int32Size
  | int | int64 | uint | uint64 => some Wire.int64Size
  | float32 => some Wire.float32Size
  | float64 => some Wire.float64Size
  | time => some Wire.timeSize
  | string | bytes | identifier | interface | extension => none

end Kind

/-- The kind of the keys of a map or of a struct. -/
inductive KeyKind where
  | int64
  | string
deriving DecidableEq

namespace KeyKind

/-- The word for a key kind. -/
def word : KeyKind → String
  | int64 => "int64"
  | string => "string"

/-- The key kind with a given word. -/
def ofWord? (w : String) : Option KeyKind :=
  [int64, string].find? fun k => k.word == w

end KeyKind

end Packwright
