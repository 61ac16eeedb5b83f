import Packwright.Bytes

/-
  MessagePack primitives. Each function gives the bytes of one value or header, always in the
  shortest form that holds it. A header takes a 32-bit count; a caller with a larger count
  narrows it first and keeps the low 32 bits.
-/

namespace Packwright.Wire

/-- The nil object. -/
def nil : Bytes := [0xc0]

/-- A boolean. -/
def bool (b : Bool) : Bytes := [if b then 0xc3 else 0xc2]

/-- A signed integer: the first form of the list below that holds it. -/
def int (v : Int64) : Bytes :=
  let n := v.toInt
  if -32 ≤ n ∧ n ≤ 127 then twosComplement 1 n
  else if -128 ≤ n ∧ n ≤ 127 then 0xd0 :: twosComplement 1 n
  else if 0 ≤ n ∧ n ≤ 255 then 0xcc :: twosComplement 1 n
  else if -32768 ≤ n ∧ n ≤ 32767 then 0xd1 :: twosComplement 2 n
  else if 0 ≤ n ∧ n ≤ 65535 then 0xcd :: twosComplement 2 n
  else if -2147483648 ≤ n ∧ n ≤ 2147483647 then 0xd2 :: twosComplement 4 n
  else if 0 ≤ n ∧ n ≤ 4294967295 then 0xce :: twosComplement 4 n
  else 0xd3 :: twosComplement 8 n

/-- An unsigned integer. -/
def uint (v : UInt64) : Bytes :=
  let n := v.toNat
  if n ≤ 127 then bigEndian 1 n
  else if n ≤ 255 then 0xcc :: bigEndian 1 n
  else if n ≤ 65535 then 0xcd :: bigEndian 2 n
  else if n ≤ 4294967295 then 0xce :: bigEndian 4 n
  else 0xcf :: bigEndian 8 n

/-- A single precision number, given by its bits. -/
def float32 (bits : UInt32) : Bytes := 0xca :: bigEndian 4 bits.toNat

/-- A double precision number, given by its bits. -/
def float64 (bits : UInt64) : Bytes := 0xcb :: bigEndian 8 bits.toNat

/-- The header of a string of `n` bytes. -/
def strHeader (n : Nat) : Bytes :=
  if n ≤ 31 then bigEndian 1 (0xa0 + n)
  else if n ≤ 255 then 0xd9 :: bigEndian 1 n
  else if n ≤ 65535 then 0xda :: bigEndian 2 n
  else 0xdb :: bigEndian 4 n

/-- A string. -/
def str (s : String) : Bytes :=
  let text := utf8 s
  strHeader text.length ++ text

/-- The header of a byte string of `n` bytes. -/
def binHeader (n : Nat) : Bytes :=
  if n ≤ 255 then 0xc4 :: bigEndian 1 n
  else if n ≤ 65535 then 0xc5 :: bigEndian 2 n
  else 0xc6 :: bigEndian 4 n

/-- A byte string. -/
def bin (data : Bytes) : Bytes :=
  binHeader data.length ++ data

/-- The header of an array of `count` elements. -/
def arrayHeader (count : UInt32) : Bytes :=
  let n := count.toNat
  if n ≤ 15 then bigEndian 1 (0x90 + n)
  else if n ≤ 65535 then 0xdc :: bigEndian 2 n
  else 0xdd :: bigEndian 4 n

/-- The header of a map of `count` entries. -/
def mapHeader (count : UInt32) : Bytes :=
  let n := count.toNat
  if n ≤ 15 then bigEndian 1 (0x80 + n)
  else if n ≤ 65535 then 0xde :: bigEndian 2 n
  else 0xdf :: bigEndian 4 n

/-- The header of an extension payload of `n` bytes: five lengths have a form of their own. -/
def extHeader (n : Nat) : Bytes :=
  if n = 1 then [0xd4]
  else if n = 2 then [0xd5]
  else if n = 4 then [0xd6]
  else if n = 8 then [0xd7]
  else if n = 16 then [0xd8]
  else if n ≤ 255 then 0xc7 :: bigEndian 1 n
  else if n ≤ 65535 then 0xc8 :: bigEndian 2 n
  else 0xc9 :: bigEndian 4 n

/-- An extension: header, application type, payload. -/
def ext (type : Int8) (data : Bytes) : Bytes :=
  extHeader data.length ++ type.toUInt8 :: data

/-- The application type of timestamps. -/
def timeType : Int8 := 5

/-- The payload of a timestamp: 64-bit seconds, 32-bit nanoseconds. -/
def timePayload (secs : Int64) (nanos : UInt32) : Bytes :=
  twosComplement 8 secs.toInt ++ bigEndian 4 nanos.toNat

/-- A timestamp. -/
def time (secs : Int64) (nanos : UInt32) : Bytes :=
  ext timeType (timePayload secs nanos)

/-- The entry that identifies a struct type: key -1, then the struct's name as a byte string. -/
def fingerprint (name : String) : Bytes :=
  int (-1) ++ bin (utf8 name)

/-! Upper bounds on the size of each form, as used by size estimates. -/

def nilSize : Nat := 1
def boolSize : Nat := 1
def int8Size : Nat := 2
def int16Size : Nat := 3
def int32Size : Nat := 5
def int64Size : Nat := 9
def float32Size : Nat := 5
def float64Size : Nat := 9
def timeSize : Nat := 15
def mapHeaderSize : Nat := 5
def arrayHeaderSize : Nat := 5
def strHeaderSize : Nat := 5
def binHeaderSize : Nat := 5
def extHeaderSize : Nat := 6

end Packwright.Wire
