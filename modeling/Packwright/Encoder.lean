import Packwright.Bytes
import Packwright.Emptiness
import Packwright.Layout
import Packwright.Table

/-
  The encoder: the bytes of a value as a shape of a finalized table. This is the meaning of the
  generated code. Constant bytes pass through a fusion buffer; whether fusion is on does not show
  in the result.

  Identifiers lead to other identities, so neither the shape nor the value shrinks at every step,
  and the recursion is bounded by a depth. `depthBudget` is deep enough for every encoding that
  ends; one that goes deeper follows a circle of pointers and identifiers and has no end.
-/

namespace Packwright

/-- What an encoder needs to know besides the shape: the table, the protocol, and whether
constant bytes are fused. -/
structure Encoder where
  table : Table
  protocol : Protocol
  fuse : Bool

/-- The output of one encoding: the bytes written and those held back. -/
structure Output where
  written : Array UInt8 := #[]
  fusion : Fusion := .empty

namespace Output

/-- Writes the bytes that were held back. -/
def flush (o : Output) : Output :=
  match o.fusion.flush with
  | (some bytes, fusion) => ⟨o.written ++ bytes, fusion⟩
  | (none, _) => o

/-- Takes constant bytes. -/
def constant (o : Output) (fuse : Bool) (bytes : Bytes) : Output :=
  let o := { o with fusion := o.fusion.append bytes }
  if fuse then o else o.flush

/-- Takes bytes that depend on the value. -/
def dynamic (o : Output) (bytes : Bytes) : Output :=
  let o := o.flush
  { o with written := o.written ++ bytes }

end Output

/-- A value of another kind than expected. -/
def wrongKind (expected : String) (found : Value) : Fault :=
  .error (.mismatch expected found.kindName)

namespace Encoder

/-- The bytes of a scalar that is not an identifier. -/
def scalar (kind : Kind) (v : Value) : Except Fault Bytes :=
  match kind, v with
  | .interface, v => .ok v.dynamic
  | .extension, .ext type data => .ok (Wire.ext type data)
  | .bool, .bool b => .ok (Wire.bool b)
  | .string, .str s => .ok (Wire.str s)
  | .bytes, .bin data => .ok (Wire.bin data)
  | .float32, .float32 bits => .ok (Wire.float32 bits)
  | .float32, .float64 bits => .ok (Wire.float32 (FloatBits.narrow bits))
  | .float64, .float64 bits => .ok (Wire.float64 bits)
  | .float64, .float32 bits => .ok (Wire.float64 (FloatBits.widen bits))
  | .time, .time secs nanos => .ok (Wire.time secs nanos)
  | kind, .int n => if kind.isSigned then .ok (Wire.int n) else .error (wrongKind kind.word v)
  | kind, .uint n => if kind.isUnsigned then .ok (Wire.uint n) else .error (wrongKind kind.word v)
  | kind, _ => .error (wrongKind kind.word v)

/-- The bytes of a map key. -/
def mapKey (key : KeyKind) (v : Value) : Except Fault Bytes :=
  match key, v with
  | .string, .str s => .ok (Wire.str s)
  | .int64, .int n => .ok (Wire.int n)
  | .string, _ => .error (wrongKind "string key" v)
  | .int64, _ => .error (wrongKind "int key" v)

/-- The byte that an element of a byte array stands for. -/
def arrayByte (v : Value) : Except Fault UInt8 :=
  match v with
  | .uint n => if n.toNat < 256 then .ok (UInt8.ofNat n.toNat) else .error (wrongKind "byte" v)
  | _ => .error (wrongKind "byte" v)

/-- The contents of a byte array of a given size. -/
def byteArray (size : Nat) (v : Value) : Except Fault Bytes := do
  let data ← match v with
    | .bin data => pure data
    | .array items => items.mapM arrayByte
    | _ => throw (wrongKind "byte array" v)
  if data.length = size then return data
  else throw (.error (.mismatch (Decimal.ofNat size ++ " bytes")
    (Decimal.ofNat data.length ++ " bytes")))

/-- The value of each slot, and whether it is left out. -/
def slotValues (struct : String) (fields : List (String × Value)) (slots : List Slot) :
    Except Fault (List (Slot × Value × Bool)) :=
  slots.mapM fun slot =>
    match Assoc.get? fields slot.field.info.name with
    | some v => .ok (slot, v, slot.conditional && (Emptiness.of slot.field.value).holds v)
    | none => .error (.error (.missingField struct slot.field.info.name))

/-- The header of a struct and the entry that identifies its type. -/
def structHeader (e : Encoder) (layout : Layout) (values : List (Slot × Value × Bool))
    (o : Output) : Except Fault Output := do
  let o ← match layout.header with
    | some header => pure (o.constant e.fuse header)
    | none =>
      let inUse := values.countP fun x => !x.2.2
      let count ← layout.entryCount (UInt32.ofNat inUse)
      pure (o.dynamic (Wire.mapHeader count))
  return match layout.fingerprint with
    | some entry => o.constant e.fuse entry
    | none => o

/-- Encodes a value as a shape, to a given depth of recursion. -/
def shape (e : Encoder) : Nat → Shape → Value → Output → Except Fault Output
  | 0, _, _, _ => .error .tooDeep
  | depth + 1, s, v, o =>
    match s with
    | .struct info fields =>
      match v with
      | .record values => do
        let layout ← Layout.plan e.protocol info fields
        let values ← slotValues info.name values layout.slots
        let o ← e.structHeader layout values o
        values.foldlM (fun o (slot, v, omitted) =>
          if omitted then .ok o
          else e.shape depth slot.field.value v (o.constant e.fuse slot.key)) o
      | _ => .error (wrongKind ("record " ++ info.name) v)
    | .map key value =>
      match v with
      | .map entries =>
        entries.foldlM (fun o (k, v) => do
          e.shape depth value v (o.dynamic (← mapKey key k)))
          (o.dynamic (Wire.mapHeader (UInt32.ofNat entries.length)))
      | _ => .error (wrongKind "map" v)
    | .slice element =>
      match v with
      | .array items =>
        items.foldlM (fun o v => e.shape depth element v o)
          (o.dynamic (Wire.arrayHeader (UInt32.ofNat items.length)))
      | _ => .error (wrongKind "array" v)
    | .array info element => do
      let size ← info.resolvedSize
      if element.isSingleByte then
        return o.dynamic (Wire.bin (← byteArray size v))
      else match v with
        | .array items =>
          if items.length = size then
            items.foldlM (fun o v => e.shape depth element v o)
              (o.constant e.fuse (Wire.arrayHeader (UInt32.ofNat size)))
          else throw (.error (.mismatch (Decimal.ofNat size ++ " elements")
            (Decimal.ofNat items.length ++ " elements")))
        | _ => throw (wrongKind "array" v)
    | .ptr pointee =>
      match v with
      | .nil => .ok (o.constant e.fuse Wire.nil)
      | _ => e.shape depth pointee v o
    | .base info =>
      if info.kind = .identifier then
        let name := info.typeName.getD ""
        match e.table.get? name with
        | some target => e.shape depth target v o.flush
        | none => .error (.error (.unknownIdentity name))
      else do return o.dynamic (← scalar info.kind v)

/-- A depth of recursion that is enough for every encoding that ends: for each level of the value
at most every identity is entered once, and each is followed through its levels. -/
def depthBudget (e : Encoder) (s : Shape) (v : Value) : Nat :=
  (v.height + 1) * ((e.table.size + 1) * (max s.height e.table.height + 1)) + 1

/-- The bytes of a value as a shape. -/
def encodeShape (e : Encoder) (s : Shape) (v : Value) : Except Fault Bytes := do
  let o ← e.shape (e.depthBudget s v) s v {}
  return o.flush.written.toList

/-- The bytes of a value as a named identity. -/
def encode (e : Encoder) (name : String) (v : Value) : Except Fault Bytes :=
  match e.table.get? name with
  | some s => e.encodeShape s v
  | none => .error (.error (.unknownIdentity name))

end Encoder

end Packwright
