import Packwright.Config
import Packwright.Shape

/-
  The wire layout of a struct: which header it has, the bytes of each key, and which fields are
  left out when they are empty. Zids are checked here, so that every consumer of a layout fails
  in the same way on the same struct.
-/

namespace Packwright

/-- How a struct is written. -/
inductive Mode where
  /-- An array of the field values. -/
  | tuple
  /-- A map keyed by zid, with an entry that identifies the type and without empty fields. -/
  | fast
  /-- A map without the tagged fields that are empty. -/
  | omitEmpty
  /-- A map of all fields. -/
  | static
deriving DecidableEq

/-- Whether the number of entries is only known at run time. -/
def Mode.isDynamic : Mode → Bool
  | fast | omitEmpty => true
  | tuple | static => false

/-- A live field on the wire. -/
structure Slot where
  /-- The place of the field in the declaration, which is also the place of its flag. -/
  index : Nat
  field : Field
  /-- The encoded key, empty in a tuple. -/
  key : Bytes
  /-- Whether the field is left out when it is empty. -/
  conditional : Bool

/-- The wire layout of a struct. -/
structure Layout where
  name : String
  mode : Mode
  /-- The header, when the number of entries is known beforehand. -/
  header : Option Bytes
  /-- The entry that identifies the type. -/
  fingerprint : Option Bytes
  intKeys : Bool
  /-- The number of declared fields. -/
  declared : Nat
  /-- The number of live fields. -/
  live : Nat
  slots : List Slot

namespace Layout

/-- How a struct is written under a protocol. -/
def modeOf (info : StructInfo) (protocol : Protocol) : Mode :=
  if info.asTuple then .tuple
  else if protocol = .fast then .fast
  else if info.hasOmitEmptyTags then .omitEmpty
  else .static

/-- Whether the keys of a struct are zids. -/
def usesIntKeys (info : StructInfo) : Mode → Bool
  | .tuple => false
  | .fast => true
  | .omitEmpty | .static => info.keyKind == .int64

/-- Every field has a zid, and no two the same. `seen` holds the fields before. -/
def checkZids (struct : String) (seen : List (Int64 × String)) : List Field → Except Error Unit
  | [] => .ok ()
  | f :: rest =>
    if !f.hasZid then .error (.missingZid struct f.info.name)
    else match seen.find? fun s => s.1 == f.info.zid with
      | some (zid, first) => .error (.duplicateZid struct zid first f.info.name)
      | none => checkZids struct ((f.info.zid, f.info.name) :: seen) rest

/-- The slot of a live field. -/
def slotOf (mode : Mode) (intKeys : Bool) (f : Field) (index : Nat) : Slot where
  index
  field := f
  key := match mode with
    | .tuple => []
    | _ => if intKeys then Wire.int f.info.zid else Wire.str f.info.name
  conditional := match mode with
    | .fast => true
    | .omitEmpty => f.info.omitEmpty
    | .tuple | .static => false

/-- The layout of a struct under a protocol. -/
def plan (protocol : Protocol) (info : StructInfo) (fields : List Field) :
    Except Fault Layout := do
  let live ← info.liveCount fields
  let mode := modeOf info protocol
  let intKeys := usesIntKeys info mode
  if intKeys then
    match checkZids info.name [] ((Field.live fields).map Prod.fst) with
    | .ok _ => pure ()
    | .error e => throw (.error e)
  return {
    name := info.name
    mode
    header := match mode with
      | .tuple => some (Wire.arrayHeader (UInt32.ofNat live))
      | .static => some (Wire.mapHeader (UInt32.ofNat live))
      | .fast | .omitEmpty => none
    fingerprint := match mode with
      | .fast => some (Wire.fingerprint info.name)
      | _ => none
    intKeys
    declared := fields.length
    live
    slots := (Field.live fields).map fun f => slotOf mode intKeys f.1 f.2 }

/-- The number of map entries when `inUse` fields are written. The sum has to fit 32 bits. -/
def entryCount (l : Layout) (inUse : UInt32) : Except Fault UInt32 :=
  match l.mode with
  | .fast => if inUse.toNat + 1 < UInt32.size then .ok (inUse + 1) else .error .overflow
  | _ => .ok inUse

/-- Whether a field may be left out. -/
def hasConditional (l : Layout) : Bool := l.slots.any Slot.conditional

end Layout

end Packwright
