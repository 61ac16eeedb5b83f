import Packwright.Kind
import Packwright.Error
import Packwright.Text.Decimal

/-
  Shapes: descriptions of the types that encoders are generated for. A shape is a tree whose
  nodes are structs, maps, slices, fixed arrays, pointers and scalars; a struct has named fields
  with stable integer ids (zids).
-/

namespace Packwright

/-- What a field is besides its shape. A negative zid means that none was assigned. -/
structure FieldInfo where
  zid : Int64 := -1
  name : String
  omitEmpty : Bool := false
  skip : Bool := false
deriving DecidableEq

/-- What a struct is besides its fields. The last two are computed when a table is finalized. -/
structure StructInfo where
  name : String
  asTuple : Bool := false
  keyKind : KeyKind := .string
  skipCount : Nat := 0
  hasOmitEmptyTags : Bool := false
deriving DecidableEq

/-- The declared size of a fixed array, and its value once it is resolved. -/
structure ArrayInfo where
  size : String
  resolved : Option Nat := none
deriving DecidableEq

/-- A scalar: its kind, the name of its declared type, and whether generated code has to convert
it to the kind's own type first. -/
structure BaseInfo where
  kind : Kind
  typeName : Option String := none
  needsConversion : Bool := false
deriving DecidableEq

mutual

/-- The shape of a value. -/
inductive Shape where
  | struct (info : StructInfo) (fields : List Field)
  | map (key : KeyKind) (value : Shape)
  | slice (element : Shape)
  | array (info : ArrayInfo) (element : Shape)
  | ptr (pointee : Shape)
  | base (info : BaseInfo)

/-- A field of a struct. -/
inductive Field where
  | mk (info : FieldInfo) (value : Shape)

end

namespace Field

/-- What a field is besides its shape. -/
def info : Field → FieldInfo
  | mk info _ => info

/-- The shape of a field. -/
def value : Field → Shape
  | mk _ value => value

@[simp] theorem info_mk (info : FieldInfo) (value : Shape) : (mk info value).info = info := rfl

@[simp] theorem value_mk (info : FieldInfo) (value : Shape) : (mk info value).value = value := rfl

/-- Whether a field has a zid. -/
def hasZid (f : Field) : Bool := 0 ≤ f.info.zid.toInt

/-- The fields that are encoded, each with its place in the declaration. -/
def live (fields : List Field) : List (Field × Nat) :=
  fields.zipIdx.filter fun f => !f.1.info.skip

end Field

namespace StructInfo

/-- The number of fields that are encoded, by the recorded number of skipped ones. -/
def liveCount (info : StructInfo) (fields : List Field) : Except Fault Nat :=
  checkedSub fields.length info.skipCount

end StructInfo

namespace ArrayInfo

/-- The resolved size of an array. -/
def resolvedSize (info : ArrayInfo) : Except Fault Nat :=
  match info.resolved with
  | some n => .ok n
  | none => .error (.error (.unresolvedSize info.size))

end ArrayInfo

namespace BaseInfo

/-- The type that generated code converts a scalar to. -/
def underlying (info : BaseInfo) : String :=
  match info.kind, info.typeName with
  | .identifier, some name => name
  | kind, _ => kind.nativeType?.getD kind.primitive

end BaseInfo

namespace Shape

/-- A scalar of a kind. -/
def ofKind (kind : Kind) : Shape := base ⟨kind, none, false⟩

/-- A reference to a named identity. -/
def ident (name : String) : Shape := base ⟨.identifier, some name, false⟩

/-- A named type that converts to a kind. -/
def converted (kind : Kind) (name : String) : Shape := base ⟨kind, some name, true⟩

/-- The word for the form of a shape. -/
def form : Shape → String
  | struct _ _ => "struct"
  | map _ _ => "map"
  | slice _ => "slice"
  | array _ _ => "array"
  | ptr _ => "pointer"
  | base _ => "base"

/-- The text that describes the type of a shape in a schema. -/
def typeName : Shape → String
  | struct info _ => info.name
  | map key value => "map[" ++ key.word ++ "]" ++ value.typeName
  | slice element => "[]" ++ element.typeName
  | array info element =>
    "[" ++ (match info.resolved with
      | some n => Decimal.ofNat n
      | none => info.size) ++ "]" ++ element.typeName
  | ptr pointee => "*" ++ pointee.typeName
  | base info => info.typeName.getD info.kind.word

/-- Whether code is generated for an identity of this shape. -/
def isPrintable : Shape → Bool
  | base info => !info.kind.isDelegated
  | _ => true

/-- Whether an array of these elements is a byte string. -/
def isSingleByte : Shape → Bool
  | base info => info.kind.isSingleByte
  | _ => false

mutual

/-- The number of levels of a shape. -/
def height : Shape → Nat
  | struct _ fields => heights fields + 1
  | map _ value => value.height + 1
  | slice element => element.height + 1
  | array _ element => element.height + 1
  | ptr pointee => pointee.height + 1
  | base _ => 1

/-- The largest number of levels among the shapes of fields. -/
def heights : List Field → Nat
  | [] => 0
  | .mk _ value :: rest => max value.height (heights rest)

end

/-- The size of an encoding when it is the same for every value: scalars of fixed size and
arrays of them. The product and the sum have to fit 64 bits. -/
def staticSize : Shape → Except Fault (Option Nat)
  | base info => .ok info.kind.fixedSize?
  | array info element =>
    match info.resolved with
    | none => .ok none
    | some n =>
      if element.isSingleByte then some <$> checkedCount (Wire.binHeaderSize + n)
      else do
        match ← element.staticSize with
        | none => return none
        | some size =>
          let total ← checkedCount (n * size)
          return some (← checkedCount (Wire.arrayHeaderSize + total))
  | _ => .ok none

end Shape

end Packwright
