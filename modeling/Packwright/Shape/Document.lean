import Packwright.Document
import Packwright.Json.Reader
import Packwright.Json.Writer
import Packwright.Table

/-
  Shapes and tables as JSON documents. A shape is an object whose member `shape` tells its form,
  or a list that begins with that word; inside another shape, the number of the form does for the
  word. Writing gives every member in declared order except a type name and a resolved size that
  are absent.
-/

namespace Packwright

open Document

/-- Reads a kind that stands alone. -/
def Kind.ofJson? : Json → Option Kind := word? Kind.ofWord?

namespace Shape

/-- The words for the forms of a shape, in the order of their numbers. -/
def formWords : List String := ["struct", "map", "slice", "array", "ptr", "base"]

/-- The form of a shape inside another one, as a word or as its number. -/
def innerForm? : Json → Option String
  | .int (.ofNat n) => formWords[n]?
  | v => text? v

/-- The form of a shape, given how to read it, and the document that holds the rest. -/
def tagged? (form? : Json → Option String) : Json → Option (String × Json)
  | .obj members =>
    match members.filter fun m => m.1 == "shape" with
    | [(_, form)] => do return (← form? form, .obj (members.filter fun m => m.1 != "shape"))
    | _ => none
  | .arr (form :: items) => do return (← form? form, .arr items)
  | _ => none

/-- Reads a field, given how to read its shape. -/
def fieldOfJson? (read : Json → Option Shape) (v : Json) : Option Field := do
  let ms ← members? ["zid", "name", "omit_empty", "skip", "value"] v
  let zid ← optional ms "zid" (-1) int64?
  let name ← required ms "name" text?
  let omitEmpty ← optional ms "omit_empty" false flag?
  let skip ← optional ms "skip" false flag?
  let value ← required ms "value" read
  return .mk ⟨zid, name, omitEmpty, skip⟩ value

/-- Reads the rest of a shape of a given form, given how to read the shapes in it. -/
def bodyOfJson? (read : Json → Option Shape) (form : String) (v : Json) : Option Shape :=
  if form = "struct" then do
    let ms ← members?
      ["name", "fields", "as_tuple", "key_kind", "skip_count", "has_omit_empty_tags"] v
    let name ← required ms "name" text?
    let fields ← required ms "fields" (list? (fieldOfJson? read))
    let asTuple ← optional ms "as_tuple" false flag?
    let keyKind ← optional ms "key_kind" .string (memberWord? KeyKind.ofWord?)
    let skipCount ← optional ms "skip_count" 0 count?
    let hasTags ← optional ms "has_omit_empty_tags" false flag?
    return struct ⟨name, asTuple, keyKind, skipCount, hasTags⟩ fields
  else if form = "map" then do
    let ms ← members? ["key", "value"] v
    let key ← optional ms "key" .string (memberWord? KeyKind.ofWord?)
    return map key (← required ms "value" read)
  else if form = "slice" then do
    let ms ← members? ["element"] v
    return slice (← required ms "element" read)
  else if form = "array" then do
    let ms ← members? ["element", "size", "size_resolved"] v
    let element ← required ms "element" read
    let size ← required ms "size" text?
    let resolved ← optional ms "size_resolved" none (nullable count?)
    return array ⟨size, resolved⟩ element
  else if form = "ptr" then do
    let ms ← members? ["pointee"] v
    return ptr (← required ms "pointee" read)
  else if form = "base" then do
    let ms ← members? ["kind", "type_name", "needs_conversion"] v
    let kind ← required ms "kind" (memberWord? Kind.ofWord?)
    let typeName ← optional ms "type_name" none (nullable text?)
    let needsConversion ← optional ms "needs_conversion" false flag?
    return base ⟨kind, typeName, needsConversion⟩
  else none

/-- Reads a shape inside another one, of at most the given number of levels. -/
def innerOfJson? : Nat → Json → Option Shape
  | 0, _ => none
  | levels + 1, v => do
    let (form, rest) ← tagged? innerForm? v
    bodyOfJson? (innerOfJson? levels) form rest

/-- Reads a shape. Every level opens a bracket, so the nesting limit bounds the levels of a
document that was read from a text. -/
def ofJson? (v : Json) : Option Shape := do
  let (form, rest) ← tagged? text? v
  bodyOfJson? (innerOfJson? Json.nestingLimit) form rest

mutual

/-- The document of a shape. -/
def toJson : Shape → Json
  | struct info fields =>
    .obj [("shape", .str "struct"), ("name", .str info.name),
      ("fields", .arr (fieldsToJson fields)), ("as_tuple", .bool info.asTuple),
      ("key_kind", .str info.keyKind.word), ("skip_count", .int info.skipCount),
      ("has_omit_empty_tags", .bool info.hasOmitEmptyTags)]
  | map key value =>
    .obj [("shape", .str "map"), ("key", .str key.word), ("value", value.toJson)]
  | slice element => .obj [("shape", .str "slice"), ("element", element.toJson)]
  | array info element =>
    .obj ([("shape", .str "array"), ("element", element.toJson), ("size", .str info.size)] ++
      (match info.resolved with
        | some n => [("size_resolved", .int n)]
        | none => []))
  | ptr pointee => .obj [("shape", .str "ptr"), ("pointee", pointee.toJson)]
  | base info =>
    .obj ([("shape", .str "base"), ("kind", .str info.kind.word)] ++
      (match info.typeName with
        | some name => [("type_name", .str name)]
        | none => []) ++
      [("needs_conversion", .bool info.needsConversion)])

/-- The documents of fields. -/
def fieldsToJson : List Field → List Json
  | [] => []
  | .mk info value :: rest =>
    .obj [("zid", .int info.zid.toInt), ("name", .str info.name),
      ("omit_empty", .bool info.omitEmpty), ("skip", .bool info.skip),
      ("value", value.toJson)] :: fieldsToJson rest

end

/-- Reads a shape from a text. -/
def read? (text : String) : Option Shape := do
  ofJson? (← Json.read? text)

/-- The text of a shape. -/
def write (s : Shape) : String := s.toJson.compact

end Shape

namespace Table

/-- Reads a table: an object from names to shapes. -/
def ofJson? : Json → Option Table
  | .obj members => do
    return ofList (← members.mapM fun m => do return (m.1, ← Shape.ofJson? m.2))
  | _ => none

/-- The document of a table. -/
def toJson (t : Table) : Json :=
  .obj (t.entries.map fun e => (e.1, e.2.toJson))

/-- Reads a table from a text. -/
def read? (text : String) : Option Table := do
  ofJson? (← Json.read? text)

/-- The text of a table. -/
def write (t : Table) : String := t.toJson.compact

end Table

end Packwright
