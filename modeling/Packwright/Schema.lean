import Packwright.Shape.Document

/-
  Schema descriptors: the structs of a table with the ids, names and types of their fields, as a
  JSON document for people and tools that compare versions.
-/

namespace Packwright

/-- A field in a schema. A skipped field has no type. -/
structure SchemaField where
  zid : Int64
  name : String
  omitEmpty : Bool := false
  skip : Bool := false
  type : String := ""
deriving DecidableEq

/-- A struct in a schema. -/
structure SchemaStruct where
  name : String
  fields : List SchemaField
deriving DecidableEq

/-- A schema descriptor. -/
structure Schema where
  id : Option Int64 := none
  structs : List SchemaStruct
deriving DecidableEq

/-- An identity that has no place in a schema. -/
structure UnsupportedShape where
  identity : String
  form : String
deriving DecidableEq

/-- The report of an identity that has no place in a schema. -/
def UnsupportedShape.message (e : UnsupportedShape) : String :=
  "cannot export schema: identity '" ++ e.identity ++ "' is a " ++ e.form ++
    ", only structs are supported"

namespace Schema

open Document

/-- The descriptor of a field. -/
def ofField (f : Field) : SchemaField where
  zid := f.info.zid
  name := f.info.name
  omitEmpty := f.info.omitEmpty
  skip := f.info.skip
  type := if f.info.skip then "" else f.value.typeName

/-- The descriptor of an identity. -/
def ofIdentity (entry : String × Shape) : Except UnsupportedShape SchemaStruct :=
  match entry.2 with
  | .struct info fields => .ok ⟨info.name, fields.map ofField⟩
  | s => .error ⟨entry.1, s.form⟩

/-- The descriptor of a table. -/
def extract (t : Table) : Except UnsupportedShape Schema := do
  return { structs := ← t.entries.mapM ofIdentity }

/-- The first struct of a name. -/
def find? (s : Schema) (name : String) : Option SchemaStruct :=
  s.structs.find? fun st => st.name == name

/-- The document of a field; a type that is empty is left out. -/
def fieldToJson (f : SchemaField) : Json :=
  .obj ([("zid", .int f.zid.toInt), ("name", .str f.name), ("omit_empty", .bool f.omitEmpty),
    ("skip", .bool f.skip)] ++ (if f.type = "" then [] else [("type", .str f.type)]))

/-- The document of a struct. -/
def structToJson (s : SchemaStruct) : Json :=
  .obj [("name", .str s.name), ("fields", .arr (s.fields.map fieldToJson))]

/-- The document of a descriptor; an id that is absent is left out. -/
def toJson (s : Schema) : Json :=
  .obj ((match s.id with
    | some id => [("schema_id", .int id.toInt)]
    | none => []) ++ [("structs", .arr (s.structs.map structToJson))])

/-- Reads a field. -/
def fieldOfJson? (v : Json) : Option SchemaField := do
  let ms ← members? ["zid", "name", "omit_empty", "skip", "type"] v
  let zid ← required ms "zid" int64?
  let name ← required ms "name" text?
  let omitEmpty ← optional ms "omit_empty" false flag?
  let skip ← optional ms "skip" false flag?
  let type ← optional ms "type" "" text?
  return ⟨zid, name, omitEmpty, skip, type⟩

/-- Reads a struct. -/
def structOfJson? (v : Json) : Option SchemaStruct := do
  let ms ← members? ["name", "fields"] v
  let name ← required ms "name" text?
  return ⟨name, ← required ms "fields" (list? fieldOfJson?)⟩

/-- Reads a descriptor. -/
def ofJson? (v : Json) : Option Schema := do
  let ms ← members? ["schema_id", "structs"] v
  let id ← optional ms "schema_id" none (nullable int64?)
  return ⟨id, ← required ms "structs" (list? structOfJson?)⟩

/-- The text of a descriptor. -/
def write (s : Schema) : String := s.toJson.pretty

/-- Reads a descriptor from a text. What stands under an unknown key is skipped, however deep it
is and whether or not it stands for something. -/
def read? (text : String) : Option Schema := do
  ofJson? (← Json.parse? none text)

end Schema

end Packwright
