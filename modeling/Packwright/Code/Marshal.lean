import Packwright.Bytes
import Packwright.Code.Condition
import Packwright.Code.Tree
import Packwright.Layout
import Packwright.Text.Characters

/-
  Generation of encoders. The code of a shape appends the shape's encoding to a buffer. Bytes
  known beforehand are held back in a fusion buffer and written as one literal, with notes that
  say what they are; they are written out before every other statement and at every edge of a
  block.
-/

namespace Packwright.Marshal

/-- What a run of constant bytes is. -/
inductive Note where
  | arrayHeader (size : Nat)
  | mapHeader (size : Nat)
  | typeIdentification (struct : String)
  | zid (id : Int64) (field : String)
  | name (field : String)
  | nil
deriving DecidableEq

/-- The text of a note. -/
def Note.text : Note → String
  | arrayHeader size => "array header, size " ++ Decimal.ofNat size
  | mapHeader size => "map header, size " ++ Decimal.ofNat size
  | typeIdentification struct => "runtime struct type identification for '" ++ struct ++ "'"
  | zid id field => "zid " ++ Decimal.ofInt id.toInt ++ " for " ++ Quoted.quote field
  | name field => "string " ++ Quoted.quote field
  | nil => "nil"

/-- A line of an encoder. -/
inductive Line where
  | blank
  | comment (text : String)
  /-- A comment that says what the next literal is. -/
  | notes (run : List Note)
  /-- Appends constant bytes. -/
  | literal (bytes : Bytes)
  /-- Declares the flags of a struct, all unset. -/
  | declareFlags (t : Tally) (size : Nat)
  /-- Computes flags and count by the companion function. -/
  | computeTally (t : Tally)
  /-- Declares the count of a struct. -/
  | declareCount (t : Tally) (live : Nat)
  /-- Sets the flag of a field to the outcome of a test, or to false. -/
  | setFlag (t : Tally) (index : Nat) (test : Option Condition)
  /-- Takes one field off the count. -/
  | decrement (t : Tally)
  /-- The count is the result. -/
  | giveCount (t : Tally)
  /-- Appends a map header for the counted fields, and one more entry if `identified`. -/
  | structHeader (t : Tally) (identified : Bool)
  /-- Appends a map header for the entries of a map. -/
  | mapHeader (source : Place)
  /-- Appends an array header for the elements of a list. -/
  | arrayHeader (source : Place)
  /-- Appends a map key. -/
  | mapKey (kind : KeyKind) (key : Local)
  /-- Appends a byte array. -/
  | byteArray (source : Place)
  /-- Lets a named identity append itself. -/
  | delegate (source : Place)
  /-- Appends a scalar. -/
  | scalar (kind : Kind) (arg : Arg)

/-- Bytes as the contents of a literal. -/
def byteList (bytes : Bytes) : String :=
  ", ".intercalate (bytes.map fun b =>
    "0x" ++ String.ofList [Nat.digitChar (b.toNat / 16), Nat.digitChar (b.toNat % 16)])

/-- The text of a line. -/
def Line.text : Line → String
  | blank => ""
  | comment text => Writer.commentText text
  | notes run => Writer.commentText ("; ".intercalate (run.map Note.text))
  | literal bytes => "o.extend_from_slice(&[" ++ byteList bytes ++ "]);"
  | declareFlags t size => "let mut " ++ t.flags ++ " = [false; " ++ Decimal.ofNat size ++ "];"
  | computeTally t => "let " ++ t.count ++ " = self.fields_not_empty(&mut " ++ t.flags ++ ");"
  | declareCount t live => "let mut " ++ t.count ++ ": u32 = " ++ Decimal.ofNat live ++ ";"
  | setFlag t index (some test) => t.flag index ++ " = " ++ test.text ++ ";"
  | setFlag t index none => t.flag index ++ " = false;"
  | decrement t => t.count ++ " -= 1;"
  | giveCount t => t.count
  | structHeader t identified =>
    "msgp::append_map_header(&mut o, " ++ t.count ++ (if identified then " + 1" else "") ++ ");"
  | mapHeader source => "msgp::append_map_header(&mut o, " ++ source.text ++ ".len() as u32);"
  | arrayHeader source => "msgp::append_array_header(&mut o, " ++ source.text ++ ".len() as u32);"
  | mapKey .string key => "msgp::append_string(&mut o, " ++ key.text ++ ");"
  | mapKey .int64 key => "msgp::append_int64(&mut o, *" ++ key.text ++ ");"
  | byteArray source => "msgp::append_bytes(&mut o, &" ++ source.text ++ "[..]);"
  | delegate source => "o = " ++ source.text ++ ".marshal_msg(o)?;"
  | scalar kind arg =>
    "msgp::append_" ++ kind.primitive ++ "(&mut o, " ++ arg.text ++
      (if kind.isDelegated then ")?;" else ");")

/-- Writes a line. -/
def Line.write (w : Writer) (l : Line) : Writer := w.line l.text

/-- The statements of an encoder. -/
abbrev Body := List (Code Line)

/-- What is held back while code is generated. -/
structure Pending where
  fusion : Fusion := .empty
  notes : List Note := []
  names : NameSupply := {}

/-- Generation of code, which may fail. -/
abbrev Emit := StateT Pending (Except Fault)

/-- Draws the number of a local name. -/
def drawName : Emit Nat := do
  let p ← get
  let (number, names) := p.names.draw
  set { p with names }
  return number

/-- Writes out the constant bytes that are held back. -/
def flush : Emit Body := do
  let p ← get
  match p.fusion.flush with
  | (some bytes, fusion) =>
    set { p with fusion, notes := [] }
    return (if p.notes.isEmpty then [] else [.line (.notes p.notes)]) ++ [.line (.literal bytes)]
  | (none, _) =>
    set { p with notes := [] }
    return []

/-- Takes constant bytes. -/
def constant (c : Config) (note : Note) (bytes : Bytes) : Emit Body := do
  modify fun p => { p with fusion := p.fusion.append bytes, notes := p.notes ++ [note] }
  if c.fuse then return [] else flush

/-- A line that depends on the value. -/
def dynamic (l : Line) : Emit Body := do
  return (← flush) ++ [.line l]

/-- A block around the code of a body. -/
def block (head : Head) (body : Emit Body) : Emit Body := do
  let before ← flush
  let inside ← body
  return before ++ [.block head (inside ++ (← flush))]

/-- The test of each field that may be left out, with its effect on flags and count. -/
def checks (layout : Layout) (v : Var) (t : Tally) : Body :=
  (layout.slots.filter Slot.conditional).flatMap fun slot =>
    match Condition.of? slot.field.value (v.field slot.field.info.name) with
    | some test =>
      [.line (.setFlag t slot.index (some test)),
        .block (.ifFlag t slot.index) [.line (.decrement t)]]
    | none => [.line (.setFlag t slot.index none)]

/-- What the key of a field is. -/
def slotNote (layout : Layout) (slot : Slot) : Note :=
  if layout.intKeys then .zid slot.field.info.zid slot.field.info.name
  else .name slot.field.info.name

/-- The code of one field of a struct, given the code of its value. -/
def slotCode (c : Config) (layout : Layout) (t : Tally) (slot : Slot) (value : Emit Body) :
    Emit Body :=
  let entry : Emit Body := do
    let key ← constant c (slotNote layout slot) slot.key
    return key ++ (← value)
  match layout.mode with
  | .tuple => value
  | _ => if slot.conditional then block (.unlessFlag t slot.index) entry else entry

/-- Declares flags and count of a struct and computes them. The struct that the function is
generated for has a companion function that does so. -/
def tallyCode (layout : Layout) (v : Var) (isTop : Bool) : Emit (Tally × Body) := do
  let before ← flush
  let intro : Body := [.line .blank, .line (.comment "honor the omitempty tags")]
  if isTop then
    let t := Tally.outer
    return (t, before ++ intro ++
      [.line (.declareFlags t layout.declared), .line (.computeTally t)])
  else
    let t := Tally.nested (← drawName)
    return (t, before ++ intro ++
      [.line (.declareFlags t layout.declared), .line (.declareCount t layout.live)] ++
      checks layout v t)

/-- The entry that identifies the type of a struct, if its layout has one. -/
def identification (c : Config) (layout : Layout) : Emit Body :=
  match layout.fingerprint with
  | some bytes => constant c (.typeIdentification layout.name) bytes
  | none => pure []

/-- The code of a struct, given the code of its fields. -/
def structCode (c : Config) (info : StructInfo) (fields : List Field) (v : Var) (isTop : Bool)
    (slots : Layout → Tally → Emit Body) : Emit Body := do
  let layout ← (Layout.plan c.protocol info fields : Except Fault Layout)
  match layout.mode with
  | .tuple =>
    let header ← constant c (.arrayHeader layout.live) (layout.header.getD [])
    return header ++ (← slots layout .outer)
  | .static =>
    let header ← constant c (.mapHeader layout.live) (layout.header.getD [])
    return header ++ (← slots layout .outer)
  | mode =>
    let (t, tally) ← tallyCode layout v isTop
    let entry ← identification c layout
    return tally ++ [.line (.structHeader t (mode == .fast))] ++ entry ++ (← slots layout t)

/-- The code of a scalar. -/
def scalarCode (info : BaseInfo) (v : Var) : Emit Body :=
  match info.kind with
  | .identifier => dynamic (.delegate v.place)
  | .interface | .extension => dynamic (.scalar info.kind (.reference v))
  | kind => dynamic (.scalar kind (info.arg v))

mutual

/-- The code that appends the value of a variable as a shape. -/
def shapeCode (c : Config) : Shape → Var → Emit Body
  | .struct info fields, v =>
    structCode c info fields v false fun layout t => fieldsCode c layout t v fields 0
  | .map key value, v => do
    let number ← drawName
    let header ← dynamic (.mapHeader v.place)
    let loop ← block (.entries number v.place) do
      let key ← dynamic (.mapKey key (keyLocal number))
      return key ++ (← shapeCode c value (.ofLocal (valueLocal number)))
    return header ++ loop
  | .slice element, v => do
    let item : Local := ⟨"za", ← drawName⟩
    let header ← dynamic (.arrayHeader v.place)
    let loop ← block (.items item v.place) (shapeCode c element (.ofLocal item))
    return header ++ loop
  | .array info element, v => do
    let size ← (info.resolvedSize : Except Fault Nat)
    if element.isSingleByte then dynamic (.byteArray v.place)
    else
      let header ← constant c (.arrayHeader size) (Wire.arrayHeader (UInt32.ofNat size))
      let item : Local := ⟨"za", ← drawName⟩
      let loop ← block (.items item v.place) (shapeCode c element (.ofLocal item))
      return header ++ loop
  | .ptr pointee, v => do
    let name : Local := ⟨"zp", ← drawName⟩
    let before ← flush
    let value ← shapeCode c pointee (.ofLocal name)
    let body := value ++ (← flush)
    let absent ← constant c .nil Wire.nil
    let orElse := absent ++ (← flush)
    return before ++ [.optional name v body orElse]
  | .base info, v => scalarCode info v

/-- The code of the fields of a struct from a given place in the declaration on. -/
def fieldsCode (c : Config) (layout : Layout) (t : Tally) (v : Var) :
    List Field → Nat → Emit Body
  | [], _ => pure []
  | .mk info value :: rest, index =>
    if info.skip then fieldsCode c layout t v rest (index + 1)
    else do
      let slot := Layout.slotOf layout.mode layout.intKeys (.mk info value) index
      let here ← slotCode c layout t slot (shapeCode c value (v.field info.name))
      return here ++ (← fieldsCode c layout t v rest (index + 1))

end

/-- The code of an identity: that of its shape, then what is still held back. -/
def identityCode (c : Config) (s : Shape) : Emit Body := do
  let v := Var.receiver s
  let code ← match s with
    | .struct info fields =>
      structCode c info fields v true fun layout t => fieldsCode c layout t v fields 0
    | s => shapeCode c s v
  return code ++ (← flush)

/-- The statements of the encoder of an identity. -/
def body (c : Config) (s : Shape) : Except Fault Body :=
  (identityCode c s).run' {}

/-- The statements of the companion function that computes flags and count, for a struct that
leaves out empty fields. -/
def companion (c : Config) (s : Shape) : Except Fault (Option Body) :=
  match s with
  | .struct info fields => do
    let layout ← Layout.plan c.protocol info fields
    if layout.mode.isDynamic then
      let t := Tally.computed
      return some ([.line (.declareCount t layout.live)] ++ checks layout ⟨.self, false⟩ t ++
        [.line (.giveCount t)])
    else return none
  | _ => .ok none

/-- Writes the companion function, if there is one. -/
def writeCompanion (c : Config) (w : Writer) : Option Body → Writer
  | none => w
  | some code =>
    let w := w.blank
    let w := if c.docs then
        w.doc "Flags each empty field in `isempty` and returns how many fields are in use."
      else w
    let w := w.openBlock "pub fn fields_not_empty(&self, isempty: &mut [bool]) -> u32"
    (Code.writeAll Line.write w code).closeBlock

/-- Opens the function of an encoder. -/
def openFunction (c : Config) (w : Writer) : Writer :=
  let w := if c.docs then w.doc "Appends the MessagePack encoding of `self` to `b`." else w
  let w := w.openBlock "pub fn marshal_msg(&self, b: Vec<u8>) -> Result<Vec<u8>, msgp::Error>"
  w.line "let mut o = msgp::require(b, self.msgsize());"

/-- Opens the encoder of an identity. -/
def openImpl (c : Config) (name : String) (w : Writer) : Writer :=
  openFunction c (w.openBlock ("impl " ++ name))

/-- Ends the function of an encoder. -/
def closeFunction (w : Writer) : Writer := (w.line "Ok(o)").closeBlock

/-- The encoder of an identity, given its statements and those of its companion. -/
def implText (c : Config) (name : String) (code : Body) (side : Option Body) : String :=
  let w := openImpl c name (.new c.indent)
  let w := closeFunction (Code.writeAll Line.write w code)
  (writeCompanion c w side).closeBlock.text

/-- The encoder of an identity, if code is generated for it. -/
def render (c : Config) (name : String) (s : Shape) : Except Fault (Option String) := do
  if !s.isPrintable then return none
  let code ← body c s
  let side ← companion c s
  return some (implText c name code side)

end Packwright.Marshal
