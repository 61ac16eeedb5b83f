import Packwright.Code.Marshal
import Packwright.Generator

/-
  The generator of encoders. It goes through a shape as the generation of code does, and writes the
  statements as it goes.
-/

namespace Packwright.Marshal

open Generator (Step hold write)

/-- Writes the statements that come of what is held back. -/
def emit (x : Emit Body) : Step Pending Unit := Generator.emit Line.write x

/-- Writes one field of a struct, given how to write its value. -/
def writeSlot (c : Config) (layout : Layout) (t : Tally) (slot : Slot)
    (value : Step Pending Unit) : Step Pending Unit :=
  let entry : Step Pending Unit := do
    emit (constant c (slotNote layout slot) slot.key)
    value
  match layout.mode with
  | .tuple => value
  | _ =>
    if slot.conditional then Generator.block (emit flush) (.unlessFlag t slot.index) entry
    else entry

/-- Writes the declarations of flags and count of a struct. -/
def writeTally (layout : Layout) (v : Var) (isTop : Bool) : Step Pending Tally := do
  let (t, code) ← hold (tallyCode layout v isTop)
  write fun w => Code.writeAll Line.write w code
  return t

/-- Writes a struct, given how to write its fields. -/
def writeStruct (c : Config) (info : StructInfo) (fields : List Field) (v : Var) (isTop : Bool)
    (slots : Layout → Tally → Step Pending Unit) : Step Pending Unit := do
  let layout ← hold (Layout.plan c.protocol info fields : Except Fault Layout)
  match layout.mode with
  | .tuple =>
    emit (constant c (.arrayHeader layout.live) (layout.header.getD []))
    slots layout .outer
  | .static =>
    emit (constant c (.mapHeader layout.live) (layout.header.getD []))
    slots layout .outer
  | mode =>
    let t ← writeTally layout v isTop
    write fun w => Line.write w (.structHeader t (mode == .fast))
    emit (identification c layout)
    slots layout t

mutual

/-- Writes the code that appends the value of a variable as a shape. -/
def writeShape (c : Config) : Shape → Var → Step Pending Unit
  | .struct info fields, v =>
    writeStruct c info fields v false fun layout t => writeFields c layout t v fields 0
  | .map key value, v => do
    let number ← hold drawName
    emit (dynamic (.mapHeader v.place))
    Generator.block (emit flush) (.entries number v.place) do
      emit (dynamic (.mapKey key (keyLocal number)))
      writeShape c value (.ofLocal (valueLocal number))
  | .slice element, v => do
    let item : Local := ⟨"za", ← hold drawName⟩
    emit (dynamic (.arrayHeader v.place))
    Generator.block (emit flush) (.items item v.place) (writeShape c element (.ofLocal item))
  | .array info element, v => do
    let size ← hold (info.resolvedSize : Except Fault Nat)
    if element.isSingleByte then emit (dynamic (.byteArray v.place))
    else
      emit (constant c (.arrayHeader size) (Wire.arrayHeader (UInt32.ofNat size)))
      let item : Local := ⟨"za", ← hold drawName⟩
      Generator.block (emit flush) (.items item v.place) (writeShape c element (.ofLocal item))
  | .ptr pointee, v => do
    let name : Local := ⟨"zp", ← hold drawName⟩
    Generator.optional (emit flush) name v (writeShape c pointee (.ofLocal name))
      (emit (constant c .nil Wire.nil))
  | .base info, v => emit (scalarCode info v)

/-- Writes the fields of a struct from a given place in the declaration on. -/
def writeFields (c : Config) (layout : Layout) (t : Tally) (v : Var) :
    List Field → Nat → Step Pending Unit
  | [], _ => pure ()
  | .mk info value :: rest, index =>
    if info.skip then writeFields c layout t v rest (index + 1)
    else do
      let slot := Layout.slotOf layout.mode layout.intKeys (.mk info value) index
      writeSlot c layout t slot (writeShape c value (v.field info.name))
      writeFields c layout t v rest (index + 1)

end

/-- Writes the statements of the encoder of an identity. -/
def writeBody (c : Config) (s : Shape) : Step Pending Unit := do
  let v := Var.receiver s
  match s with
  | .struct info fields =>
    writeStruct c info fields v true fun layout t => writeFields c layout t v fields 0
  | s => writeShape c s v
  emit flush

/-- Writes the encoder of an identity. -/
def writeImpl (c : Config) (name : String) (s : Shape) : Step Pending Unit := do
  write fun w => openImpl c name w
  writeBody c s
  write closeFunction
  let side ← hold (companion c s : Except Fault (Option Body))
  write fun w => (writeCompanion c w side).closeBlock

/-- The encoder of an identity, if code is generated for it. -/
def generate (name : String) (s : Shape) : Step Pending (Option String) :=
  Generator.render {} s fun c => writeImpl c name s

end Packwright.Marshal
