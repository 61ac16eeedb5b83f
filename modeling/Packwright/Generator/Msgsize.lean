import Packwright.Code.Msgsize
import Packwright.Generator

/-
  The generator of size estimates. It goes through a shape as the generation of code does, and
  writes the statements as it goes.
-/

namespace Packwright.Msgsize

open Generator (Step hold write)

/-- Writes the statements that come of what is held back. -/
def emit (x : Emit Body) : Step Pending Unit := Generator.emit Line.write x

mutual

/-- Writes the code that adds the size of a variable as a shape. -/
def writeShape (c : Config) : Shape → Var → Step Pending Unit
  | .struct info fields, v => do
    let layout ← hold (Layout.plan c.protocol info fields : Except Fault Layout)
    hold (structHeader layout)
    writeFields c layout v fields 0
  | .map key value, v => do
    hold (addKnown Wire.mapHeaderSize)
    let number ← hold drawName
    Generator.block (emit flush) (.entries number v.place) do
      emit (keyCode number key)
      writeShape c value (.ofLocal (valueLocal number))
  | .slice element, v => do
    hold (addKnown Wire.arrayHeaderSize)
    match ← hold (element.staticSize : Except Fault (Option Nat)) with
    | some n => emit (addTerm (.lengthTimes v.place n))
    | none =>
      let item : Local := ⟨"za", ← hold drawName⟩
      Generator.block (emit flush) (.items item v.place) (writeShape c element (.ofLocal item))
  | .array info element, v => do
    let _ ← hold (info.resolvedSize : Except Fault Nat)
    match ← hold ((Shape.array info element).staticSize : Except Fault (Option Nat)) with
    | some n => hold (addKnown n)
    | none =>
      hold (addKnown Wire.arrayHeaderSize)
      let item : Local := ⟨"za", ← hold drawName⟩
      Generator.block (emit flush) (.items item v.place) (writeShape c element (.ofLocal item))
  | .ptr pointee, v => do
    match ← hold (pointee.staticSize : Except Fault (Option Nat)) with
    | some n => hold (addKnown (max n Wire.nilSize))
    | none =>
      let name : Local := ⟨"zp", ← hold drawName⟩
      Generator.optional (emit flush) name v (writeShape c pointee (.ofLocal name))
        (hold (addKnown Wire.nilSize))
  | .base info, v => emit (scalarCode info v)

/-- Writes the fields of a struct from a given place in the declaration on. -/
def writeFields (c : Config) (layout : Layout) (v : Var) : List Field → Nat → Step Pending Unit
  | [], _ => pure ()
  | .mk info value :: rest, index =>
    if info.skip then writeFields c layout v rest (index + 1)
    else do
      let slot := Layout.slotOf layout.mode layout.intKeys (.mk info value) index
      hold (addKnown slot.key.length)
      writeShape c value (v.field info.name)
      writeFields c layout v rest (index + 1)

end

/-- Writes the size estimate of an identity. -/
def writeImpl (c : Config) (name : String) (s : Shape) : Step Pending Unit := do
  write fun w => openImpl c name w
  writeShape c s (.receiver s)
  emit resultCode
  write fun w => w.closeBlock.closeBlock

/-- The size estimate of an identity, if code is generated for it. -/
def generate (name : String) (s : Shape) : Step Pending (Option String) :=
  Generator.render {} s fun c => writeImpl c name s

end Packwright.Msgsize
