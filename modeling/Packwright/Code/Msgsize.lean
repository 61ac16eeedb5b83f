import Packwright.Code.Tree
import Packwright.Layout

/-
  Generation of size estimates. The code of a shape adds up an upper bound of the shape's encoded
  size. Sizes known beforehand are held back as one number and added before every edge of a
  block; the sum is declared by the first statement that needs it.
-/

namespace Packwright.Msgsize

/-- A size that depends on the value. -/
inductive Term where
  /-- The length of an argument. -/
  | length (arg : Arg)
  /-- The number of elements of a list, times the size of one. -/
  | lengthTimes (source : Place) (size : Nat)
  /-- The estimate of a named identity. -/
  | delegate (source : Place)
  /-- The runtime's guess for a value of any kind. -/
  | guess (v : Var)
deriving DecidableEq

/-- The text of a size. -/
def Term.text : Term → String
  | length arg => arg.text ++ ".len()"
  | lengthTimes source size => source.text ++ ".len() * " ++ Decimal.ofNat size
  | delegate source => source.text ++ ".msgsize()"
  | guess v => "msgp::guess_size(" ++ v.reference ++ ")"

/-- A number plus, possibly, a size that depends on the value. -/
structure Sum where
  known : Nat
  term : Option Term
deriving DecidableEq

/-- The text of a sum; a zero is left out beside another size. -/
def Sum.text (s : Sum) : String :=
  match s.term with
  | none => Decimal.ofNat s.known
  | some term => if 0 < s.known then Decimal.ofNat s.known ++ " + " ++ term.text else term.text

/-- A line of a size estimate. -/
inductive Line where
  /-- Declares the sum. -/
  | declare (s : Sum)
  /-- Adds to the sum. -/
  | add (s : Sum)
  /-- The sum is the result. -/
  | giveSum
  /-- A number is the result. -/
  | giveNumber (n : Nat)
deriving DecidableEq

/-- Writes a line. -/
def Line.write (w : Writer) : Line → Writer
  | declare s => w.line ("let mut s: usize = " ++ s.text ++ ";")
  | add s => w.line ("s += " ++ s.text ++ ";")
  | giveSum => w.line "s"
  | giveNumber n => w.line (Decimal.ofNat n)

/-- The statements of a size estimate. -/
abbrev Body := List (Code Line)

/-- What is held back while code is generated: a number to add, and whether the sum is declared. -/
structure Pending where
  known : Nat := 0
  declared : Bool := false
  names : NameSupply := {}

/-- Generation of code, which may fail. -/
abbrev Emit := StateT Pending (Except Fault)

/-- Draws the number of a local name. -/
def drawName : Emit Nat := do
  let p ← get
  let (number, names) := p.names.draw
  set { p with names }
  return number

/-- Takes a size known beforehand. The number held back has to fit 64 bits. -/
def addKnown (n : Nat) : Emit Unit := do
  let p ← get
  let known ← (checkedCount (p.known + n) : Except Fault Nat)
  set { p with known }

/-- Takes a size that depends on the value. -/
def addTerm (t : Term) : Emit Body := do
  let p ← get
  let s : Sum := ⟨p.known, some t⟩
  set { p with known := 0, declared := true }
  return [.line (if p.declared then .add s else .declare s)]

/-- Adds the number that is held back; declares the sum if nothing has. -/
def flush : Emit Body := do
  let p ← get
  let s : Sum := ⟨p.known, none⟩
  set { p with known := 0, declared := true }
  if !p.declared then return [.line (.declare s)]
  else if 0 < p.known then return [.line (.add s)]
  else return []

/-- A block around the code of a body. -/
def block (head : Head) (body : Emit Body) : Emit Body := do
  let before ← flush
  let inside ← body
  return before ++ [.block head (inside ++ (← flush))]

/-- The code of a scalar. -/
def scalarCode (info : BaseInfo) (v : Var) : Emit Body :=
  match info.kind.fixedSize? with
  | some n => do
    addKnown n
    return []
  | none =>
    match info.kind with
    | .identifier => addTerm (.delegate v.place)
    | .interface => addTerm (.guess v)
    | .extension => do
      addKnown Wire.extHeaderSize
      addTerm (.length (.place v.place))
    | _ => do
      addKnown Wire.strHeaderSize
      addTerm (.length (if info.needsConversion then info.arg v else .place v.place))

/-- The code of the key of a map entry. -/
def keyCode (number : Nat) : KeyKind → Emit Body
  | .string => do
    addKnown Wire.strHeaderSize
    addTerm (.length (.place (.bound (keyLocal number))))
  | .int64 => do
    addKnown Wire.int64Size
    return []

/-- The code of the header of a struct and of the entry that identifies its type. -/
def structHeader (layout : Layout) : Emit Unit := do
  match layout.header with
  | some header => addKnown header.length
  | none => addKnown Wire.mapHeaderSize
  match layout.fingerprint with
  | some entry => addKnown entry.length
  | none => pure ()

mutual

/-- The code that adds the size of a variable as a shape. -/
def shapeCode (c : Config) : Shape → Var → Emit Body
  | .struct info fields, v => do
    let layout ← (Layout.plan c.protocol info fields : Except Fault Layout)
    structHeader layout
    fieldsCode c layout v fields 0
  | .map key value, v => do
    addKnown Wire.mapHeaderSize
    let number ← drawName
    block (.entries number v.place) do
      return (← keyCode number key) ++ (← shapeCode c value (.ofLocal (valueLocal number)))
  | .slice element, v => do
    addKnown Wire.arrayHeaderSize
    match ← (element.staticSize : Except Fault (Option Nat)) with
    | some n => addTerm (.lengthTimes v.place n)
    | none =>
      let item : Local := ⟨"za", ← drawName⟩
      block (.items item v.place) (shapeCode c element (.ofLocal item))
  | .array info element, v => do
    let _ ← (info.resolvedSize : Except Fault Nat)
    match ← ((Shape.array info element).staticSize : Except Fault (Option Nat)) with
    | some n =>
      addKnown n
      return []
    | none =>
      addKnown Wire.arrayHeaderSize
      let item : Local := ⟨"za", ← drawName⟩
      block (.items item v.place) (shapeCode c element (.ofLocal item))
  | .ptr pointee, v => do
    match ← (pointee.staticSize : Except Fault (Option Nat)) with
    | some n =>
      addKnown (max n Wire.nilSize)
      return []
    | none =>
      let name : Local := ⟨"zp", ← drawName⟩
      let before ← flush
      let value ← shapeCode c pointee (.ofLocal name)
      let body := value ++ (← flush)
      addKnown Wire.nilSize
      let orElse ← flush
      return before ++ [.optional name v body orElse]
  | .base info, v => scalarCode info v

/-- The code of the fields of a struct from a given place in the declaration on. Every live field
counts, since leaving one out only makes the encoding shorter. -/
def fieldsCode (c : Config) (layout : Layout) (v : Var) : List Field → Nat → Emit Body
  | [], _ => pure []
  | .mk info value :: rest, index =>
    if info.skip then fieldsCode c layout v rest (index + 1)
    else do
      let slot := Layout.slotOf layout.mode layout.intKeys (.mk info value) index
      addKnown slot.key.length
      let here ← shapeCode c value (v.field info.name)
      return here ++ (← fieldsCode c layout v rest (index + 1))

end

/-- The result: the sum with what is held back added, or that alone. -/
def resultCode : Emit Body := do
  let p ← get
  if p.declared then
    let rest : Body := if 0 < p.known then [.line (.add ⟨p.known, none⟩)] else []
    return rest ++ [.line .giveSum]
  else return [.line (.giveNumber p.known)]

/-- The code of an identity: that of its shape, then the result. -/
def identityCode (c : Config) (s : Shape) : Emit Body := do
  let code ← shapeCode c s (.receiver s)
  return code ++ (← resultCode)

/-- The statements of the size estimate of an identity. -/
def body (c : Config) (s : Shape) : Except Fault Body :=
  (identityCode c s).run' {}

/-- Opens the size estimate of an identity. -/
def openImpl (c : Config) (name : String) (w : Writer) : Writer :=
  let w := w.openBlock ("impl " ++ name)
  let w := if c.docs then
      w.doc "Upper bound on the number of bytes `marshal_msg` appends."
    else w
  w.openBlock "pub fn msgsize(&self) -> usize"

/-- The size estimate of an identity, given its statements. -/
def implText (c : Config) (name : String) (code : Body) : String :=
  let w := Code.writeAll Line.write (openImpl c name (.new c.indent)) code
  w.closeBlock.closeBlock.text

/-- The size estimate of an identity, if code is generated for it. -/
def render (c : Config) (name : String) (s : Shape) : Except Fault (Option String) := do
  if !s.isPrintable then return none
  let code ← body c s
  return some (implText c name code)

end Packwright.Msgsize
