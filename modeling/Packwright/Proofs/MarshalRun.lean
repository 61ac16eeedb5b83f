import Packwright.Code.Marshal
import Packwright.Proofs.Conformance
import Packwright.Proofs.Execution

/-
  What generated encoders do. The primitives of the runtime are parameters; `Runtime.Lawful` says
  what is assumed of them. So is the size that an encoder asks its buffer to have room for, which is
  taken to be some number. `marshalMsg` runs the encoder of an identity, with its companion
  function, and calls the encoders of other identities, to a given depth of calls. Counts are
  32-bit numbers: one that would go below zero or beyond 32 bits ends the run in a trap.
-/

namespace Packwright

/-- The primitives that generated encoders call. A primitive is given a buffer and returns it
with the bytes of a value behind it. -/
structure Runtime where
  append : Kind → Value → Bytes → Option Bytes
  mapHeader : UInt32 → Bytes → Bytes
  arrayHeader : UInt32 → Bytes → Bytes
  isZeroTime : Value → Bool
  /-- Makes room in a buffer for a number of bytes. -/
  require : Bytes → Nat → Bytes
  /-- The size that a value of an identity says it has. -/
  msgsize : String → Value → Nat
  conversions : Conversions

/-- Each primitive appends the form of its kind; an integer of any width is written as the
number it is. Making room leaves what a buffer holds, whatever size is asked for. -/
structure Runtime.Lawful (rt : Runtime) : Prop where
  bool : ∀ b o, rt.append .bool (.bool b) o = some (o ++ Wire.bool b)
  string : ∀ s o, rt.append .string (.str s) o = some (o ++ Wire.str s)
  bytes : ∀ data o, rt.append .bytes (.bin data) o = some (o ++ Wire.bin data)
  float32 : ∀ bits o, rt.append .float32 (.float32 bits) o = some (o ++ Wire.float32 bits)
  float64 : ∀ bits o, rt.append .float64 (.float64 bits) o = some (o ++ Wire.float64 bits)
  time : ∀ secs nanos o, rt.append .time (.time secs nanos) o = some (o ++ Wire.time secs nanos)
  extension : ∀ type data o,
    rt.append .extension (.ext type data) o = some (o ++ Wire.ext type data)
  interface : ∀ v o, rt.append .interface v o = some (o ++ v.dynamic)
  signed : ∀ (k : Kind) (n : Int64) o, k.isSigned = true → k.InRange n.toInt →
    rt.append k (.int n) o = some (o ++ Wire.int n)
  unsigned : ∀ (k : Kind) (n : UInt64) o, k.isUnsigned = true → k.InRange n.toNat →
    rt.append k (.uint n) o = some (o ++ Wire.uint n)
  mapHeader : ∀ n o, rt.mapHeader n o = o ++ Wire.mapHeader n
  arrayHeader : ∀ n o, rt.arrayHeader n o = o ++ Wire.arrayHeader n
  isZeroTime : ∀ secs nanos, rt.isZeroTime (.time secs nanos) = (secs == 0 && nanos == 0)
  require : ∀ buffer size, rt.require buffer size = buffer
  conversions : rt.conversions.Lawful

/-- The outcome of a test. -/
def Condition.eval (rt : Runtime) (env : Env) : Condition → Except Trap Bool
  | isZero arg isFloat => do
    match isFloat, (← arg.eval rt.conversions env).value with
    | false, .int n => return n == 0
    | false, .uint n => return n == 0
    | true, .float32 bits => return FloatBits.isZero32 bits
    | true, .float64 bits => return FloatBits.isZero64 bits
    | _, _ => throw .illTyped
  | isFalse arg => do
    match (← arg.eval rt.conversions env).value with
    | .bool b => return !b
    | _ => throw .illTyped
  | isEmpty arg => do
    match (← arg.eval rt.conversions env).value with
    | .str s => return s.isEmpty
    | .bin data => return data.isEmpty
    | .array items => return items.isEmpty
    | .map entries => return entries.isEmpty
    | _ => throw .illTyped
  | isNone p => do return (← (← p.eval env).pointee?).isNone
  | isZeroTime p => do
    let x ← p.eval env
    match x.value with
    | .time _ _ => return rt.isZeroTime x.value
    | _ => throw .illTyped

namespace Marshal

/-- The state of a run: the buffer, the flags and counts that are declared, and the result. -/
structure State where
  buffer : Bytes := []
  flags : Tally → Option (List Bool) := fun _ => none
  count : Tally → Option Nat := fun _ => none
  result : Option Nat := none

namespace State

/-- Adds to the buffer. -/
def write (st : State) (bytes : Bytes) : State := { st with buffer := st.buffer ++ bytes }

/-- Gives flags a value. -/
def setFlags (st : State) (t : Tally) (flags : List Bool) : State :=
  { st with flags := fun t' => if t' = t then some flags else st.flags t' }

/-- Gives a count a value. -/
def setCount (st : State) (t : Tally) (n : Nat) : State :=
  { st with count := fun t' => if t' = t then some n else st.count t' }

/-- The flags that a name stands for. -/
def flagsOf (st : State) (t : Tally) : Except Trap (List Bool) :=
  match st.flags t with
  | some flags => .ok flags
  | none => .error .unbound

/-- The count that a name stands for. -/
def countOf (st : State) (t : Tally) : Except Trap Nat :=
  match st.count t with
  | some n => .ok n
  | none => .error .unbound

/-- Declares flags. -/
def declareFlags (st : State) (t : Tally) (flags : List Bool) : Except Trap State :=
  if (st.flags t).isSome then .error .redeclared else .ok (st.setFlags t flags)

/-- Declares a count, which has to fit 32 bits. -/
def declareCount (st : State) (t : Tally) (n : Nat) : Except Trap State :=
  if (st.count t).isSome then .error .redeclared
  else if n < UInt32.size then .ok (st.setCount t n) else .error .overflow

theorem declareFlags_eq {st : State} {t : Tally} {flags : List Bool} (h : st.flags t = none) :
    st.declareFlags t flags = .ok (st.setFlags t flags) := by
  simp [declareFlags, h]

theorem declareCount_eq {st : State} {t : Tally} {n : Nat} (h : st.count t = none)
    (hn : n < UInt32.size) : st.declareCount t n = .ok (st.setCount t n) := by
  simp [declareCount, h, hn]

theorem flagsOf_setFlags (st : State) (t : Tally) (flags : List Bool) :
    (st.setFlags t flags).flagsOf t = .ok flags := by
  simp [flagsOf, setFlags]

theorem setFlags_setFlags (st : State) (t : Tally) (flags flags' : List Bool) :
    (st.setFlags t flags).setFlags t flags' = st.setFlags t flags' := by
  simp only [setFlags, State.mk.injEq, true_and, and_true]
  funext t'
  split <;> rfl

/-- The state without the flags and counts that were not declared before. -/
def leave (before after : State) : State :=
  { after with
    flags := fun t => if (before.flags t).isSome then after.flags t else none
    count := fun t => if (before.count t).isSome then after.count t else none }

end State

/-- The contents of a byte array. -/
def byteContents : Value → Option Bytes
  | .bin data => some data
  | .array items => items.mapM fun
    | .uint n => if n.toNat < 256 then some (UInt8.ofNat n.toNat) else none
    | _ => none
  | _ => none

/-- Appends a value by the primitive of its kind. -/
def appendAs (rt : Runtime) (kind : Kind) (x : Typed) (st : State) : Except Trap State :=
  match x.shape with
  | .base info =>
    match if info.kind = kind then rt.append kind x.value st.buffer else none with
    | some buffer => .ok { st with buffer }
    | none => .error .illTyped
  | _ => .error .illTyped

/-- What the lines of an encoder do, given the encoders of the identities and the companion
function of the receiver. -/
def Line.exec (rt : Runtime) (call : String → Value → Bytes → Except Trap Bytes)
    (tally : Typed → List Bool → Except Trap (List Bool × Nat)) (env : Env) (st : State) :
    Line → Except Trap State
  | blank | comment _ | notes _ => .ok st
  | literal bytes => .ok (st.write bytes)
  | declareFlags t size => st.declareFlags t (List.replicate size false)
  | computeTally t => do
    let (flags, n) ← tally env.self (← st.flagsOf t)
    (st.setFlags t flags).declareCount t n
  | declareCount t live => st.declareCount t live
  | setFlag t index test => do
    let flags ← st.flagsOf t
    let isSet ← match test with
      | some test => test.eval rt env
      | none => pure false
    if index < flags.length then return st.setFlags t (flags.set index isSet)
    else throw .outOfRange
  | decrement t => do
    match ← st.countOf t with
    | 0 => throw .underflow
    | n + 1 => return st.setCount t n
  | giveCount t => do return { st with result := some (← st.countOf t) }
  | structHeader t identified => do
    let n := (← st.countOf t) + (if identified then 1 else 0)
    if n < UInt32.size then return { st with buffer := rt.mapHeader (UInt32.ofNat n) st.buffer }
    else throw .overflow
  | mapHeader source => do
    let entries ← (← source.eval env).entries
    return { st with buffer := rt.mapHeader (UInt32.ofNat entries.length) st.buffer }
  | arrayHeader source => do
    let items ← (← source.eval env).items
    return { st with buffer := rt.arrayHeader (UInt32.ofNat items.length) st.buffer }
  | mapKey kind key => do appendAs rt kind.kind (← (Place.bound key).eval env) st
  | byteArray source => do
    match byteContents (← source.eval env).value with
    | some data => appendAs rt .bytes ⟨.ofKind .bytes, .bin data⟩ st
    | none => throw .illTyped
  | delegate source => do
    let x ← source.eval env
    match x.shape with
    | .base info =>
      if info.kind = .identifier then
        return { st with buffer := ← call (info.typeName.getD "") x.value st.buffer }
      else throw .illTyped
    | _ => throw .illTyped
  | scalar kind arg => do appendAs rt kind (← arg.eval rt.conversions env) st

/-- The flag of a field. -/
def readFlag (st : State) (t : Tally) (index : Nat) : Except Trap Bool := do
  match (← st.flagsOf t)[index]? with
  | some b => return b
  | none => throw .outOfRange

/-- The machine that runs encoders. -/
def machine (rt : Runtime) (call : String → Value → Bytes → Except Trap Bytes)
    (tally : Typed → List Bool → Except Trap (List Bool × Nat)) : Machine Line State where
  line env l st := l.exec rt call tally env st
  flag := readFlag
  leave := State.leave

/-- Runs the companion function of a receiver on flags. The function calls no other. -/
def fieldsNotEmpty (rt : Runtime) (c : Config) (self : Typed) (flags : List Bool) :
    Except Trap (List Bool × Nat) :=
  match companion c self.shape with
  | .ok (some code) => do
    let m := machine rt (fun _ _ _ => .error .notGenerated) (fun _ _ => .error .notGenerated)
    let st ← m.execAll code ⟨self, fun _ => none⟩ (({} : State).setFlags .computed flags)
    match st.result with
    | some n => return (← st.flagsOf .computed, n)
    | none => throw .illTyped
  | _ => .error .notGenerated

/-- The statements of the encoder of an identity, if code is generated for it. -/
def code? (c : Config) (s : Shape) : Option Body :=
  if s.isPrintable then (body c s).toOption else none

/-- Runs the encoder of an identity on a buffer, to a given depth of calls. -/
def marshalMsg (rt : Runtime) (t : Table) (c : Config) :
    Nat → String → Value → Bytes → Except Trap Bytes
  | 0, _, _, _ => .error .tooDeep
  | depth + 1, name, v, buffer =>
    match t.get? name with
    | none => .error .notGenerated
    | some s =>
      match code? c s with
      | none => .error .notGenerated
      | some code => do
        let m := machine rt (marshalMsg rt t c depth) (fieldsNotEmpty rt c)
        let st ← m.execAll code ⟨⟨s, v⟩, fun _ => none⟩
          { buffer := rt.require buffer (rt.msgsize name v) }
        return st.buffer

end Marshal

end Packwright
