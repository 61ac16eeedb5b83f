import Packwright.Code.Msgsize
import Packwright.Proofs.Execution

/-
  What generated size estimates do. `msgsize` runs the estimate of an identity and calls those of
  other identities, to a given depth of calls. Sizes are machine words: a sum or product that does
  not fit ends the run in a trap. How a size is guessed for a value of any kind is a parameter,
  and so are the width of a word and the conversions of the user's types.
-/

namespace Packwright.Msgsize

/-- What estimates get from the machine that they run on. -/
structure Runtime where
  /-- A guess at the encoded size of a value of any kind. -/
  guess : Value → Nat
  /-- One more than the largest size. -/
  limit : Nat
  conversions : Conversions

/-- No guess is too small, and conversions keep the value. -/
structure Runtime.Lawful (rt : Runtime) : Prop where
  guess : ∀ v : Value, v.dynamic.length ≤ rt.guess v
  conversions : rt.conversions.Lawful

/-- A size that has to fit a machine word. -/
def Runtime.checked (rt : Runtime) (n : Nat) : Except Trap Nat :=
  if n < rt.limit then .ok n else .error .overflow

/-- The state of a run: the sum, once it is declared, and the result. -/
structure State where
  sum : Option Nat := none
  result : Option Nat := none

/-- The state without a sum that was not declared before. -/
def State.leave (before after : State) : State :=
  { after with sum := if before.sum.isSome then after.sum else none }

/-- The length of a text, a byte string or an extension, which is that of its payload. -/
def lengthOf : Value → Except Trap Nat
  | .str s => .ok (utf8 s).length
  | .bin data => .ok data.length
  | .ext _ data => .ok data.length
  | _ => .error .illTyped

/-- The value of a size, given the estimates of the identities. -/
def Term.eval (rt : Runtime) (call : String → Value → Except Trap Nat) (env : Env) :
    Term → Except Trap Nat
  | length arg => do rt.checked (← lengthOf (← arg.eval rt.conversions env).value)
  | lengthTimes source size => do rt.checked ((← (← source.eval env).items).length * size)
  | delegate source => do
    let x ← source.eval env
    match x.shape with
    | .base info =>
      if info.kind = .identifier then call (info.typeName.getD "") x.value else throw .illTyped
    | _ => throw .illTyped
  | guess v => do rt.checked (rt.guess (← v.eval env).value)

/-- The value of a sum. -/
def Sum.eval (rt : Runtime) (call : String → Value → Except Trap Nat) (env : Env) (s : Sum) :
    Except Trap Nat :=
  match s.term with
  | none => rt.checked s.known
  | some term => do rt.checked (s.known + (← term.eval rt call env))

/-- What the lines of an estimate do. -/
def Line.exec (rt : Runtime) (call : String → Value → Except Trap Nat) (env : Env) (st : State) :
    Line → Except Trap State
  | declare s =>
    match st.sum with
    | some _ => .error .redeclared
    | none => do return { st with sum := some (← s.eval rt call env) }
  | add s =>
    match st.sum with
    | some sum => do return { st with sum := some (← rt.checked (sum + (← s.eval rt call env))) }
    | none => .error .unbound
  | giveSum =>
    match st.sum with
    | some sum => .ok { st with result := some sum }
    | none => .error .unbound
  | giveNumber n => do return { st with result := some (← rt.checked n) }

/-- The machine that runs estimates. They read no flags. -/
def machine (rt : Runtime) (call : String → Value → Except Trap Nat) : Machine Line State where
  line env l st := l.exec rt call env st
  flag _ _ _ := .error .unbound
  leave := State.leave

/-- The statements of the estimate of an identity, if code is generated for it. -/
def code? (c : Config) (s : Shape) : Option Body :=
  if s.isPrintable then (body c s).toOption else none

/-- Runs the estimate of an identity, to a given depth of calls. -/
def msgsize (rt : Runtime) (t : Table) (c : Config) : Nat → String → Value → Except Trap Nat
  | 0, _, _ => .error .tooDeep
  | depth + 1, name, v =>
    match t.get? name with
    | none => .error .notGenerated
    | some s =>
      match code? c s with
      | none => .error .notGenerated
      | some code => do
        let st ← (machine rt (msgsize rt t c depth)).execAll code ⟨⟨s, v⟩, fun _ => none⟩ {}
        match st.result with
        | some n => return n
        | none => throw .illTyped

end Packwright.Msgsize
