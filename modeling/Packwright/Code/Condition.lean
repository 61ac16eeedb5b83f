import Packwright.Code.Place
import Packwright.Emptiness

/-
  The test for emptiness in generated code.
-/

namespace Packwright

/-- A test for emptiness. -/
inductive Condition where
  /-- The number is zero. -/
  | isZero (arg : Arg) (isFloat : Bool)
  /-- The boolean is false. -/
  | isFalse (arg : Arg)
  /-- The length is zero. -/
  | isEmpty (arg : Arg)
  /-- The pointer is absent. -/
  | isNone (p : Place)
  /-- The time is the zero time. -/
  | isZeroTime (p : Place)
deriving DecidableEq

namespace Condition

/-- The text of a test. -/
def text : Condition → String
  | isZero arg isFloat => arg.text ++ " == " ++ (if isFloat then "0.0" else "0")
  | isFalse arg => "!" ++ arg.text
  | isEmpty arg => arg.text ++ ".is_empty()"
  | isNone p => p.text ++ ".is_none()"
  | isZeroTime p => p.text ++ ".is_zero()"

/-- What a test of a variable looks at. -/
def operand (s : Shape) (v : Var) : Arg :=
  match s with
  | .base info => if info.needsConversion || info.kind.isCopy then info.arg v else .place v.place
  | _ => .place v.place

/-- Whether a shape is a floating point number. -/
def isFloat : Shape → Bool
  | .base info => info.kind.isFloat
  | _ => false

/-- The test of a variable by the rule for its shape, if it can be empty at all. -/
def of? (s : Shape) (v : Var) : Option Condition :=
  match Emptiness.of s with
  | .never => none
  | .zeroNumber => some (isZero (operand s v) (isFloat s))
  | .isFalse => some (isFalse (operand s v))
  | .emptyLength => some (isEmpty (operand s v))
  | .absent => some (isNone v.place)
  | .zeroTime => some (isZeroTime v.place)

end Condition

end Packwright
