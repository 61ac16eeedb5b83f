import Packwright.FloatBits
import Packwright.Shape
import Packwright.Value

/-
  When a field counts as empty. The rule depends on the shape alone; a value of another kind than
  the rule speaks of is not empty.
-/

namespace Packwright

/-- How emptiness is decided. -/
inductive Emptiness where
  /-- Never empty. -/
  | never
  /-- Empty when zero, as a number. -/
  | zeroNumber
  /-- Empty when false. -/
  | isFalse
  /-- Empty when of length zero. -/
  | emptyLength
  /-- Empty when absent. -/
  | absent
  /-- Empty when the zero time. -/
  | zeroTime
deriving DecidableEq

namespace Emptiness

/-- The rule for a shape. -/
def of : Shape → Emptiness
  | .struct _ _ | .array _ _ => never
  | .map _ _ | .slice _ => emptyLength
  | .ptr _ => absent
  | .base info =>
    match info.kind with
    | .identifier | .interface | .extension => never
    | .bool => isFalse
    | .string | .bytes => emptyLength
    | .time => zeroTime
    | _ => zeroNumber

/-- Whether a value is empty by a rule. -/
def holds : Emptiness → Value → Bool
  | zeroNumber, .int n => n == 0
  | zeroNumber, .uint n => n == 0
  | zeroNumber, .float32 bits => FloatBits.isZero32 bits
  | zeroNumber, .float64 bits => FloatBits.isZero64 bits
  | isFalse, .bool b => !b
  | emptyLength, .str s => s.isEmpty
  | emptyLength, .bin data => data.isEmpty
  | emptyLength, .array items => items.isEmpty
  | emptyLength, .map entries => entries.isEmpty
  | absent, .nil => true
  | zeroTime, .time secs nanos => secs == 0 && nanos == 0
  | _, _ => false

end Emptiness

end Packwright
