/-
  Change of width of floating point numbers, on their bit patterns. Widening is exact;
  narrowing rounds to the nearest single precision number, a tie going to the even one. A NaN
  keeps its sign and the leading bits of its payload and becomes quiet.
-/

namespace Packwright.FloatBits

/-- `n` without its lowest `shift` bits, rounded to the nearest integer, a tie going to the even
one. -/
def roundShift (n shift : Nat) : Nat :=
  let unit := 1 <<< shift
  let quotient := n / unit
  let twice := 2 * (n % unit)
  if unit < twice ∨ (unit = twice ∧ quotient % 2 = 1) then quotient + 1 else quotient

/-- The single precision pattern nearest to a double precision one. -/
def narrow (bits : UInt64) : UInt32 :=
  let n := bits.toNat
  let sign := n >>> 63 <<< 31
  let exponent := (n >>> 52) % 0x800
  let fraction := n % 0x10000000000000
  if exponent = 0x7ff then
    if fraction = 0 then UInt32.ofNat (sign + 0x7f800000)
    else UInt32.ofNat (sign + (0x7fc00000 ||| fraction >>> 29))
  else if exponent ≤ 896 then
    -- at or below the subnormal range, where the unit is the least single precision number
    let significand := if exponent = 0 then fraction else fraction + 0x10000000000000
    UInt32.ofNat (sign + roundShift significand (926 - max exponent 1))
  else
    -- a carry out of the fraction moves into the exponent, which is the next number
    let rounded := ((exponent - 896) <<< 23) + roundShift fraction 29
    UInt32.ofNat (sign + min rounded 0x7f800000)

/-- Number of binary digits of `n`. -/
def bitLength (n : Nat) : Nat := if n = 0 then 0 else Nat.log2 n + 1

/-- The number of at most 53 binary digits nearest to an integer, a tie going to the even one. It
is the nearest double precision number, as long as that is finite. -/
def nearest (n : Nat) : Nat :=
  let shift := bitLength n - 53
  roundShift n shift <<< shift

/-- The double precision pattern of the same number. -/
def widen (bits : UInt32) : UInt64 :=
  let n := bits.toNat
  let sign := n >>> 31 <<< 63
  let exponent := (n >>> 23) % 0x100
  let fraction := n % 0x800000
  if exponent = 0xff then
    if fraction = 0 then UInt64.ofNat (sign + 0x7ff0000000000000)
    else UInt64.ofNat (sign + (0x7ff8000000000000 ||| fraction <<< 29))
  else if exponent = 0 then
    if fraction = 0 then UInt64.ofNat sign
    else
      -- a subnormal becomes normal: its leading bit turns into the hidden one
      let length := bitLength fraction
      let significand := fraction <<< (53 - length)
      UInt64.ofNat (sign + ((873 + length) <<< 52) + (significand - 0x10000000000000))
  else UInt64.ofNat (sign + ((exponent + 896) <<< 52) + (fraction <<< 29))

/-- Whether a single precision pattern is a zero of either sign. -/
def isZero32 (bits : UInt32) : Bool := bits.toNat % 0x80000000 == 0

/-- Whether a double precision pattern is a zero of either sign. -/
def isZero64 (bits : UInt64) : Bool := bits.toNat % 0x8000000000000000 == 0

end Packwright.FloatBits
