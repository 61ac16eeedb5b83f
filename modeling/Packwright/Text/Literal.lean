import Packwright.FloatBits
import Packwright.Text.Decimal

/-
  Number literals taken apart, whatever text they were read from, and two rules on which of them
  double precision can hold: one on the number that is written, and one on a 64-bit word of its
  leading digits.
-/

namespace Packwright

/-- A number literal taken apart. A part that is not written is absent. -/
structure Literal where
  negative : Bool
  whole : List Char
  fraction : Option (List Char)
  exponent : Option Int

/-- The least magnitude that rounds to infinity in double precision. -/
def doubleLimit : Nat := (1 <<< 1024) - (1 <<< 970)

/-- A magnitude: a number and the power of ten behind it. -/
structure Magnitude where
  significand : Nat
  exponent : Int

namespace Magnitude

/-- Whether the product of the significand and the power of ten, each rounded to double precision
before, is too large for it. A negative power divides, which never leads there. -/
def isProductTooLarge (m : Magnitude) : Bool :=
  if m.significand = 0 || m.exponent < 0 then false
  else if 308 < m.exponent then true
  else
    doubleLimit ≤
      FloatBits.nearest m.significand * FloatBits.nearest (Nat.pow 10 m.exponent.toNat)

/-- Appends a digit to a significand of 64 bits, if it has room for it. -/
def append? (significand : Nat) (digit : Char) : Option Nat :=
  let next := significand * 10 + (digit.toNat - 48)
  if next < UInt64.size then some next else none

/-- Takes the digits before the point. From the first one on that finds no room, a digit counts
as a power of ten. -/
def takeWhole (m : Magnitude) : List Char → Magnitude
  | [] => m
  | c :: rest =>
    match append? m.significand c with
    | some next => takeWhole ⟨next, m.exponent⟩ rest
    | none => ⟨m.significand, m.exponent + (rest.length + 1)⟩

/-- Takes the digits behind the point, up to the first one that finds no room. -/
def takeFraction (m : Magnitude) : List Char → Magnitude
  | [] => m
  | c :: rest =>
    match append? m.significand c with
    | some next => takeFraction ⟨next, m.exponent - 1⟩ rest
    | none => m

end Magnitude

namespace Literal

/-- Whether a literal is written as an integer. -/
def isInteger (l : Literal) : Bool := l.fraction.isNone && l.exponent.isNone

/-- Whether the number that is written is too large for double precision. The digits of its whole
part decide, and how many they are does so unless there are 309 of them. -/
def isTooLarge (l : Literal) : Bool :=
  let fraction := l.fraction.getD []
  let digits := (l.whole ++ fraction).dropWhile (· == '0')
  let length : Int := digits.length + l.exponent.getD 0 - fraction.length
  let leading := digits.take 309
  !digits.isEmpty && (309 < length ||
    (length == 309 &&
      doubleLimit ≤ Decimal.value (leading ++ List.replicate (309 - leading.length) '0')))

/-- The magnitude that the leading digits give, as many as a 64-bit word holds. -/
def leading (l : Literal) : Magnitude :=
  let m := ((⟨0, 0⟩ : Magnitude).takeWhole l.whole).takeFraction (l.fraction.getD [])
  ⟨m.significand, m.exponent + l.exponent.getD 0⟩

/-- The integer that a literal denotes, when it is written as an integer. Minus zero is none. -/
def integer? (l : Literal) : Option Int :=
  let n : Int := Decimal.value l.whole
  if !l.isInteger || (l.negative && n == 0) then none
  else
    let n := if l.negative then -n else n
    if Int64.minValue.toInt ≤ n ∧ n < UInt64.size then some n else none

end Literal

end Packwright
