/-
  Decimal numerals: writing, padding, and reading a 64-bit count. `value` reads back what
  `digits` writes. Of hexadecimal numerals only the digits are read here.
-/

namespace Packwright.Decimal

/-- The character of a digit below ten. -/
def digitChar (n : Nat) : Char := Char.ofNat (48 + n)

/-- The decimal digits of a number, most significant first, without leading zeros. -/
def digits (n : Nat) : List Char :=
  if n < 10 then [digitChar n] else digits (n / 10) ++ [digitChar (n % 10)]

/-- The number a string of digits denotes. -/
def value (cs : List Char) : Nat :=
  cs.foldl (fun n c => n * 10 + (c.toNat - 48)) 0

/-- Whether a character is a decimal digit. -/
def isDigit (c : Char) : Bool := 48 ≤ c.toNat && c.toNat ≤ 57

/-- The numeral of a natural number. -/
def ofNat (n : Nat) : String := String.ofList (digits n)

/-- The digits of an integer, with a minus sign if it is negative. -/
def intDigits : Int → List Char
  | .ofNat n => digits n
  | .negSucc n => '-' :: digits (n + 1)

/-- The numeral of an integer. -/
def ofInt (n : Int) : String := String.ofList (intDigits n)

/-- The numeral of a number, filled up with zeros on the left to a least width. -/
def padded (width n : Nat) : String :=
  let cs := digits n
  String.ofList (List.replicate (width - cs.length) '0' ++ cs)

/-- Reads a 64-bit count: one optional plus sign, then digits, leading zeros allowed. -/
def count? (s : String) : Option Nat :=
  let cs := match s.toList with
    | '+' :: rest => rest
    | cs => cs
  if cs.isEmpty || !cs.all isDigit then none
  else if value cs < UInt64.size then some (value cs) else none

end Packwright.Decimal

namespace Packwright.Hex

/-- The value of a hexadecimal digit. -/
def digit? (c : Char) : Option Nat :=
  if Decimal.isDigit c then some (c.toNat - 48)
  else if 'a' ≤ c ∧ c ≤ 'f' then some (c.toNat - 87)
  else if 'A' ≤ c ∧ c ≤ 'F' then some (c.toNat - 55)
  else none

end Packwright.Hex
