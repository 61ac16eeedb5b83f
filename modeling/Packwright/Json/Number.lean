import Packwright.Json
import Packwright.Text.Literal

/-
  Number literals. A literal is a sign, an integer part without leading zeros, and optional
  fraction and exponent parts. One that is too large for double precision has the form of a
  number but stands for none.
-/

namespace Packwright.Json

/-- Splits off a leading run of digits, which must not be empty. -/
def digitRun? (cs : List Char) : Option (List Char × List Char) :=
  match cs.takeWhile Decimal.isDigit with
  | [] => none
  | run => some (run, cs.dropWhile Decimal.isDigit)

/-- The fraction part: a point and at least one digit, or nothing. -/
def fraction? : List Char → Option (Option (List Char) × List Char)
  | '.' :: rest => (digitRun? rest).map fun (run, rest) => (some run, rest)
  | rest => some (none, rest)

/-- The exponent part: a mark, an optional sign and at least one digit, or nothing. -/
def exponent? : List Char → Option (Option Int × List Char)
  | c :: rest =>
    if c = 'e' ∨ c = 'E' then
      let (isNegative, rest) := match rest with
        | '-' :: rest => (true, rest)
        | '+' :: rest => (false, rest)
        | rest => (false, rest)
      (digitRun? rest).map fun (run, rest) =>
        let n : Int := Decimal.value run
        (some (if isNegative then -n else n), rest)
    else some (none, c :: rest)
  | [] => some (none, [])

/-- Reads a whole text as a number literal. -/
def literal? (text : List Char) : Option Literal := do
  let (negative, body) := match text with
    | '-' :: rest => (true, rest)
    | rest => (false, rest)
  let (whole, rest) ← digitRun? body
  if whole.head? = some '0' ∧ whole ≠ ['0'] then none
  let (fraction, rest) ← fraction? rest
  let (exponent, rest) ← exponent? rest
  if rest ≠ [] then none
  return { negative, whole, fraction, exponent }

/-- Reads a number. -/
def number? (text : List Char) : Option Json := do
  let l ← literal? text
  match l.integer? with
  | some n => return int n
  | none => return if l.leading.isProductTooLarge then flawed else real (String.ofList text)

end Packwright.Json
