import Packwright.Text.Literal
import Packwright.Toml.Lexer
import Packwright.Toml.Moment

/-
  What the words of a TOML text stand for: booleans, numbers, dates and times as values, names
  between dots as keys. Underscores may divide the digits of a number.

  A number has to have the right form. Of an integer whose digits underscores divide, that is a
  matter of its beginning and of the underscores alone: other characters may follow, and take its
  value away.
-/

namespace Packwright.Toml

/-- Whether each underscore stands between two digits. -/
def areDigitsDivided (isDigit : Char → Bool) : List Char → Bool
  | c :: '_' :: d :: rest => isDigit c && isDigit d && areDigitsDivided isDigit (d :: rest)
  | c :: rest => c != '_' && areDigitsDivided isDigit rest
  | [] => true

/-- The digits of a number without the underscores between them. -/
def plainDigits (cs : List Char) : List Char := cs.filter (· != '_')

/-- The plain digits of a part of a number that has nothing else in it. -/
def partDigits? (cs : List Char) : Option (List Char) :=
  let digits := plainDigits cs
  if digits.isEmpty || !digits.all Decimal.isDigit then none else some digits

/-- Splits off the sign of a number. -/
def signed : List Char → Option Char × List Char
  | '-' :: rest => (some '-', rest)
  | '+' :: rest => (some '+', rest)
  | rest => (none, rest)

/-- A number with a sign, given its magnitude. -/
def withSign (sign : Option Char) (n : Nat) : Int := if sign = some '-' then -n else n

/-- An integer, which has no value if it has more than 128 bits. -/
def ofInteger (n : Int) : Toml :=
  if -(1 <<< 127 : Nat) ≤ n ∧ n < (1 <<< 128 : Nat) then .int n else .flawed

/-- Reads the digits of an integer in another base. Without any it has no value. -/
def based? (base : Nat) (cs : List Char) : Option Toml :=
  let isDigit := fun c => (Hex.digit? c).any (· < base)
  let digits := plainDigits cs
  if !digits.all isDigit || !areDigitsDivided isDigit cs then none
  else if digits.isEmpty then some .flawed
  else some (ofInteger (digits.foldl (fun n c => n * base + (Hex.digit? c).getD 0) 0 : Nat))

/-- Reads a decimal integer, which has no leading zero. Hexadecimal digits may stand at its
underscores, and anything between those; then it has no value. -/
def decimal? (sign : Option Char) (body : List Char) : Option Toml :=
  if body.isEmpty || (body.head? = some '0' && body != ['0']) then none
  else if !areDigitsDivided (fun c => (Hex.digit? c).isSome) body then none
  else
    match partDigits? body with
    | none => some .flawed
    | some digits => some (ofInteger (withSign sign (Decimal.value digits)))

/-- Splits a text at the first character of a kind. -/
def cutAt (stop : Char → Bool) (cs : List Char) : List Char × Option (List Char) :=
  let front := cs.takeWhile fun c => !stop c
  match cs.dropWhile fun c => !stop c with
  | [] => (front, none)
  | _ :: rest => (front, some rest)

/-- Whether a character marks the exponent of a number. -/
def isExponentMark (c : Char) : Bool := c == 'e' || c == 'E'

/-- Reads a number with a fraction or an exponent. Its first digit is no zero, unless it is the
only one there. A number that double precision cannot hold has no value. -/
def real? (sign : Option Char) (body : List Char) : Option Toml := do
  let (front, exponent) := cutAt isExponentMark body
  let (front, fraction) := cutAt (· == '.') front
  let whole ← partDigits? front
  let fraction ← fraction.elim (some []) partDigits?
  let (powerSign, power) := signed (exponent.getD ['0'])
  let power ← partDigits? power
  if front.head? = some '0' ∧ whole ≠ ['0'] then none
  else if !areDigitsDivided Decimal.isDigit body then none
  else
    let literal : Literal :=
      { negative := sign = some '-', whole, fraction := some fraction,
        exponent := some (withSign powerSign (Decimal.value power)) }
    return if literal.isTooLarge then .flawed
      else .float (String.ofList (sign.toList ++ body))

/-- Reads a number in decimal digits. What follows the first of them tells its kind. -/
def decimalNumber? (sign : Option Char) (body : List Char) : Option Toml :=
  let rest := body.dropWhile Decimal.isDigit
  if rest.contains ' ' then none
  else if rest.any fun c => c == '.' || isExponentMark c then real? sign body
  else if rest.isEmpty || rest.head? = some '_' then decimal? sign body
  else none

/-- Reads a number. One in another base has no sign. -/
def number? (cs : List Char) : Option Toml :=
  match cs with
  | '0' :: 'x' :: rest => based? 16 rest
  | '0' :: 'o' :: rest => based? 8 rest
  | '0' :: 'b' :: rest => based? 2 rest
  | _ =>
    let (sign, body) := signed cs
    if body = ['i', 'n', 'f'] ∨ body = ['n', 'a', 'n'] then some (.float (String.ofList cs))
    else decimalNumber? sign body

/-- Reads a date, a time of the day, or both. -/
def moment? (cs : List Char) : Option Toml :=
  if Moment.isDate cs || Moment.isTime cs || Moment.isDateTime cs then
    some (.moment (String.ofList cs))
  else none

/-- The value of a word. -/
def ofWord? (cs : List Char) : Option Toml :=
  if cs = ['t', 'r', 'u', 'e'] then some (.bool true)
  else if cs = ['f', 'a', 'l', 's', 'e'] then some (.bool false)
  else number? cs <|> moment? cs

/-- Whether a character may stand in a key without quotes. -/
def isKeyChar (c : Char) : Bool :=
  c.isAlpha || Decimal.isDigit c || c == '_' || c == '-'

/-- A piece of a dotted key. -/
inductive KeyPiece where
  | name (s : String)
  | dot

/-- The pieces of a word in a key: a dot, or a run of characters between dots. -/
def wordPieces (cs : List Char) : Option (List KeyPiece) :=
  let (run, rest) := cs.foldr (fun c (run, rest) =>
    if c = '.' then ([], .dot :: (if run.isEmpty then rest else .name (String.ofList run) :: rest))
    else (c :: run, rest)) (([] : List Char), ([] : List KeyPiece))
  if cs.all fun c => isKeyChar c || c == '.' then
    some (if run.isEmpty then rest else .name (String.ofList run) :: rest)
  else none

/-- The pieces of a token in a key. -/
def Token.pieces? : Token → Option (List KeyPiece)
  | .quoted false s => some [.name s]
  | .word cs => wordPieces cs
  | _ => none

/-- The names of a key: pieces that alternate between names and dots. -/
def keyNames? : List KeyPiece → Option (List String)
  | [.name s] => some [s]
  | .name s :: .dot :: rest => (keyNames? rest).map (s :: ·)
  | _ => none

/-- The names of a key that is made of some tokens. Their number is limited. -/
def key? (tokens : List Token) : Option (List String) := do
  let names ← keyNames? (← tokens.mapM Token.pieces?).flatten
  if names.length ≤ nestingLimit then some names else none

end Packwright.Toml
