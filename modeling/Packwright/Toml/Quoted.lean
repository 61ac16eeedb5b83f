import Packwright.Text.Decimal

/-
  Texts in quotes, read one character at a time. A text in double quotes has escapes, one in
  single quotes has none. Three quotes open a text over several lines: a line end right behind
  them is not part of it, a backslash at the end of a line takes the line end and the blanks that
  follow away, and up to two quotes may stand before the three that close it.
-/

namespace Packwright.Toml

/-- What a text is quoted with. -/
inductive Quote where
  | double
  | single
deriving DecidableEq

/-- The character of a quote. -/
def Quote.char : Quote → Char
  | double => '"'
  | single => '\x27'

/-- How far a text in quotes has been read. Its characters are kept in reverse. -/
inductive Quoted where
  /-- Behind the first quote. -/
  | first
  /-- Behind two quotes, which are an empty text unless a third one follows. -/
  | second
  /-- In a text on one line. -/
  | line (acc : List Char)
  /-- Behind the quotes that open a text over several lines. -/
  | third
  /-- Behind them and a carriage return. -/
  | thirdCarriage
  /-- In a text over several lines. -/
  | lines (acc : List Char)
  /-- Behind a carriage return in such a text, which only a line feed may follow. -/
  | carriage (acc : List Char)
  /-- Behind one or more quotes in such a text. -/
  | closing (acc : List Char) (quotes : Nat)
  /-- Behind a backslash. -/
  | escape (isLong : Bool) (acc : List Char)
  /-- Inside an escape with `left` hexadecimal digits to come. -/
  | unicode (isLong : Bool) (acc : List Char) (left code : Nat)
  /-- Behind a backslash and blanks, where the line has to end. -/
  | folding (acc : List Char)
  /-- Behind a backslash and a line end, where blanks and line ends are passed over. -/
  | folded (acc : List Char)
  /-- There, behind a carriage return. -/
  | foldedCarriage (acc : List Char)

/-- What a character does to a text in quotes. -/
inductive Reach where
  /-- The text goes on. -/
  | more (q : Quoted)
  /-- The character is the last quote of the text. -/
  | closed (isLong : Bool) (text : List Char)
  /-- The text ended before the character. -/
  | passed (isLong : Bool) (text : List Char)

/-- Whether a character may stand neither in a text nor in a comment. -/
def isControl (c : Char) : Bool :=
  (c.toNat < 0x20 && c != '\t') || c.toNat == 0x7f

/-- Whether a character is a blank. -/
def isBlank (c : Char) : Bool := c == ' ' || c == '\t'

/-- The character of a one-letter escape. -/
def escaped? (c : Char) : Option Char :=
  if c = '"' ∨ c = '\\' then some c
  else if c = 'b' then some '\x08'
  else if c = 'e' then some '\x1b'
  else if c = 'f' then some '\x0c'
  else if c = 'n' then some '\n'
  else if c = 'r' then some '\r'
  else if c = 't' then some '\t'
  else none

/-- The number of digits of an escape by code point. -/
def escapeDigits? (c : Char) : Option Nat :=
  if c = 'x' then some 2
  else if c = 'u' then some 4
  else if c = 'U' then some 8
  else none

/-- The character of a code point, if it is one. -/
def scalar? (code : Nat) : Option Char :=
  if code < 0xd800 ∨ (0xdfff < code ∧ code < 0x110000) then some (Char.ofNat code) else none

namespace Quoted

/-- In a text on one line or over several. -/
def inText (isLong : Bool) (acc : List Char) : Quoted :=
  if isLong then lines acc else line acc

/-- Reads a character of a text on one line. -/
def stepLine (quote : Quote) (acc : List Char) (c : Char) : Option Reach :=
  if c = quote.char then some (.closed false acc.reverse)
  else if c = '\\' ∧ quote = .double then some (.more (escape false acc))
  else if isControl c then none
  else some (.more (line (c :: acc)))

/-- Reads a character of a text over several lines. -/
def stepLines (quote : Quote) (acc : List Char) (c : Char) : Option Reach :=
  if c = quote.char then some (.more (closing acc 1))
  else if c = '\\' ∧ quote = .double then some (.more (escape true acc))
  else if c = '\r' then some (.more (carriage acc))
  else if isControl c ∧ c ≠ '\n' then none
  else some (.more (lines (c :: acc)))

/-- Reads a character behind a backslash where the line has to end. -/
def stepFolding (acc : List Char) (c : Char) : Option Reach :=
  if isBlank c then some (.more (folding acc))
  else if c = '\n' then some (.more (folded acc))
  else if c = '\r' then some (.more (foldedCarriage acc))
  else none

/-- Reads a character behind a backslash. -/
def stepEscape (isLong : Bool) (acc : List Char) (c : Char) : Option Reach :=
  match escapeDigits? c, escaped? c with
  | some left, _ => some (.more (unicode isLong acc left 0))
  | none, some e => some (.more (inText isLong (e :: acc)))
  | none, none => if isLong then stepFolding acc c else none

/-- The text over several lines that ends in some quotes, three of which close it. -/
def ending (quote : Quote) (acc : List Char) (quotes : Nat) : List Char :=
  acc.reverse ++ List.replicate (quotes - 3) quote.char

/-- Reads one character. -/
def step (quote : Quote) (q : Quoted) (c : Char) : Option Reach :=
  match q with
  | first => if c = quote.char then some (.more second) else stepLine quote [] c
  | second => if c = quote.char then some (.more third) else some (.passed false [])
  | line acc => stepLine quote acc c
  | third =>
    if c = '\n' then some (.more (lines []))
    else if c = '\r' then some (.more thirdCarriage)
    else stepLines quote [] c
  | thirdCarriage => if c = '\n' then some (.more (lines [])) else none
  | lines acc => stepLines quote acc c
  | carriage acc => if c = '\n' then some (.more (lines ('\n' :: '\r' :: acc))) else none
  | closing acc quotes =>
    if c = quote.char then
      if quotes = 4 then some (.closed true (ending quote acc 5))
      else some (.more (closing acc (quotes + 1)))
    else if 3 ≤ quotes then some (.passed true (ending quote acc quotes))
    else stepLines quote (List.replicate quotes quote.char ++ acc) c
  | escape isLong acc => stepEscape isLong acc c
  | unicode isLong acc left code => do
    let code := code * 16 + (← Hex.digit? c)
    if left = 1 then return .more (inText isLong ((← scalar? code) :: acc))
    else return .more (unicode isLong acc (left - 1) code)
  | folding acc => stepFolding acc c
  | folded acc =>
    if isBlank c ∨ c = '\n' then some (.more (folded acc))
    else if c = '\r' then some (.more (foldedCarriage acc))
    else stepLines quote acc c
  | foldedCarriage acc => if c = '\n' then some (.more (folded acc)) else none

/-- The text, if what has been read of it is complete, and whether it is one over several
lines. -/
def finish (quote : Quote) : Quoted → Option (Bool × List Char)
  | second => some (false, [])
  | closing acc quotes => if 3 ≤ quotes then some (true, ending quote acc quotes) else none
  | _ => none

end Quoted

end Packwright.Toml
