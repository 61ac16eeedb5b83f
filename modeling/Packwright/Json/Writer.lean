import Packwright.Json
import Packwright.Text.Decimal

/-
  Writing a JSON document, either on one line without blanks or with one member a line. Only the
  quote, the backslash and control characters are escaped in a string. A value that stands for
  nothing is written as null.
-/

namespace Packwright.Json

/-- How a document is laid out: the break before an item at a depth, and what stands between a
key and its value. -/
structure Style where
  lineBreak : Nat → List Char
  colon : List Char

namespace Style

/-- Everything on one line, without blanks. -/
def compact : Style := ⟨fun _ => [], [':']⟩

/-- One item a line, indented by two spaces a level. -/
def pretty : Style := ⟨fun depth => '\n' :: List.replicate (2 * depth) ' ', [':', ' ']⟩

end Style

/-- The character of a hexadecimal digit. -/
def hexChar (n : Nat) : Char :=
  if n < 10 then Char.ofNat (48 + n) else Char.ofNat (87 + n)

/-- How a character is written in a string. -/
def escapeChar (c : Char) : List Char :=
  if c = '"' then ['\\', '"']
  else if c = '\\' then ['\\', '\\']
  else if c = '\x08' then ['\\', 'b']
  else if c = '\x0c' then ['\\', 'f']
  else if c = '\n' then ['\\', 'n']
  else if c = '\r' then ['\\', 'r']
  else if c = '\t' then ['\\', 't']
  else if c.toNat < 0x20 then
    ['\\', 'u', '0', '0', hexChar (c.toNat / 16), hexChar (c.toNat % 16)]
  else [c]

/-- A string with its quotes. -/
def quoted (s : String) : List Char :=
  '"' :: (s.toList.flatMap escapeChar ++ ['"'])

mutual

/-- The text of a document that stands at a depth. -/
def chars (style : Style) (depth : Nat) : Json → List Char
  | null | flawed => ['n', 'u', 'l', 'l']
  | bool true => ['t', 'r', 'u', 'e']
  | bool false => ['f', 'a', 'l', 's', 'e']
  | int n => Decimal.intDigits n
  | real literal => literal.toList
  | str s => quoted s
  | arr [] => ['[', ']']
  | arr (v :: rest) =>
    '[' :: style.lineBreak (depth + 1) ++ chars style (depth + 1) v ++
      itemChars style (depth + 1) rest ++ style.lineBreak depth ++ [']']
  | obj [] => ['\x7b', '\x7d']
  | obj ((key, v) :: rest) =>
    '\x7b' :: style.lineBreak (depth + 1) ++ quoted key ++ style.colon ++
      chars style (depth + 1) v ++ memberChars style (depth + 1) rest ++ style.lineBreak depth ++
      ['\x7d']

/-- The text of the further items of an array. -/
def itemChars (style : Style) (depth : Nat) : List Json → List Char
  | [] => []
  | v :: rest =>
    ',' :: style.lineBreak depth ++ chars style depth v ++ itemChars style depth rest

/-- The text of the further members of an object. -/
def memberChars (style : Style) (depth : Nat) : List (String × Json) → List Char
  | [] => []
  | (key, v) :: rest =>
    ',' :: style.lineBreak depth ++ quoted key ++ style.colon ++ chars style depth v ++
      memberChars style depth rest

end

/-- The text of a document on one line. -/
def compact (v : Json) : String := String.ofList (v.chars .compact 0)

/-- The text of a document with one item a line. -/
def pretty (v : Json) : String := String.ofList (v.chars .pretty 0)

end Packwright.Json
