import Packwright.Json.Number

/-
  Tokens of a JSON text, read one character at a time. The lexer keeps the token that has begun
  (a string, an escape in it, or a bare word) and the tokens before it.

  The text of a string is given by code units. A unit is a character, or one half of a pair that
  stands for a character beyond the first 65536. A half that has no partner stands for nothing.
-/

namespace Packwright.Surrogate

/-- Whether a unit is the first half of a pair. -/
def isHigh (n : Nat) : Bool := 0xd800 ≤ n && n ≤ 0xdbff

/-- Whether a unit is the second half of a pair. -/
def isLow (n : Nat) : Bool := 0xdc00 ≤ n && n ≤ 0xdfff

/-- The character that a pair stands for. -/
def combine (high low : Nat) : Char :=
  Char.ofNat (0x10000 + (high - 0xd800) * 0x400 + (low - 0xdc00))

/-- The text of some units, if every half has its partner. -/
def join? : List Nat → Option (List Char)
  | [] => some []
  | high :: low :: rest =>
    if isHigh high && isLow low then (join? rest).map (combine high low :: ·)
    else if isHigh high || isLow high then none
    else (join? (low :: rest)).map (Char.ofNat high :: ·)
  | [n] => if isHigh n || isLow n then none else some [Char.ofNat n]

end Packwright.Surrogate

namespace Packwright.Json

/-- A token. -/
inductive Token where
  | openBrace
  | closeBrace
  | openBracket
  | closeBracket
  | colon
  | comma
  /-- A string; it has no text if half of a surrogate pair stands alone in it. -/
  | str (s : Option String)
  | scalar (v : Json)

/-- The token that has begun. Code units of a string and characters of a word are kept in
reverse. -/
inductive Mode where
  /-- No token has begun. -/
  | between
  /-- Inside a string. -/
  | text (acc : List Nat)
  /-- Behind a backslash in a string. -/
  | escape (acc : List Nat)
  /-- Inside a four-digit escape, of which some digits are left. -/
  | unicode (acc : List Nat) (left code : Nat)
  /-- Inside a number or a word. -/
  | bare (acc : List Char)

/-- The state of the lexer: the token that has begun, and those before it in reverse. -/
structure Lexer where
  mode : Mode
  tokens : List Token

/-- Whether a character may stand in a number or a word. -/
def isBare (c : Char) : Bool :=
  c.isAlpha || Decimal.isDigit c || c == '+' || c == '-' || c == '.'

/-- The token of a number or a word. -/
def bareToken? (word : List Char) : Option Token :=
  if word = ['t', 'r', 'u', 'e'] then some (.scalar (.bool true))
  else if word = ['f', 'a', 'l', 's', 'e'] then some (.scalar (.bool false))
  else if word = ['n', 'u', 'l', 'l'] then some (.scalar .null)
  else (number? word).map .scalar

/-- The character of a one-letter escape. -/
def escaped? (c : Char) : Option Char :=
  if c = '"' ∨ c = '\\' ∨ c = '/' then some c
  else if c = 'b' then some '\x08'
  else if c = 'f' then some '\x0c'
  else if c = 'n' then some '\n'
  else if c = 'r' then some '\r'
  else if c = 't' then some '\t'
  else none

/-- The token of a string. -/
def textToken (units : List Nat) : Token :=
  .str ((Surrogate.join? units).map String.ofList)

/-- Reads a character where a token may begin. -/
def Lexer.stepBetween (tokens : List Token) (c : Char) : Option Lexer :=
  if c = ' ' ∨ c = '\t' ∨ c = '\n' ∨ c = '\r' then some ⟨.between, tokens⟩
  else if c = '\x7b' then some ⟨.between, .openBrace :: tokens⟩
  else if c = '\x7d' then some ⟨.between, .closeBrace :: tokens⟩
  else if c = '[' then some ⟨.between, .openBracket :: tokens⟩
  else if c = ']' then some ⟨.between, .closeBracket :: tokens⟩
  else if c = ':' then some ⟨.between, .colon :: tokens⟩
  else if c = ',' then some ⟨.between, .comma :: tokens⟩
  else if c = '"' then some ⟨.text [], tokens⟩
  else if isBare c then some ⟨.bare [c], tokens⟩
  else none

/-- Reads one character. -/
def Lexer.step (l : Lexer) (c : Char) : Option Lexer :=
  match l.mode with
  | .between => stepBetween l.tokens c
  | .text acc =>
    if c = '"' then some ⟨.between, textToken acc.reverse :: l.tokens⟩
    else if c = '\\' then some ⟨.escape acc, l.tokens⟩
    else if c.toNat < 0x20 then none
    else some ⟨.text (c.toNat :: acc), l.tokens⟩
  | .escape acc =>
    if c = 'u' then some ⟨.unicode acc 4 0, l.tokens⟩
    else (escaped? c).map fun e => ⟨.text (e.toNat :: acc), l.tokens⟩
  | .unicode acc left code => do
    let code := code * 16 + (← Hex.digit? c)
    if left = 1 then return ⟨.text (code :: acc), l.tokens⟩
    else return ⟨.unicode acc (left - 1) code, l.tokens⟩
  | .bare acc =>
    if isBare c then some ⟨.bare (c :: acc), l.tokens⟩
    else do stepBetween ((← bareToken? acc.reverse) :: l.tokens) c

/-- The tokens once the text has ended. -/
def Lexer.finish (l : Lexer) : Option (List Token) :=
  match l.mode with
  | .between => some l.tokens.reverse
  | .bare acc => do return ((← bareToken? acc.reverse) :: l.tokens).reverse
  | _ => none

/-- The tokens of a text. -/
def tokens? (text : List Char) : Option (List Token) := do
  (← text.foldlM Lexer.step ⟨.between, []⟩).finish

end Packwright.Json
