import Packwright.Toml
import Packwright.Toml.Quoted

/-
  Tokens of a TOML text, read one character at a time. Comments leave no token; blanks and the
  end of a line do.
-/

namespace Packwright.Toml

/-- A token. -/
inductive Token where
  | equals
  | comma
  | openBracket
  | closeBracket
  | openBrace
  | closeBrace
  | blank (c : Char)
  | newline
  /-- A text in quotes, which may be one over several lines. -/
  | quoted (isLong : Bool) (s : String)
  /-- A run of other characters: a number, a word, a date, or parts of a dotted key. A quote begins
  a text only at its start or behind a dot, and is a character of the run elsewhere. -/
  | word (cs : List Char)

/-- The token that has begun. Characters are kept in reverse. -/
inductive Mode where
  /-- No token has begun. -/
  | between
  /-- Inside a comment. -/
  | comment
  /-- Behind a carriage return, which only a line feed may follow. -/
  | carriage
  /-- Inside a text in quotes. -/
  | quoted (quote : Quote) (q : Quoted)
  /-- Inside a run of other characters. -/
  | bare (acc : List Char)

/-- The state of the lexer: the token that has begun, and those before it in reverse. -/
structure Lexer where
  mode : Mode
  tokens : List Token

/-- Whether a character begins a text in quotes, where one may begin. -/
def isQuote (c : Char) : Bool := c == '"' || c == '\x27'

/-- Whether a character ends a word. -/
def isDivider (c : Char) : Bool :=
  isBlank c || ['\n', '\r', '#', '=', ',', '[', ']', '\x7b', '\x7d'].contains c

/-- Reads a character where a token begins. -/
def Lexer.stepBetween (tokens : List Token) (c : Char) : Lexer :=
  if isBlank c then ⟨.between, .blank c :: tokens⟩
  else if c = '\n' then ⟨.between, .newline :: tokens⟩
  else if c = '\r' then ⟨.carriage, tokens⟩
  else if c = '#' then ⟨.comment, tokens⟩
  else if c = '=' then ⟨.between, .equals :: tokens⟩
  else if c = ',' then ⟨.between, .comma :: tokens⟩
  else if c = '[' then ⟨.between, .openBracket :: tokens⟩
  else if c = ']' then ⟨.between, .closeBracket :: tokens⟩
  else if c = '\x7b' then ⟨.between, .openBrace :: tokens⟩
  else if c = '\x7d' then ⟨.between, .closeBrace :: tokens⟩
  else if c = '"' then ⟨.quoted .double .first, tokens⟩
  else if c = '\x27' then ⟨.quoted .single .first, tokens⟩
  else ⟨.bare [c], tokens⟩

/-- Reads a character behind those of a word. -/
def Lexer.stepBare (tokens : List Token) (acc : List Char) (c : Char) : Lexer :=
  if isDivider c || (isQuote c && acc.head? == some '.') then
    stepBetween (.word acc.reverse :: tokens) c
  else ⟨.bare (c :: acc), tokens⟩

/-- The token of a text in quotes. -/
def quotedToken (isLong : Bool) (text : List Char) : Token := .quoted isLong (String.ofList text)

/-- Reads one character. -/
def Lexer.step (l : Lexer) (c : Char) : Option Lexer :=
  match l.mode with
  | .between => some (stepBetween l.tokens c)
  | .comment =>
    if c = '\n' then some ⟨.between, .newline :: l.tokens⟩
    else if c = '\r' then some ⟨.carriage, l.tokens⟩
    else if isControl c then none
    else some l
  | .carriage => if c = '\n' then some ⟨.between, .newline :: l.tokens⟩ else none
  | .quoted quote q =>
    match q.step quote c with
    | none => none
    | some (.more q) => some ⟨.quoted quote q, l.tokens⟩
    | some (.closed isLong text) => some ⟨.between, quotedToken isLong text :: l.tokens⟩
    | some (.passed isLong text) => some (stepBetween (quotedToken isLong text :: l.tokens) c)
  | .bare acc => some (stepBare l.tokens acc c)

/-- The tokens once the text has ended, the end of the last line included. -/
def Lexer.finish (l : Lexer) : Option (List Token) :=
  match l.mode with
  | .between | .comment => some (.newline :: l.tokens).reverse
  | .bare acc => some (.newline :: .word acc.reverse :: l.tokens).reverse
  | .quoted quote q =>
    (q.finish quote).map fun (isLong, text) =>
      (.newline :: quotedToken isLong text :: l.tokens).reverse
  | .carriage => none

/-- The text without the mark that may stand before it. -/
def withoutMark : List Char → List Char
  | '\ufeff' :: rest => rest
  | text => text

/-- The tokens of a text. -/
def tokens? (text : List Char) : Option (List Token) := do
  (← (withoutMark text).foldlM Lexer.step ⟨.between, []⟩).finish

end Packwright.Toml
