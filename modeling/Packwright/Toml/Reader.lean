import Packwright.Toml.Word

/-
  Reading a TOML text: one pass over its tokens, with a stack of the lists and tables that are
  open inside the current entry and the document as far as it has been read. Between the tokens of
  a list or of a table in braces the line may end, but not inside a key.
-/

namespace Packwright.Toml

/-- A value that is being read. What it holds so far is kept in reverse, if it is a list. -/
inductive Frame where
  /-- The value of a key of the current section. -/
  | entry (key : List String)
  /-- A list. -/
  | list (items : List Toml)
  /-- A table in braces, between two entries. -/
  | braces (entries : Entries)
  /-- A table in braces whose entry under `key` waits for its value. -/
  | member (entries : Entries) (key : List String)

/-- What may come next. Tokens are kept in reverse. -/
inductive Expect where
  /-- A line. -/
  | line
  /-- The second bracket of a repeated section header, or the rest of a section header. -/
  | headerOpening
  /-- The rest of a section header, which may be a repeated one. -/
  | header (isRepeated : Bool) (tokens : List Token)
  /-- The last bracket of a repeated section header. -/
  | headerClosing (key : List String)
  /-- The rest of a key and its equals sign. -/
  | key (tokens : List Token)
  /-- The equals sign of a key in braces that stands on an earlier line. -/
  | equals (key : List String)
  /-- The first token of a key, or the end of a table in braces. -/
  | keyOrClose
  /-- A value. -/
  | value
  /-- A value or the end of a list. -/
  | valueOrClose
  /-- The rest of a value without quotes, or what follows it. Blanks belong to the value if one
  more word stands behind them. Characters are kept in reverse. -/
  | bare (text gap : List Char)
  /-- A comma or the end of the innermost list or table. -/
  | next
  /-- The end of the line. -/
  | lineEnd

/-- The state of the reader: the document, the current section in it, and what is open. -/
structure Reader where
  root : Entries := []
  currentSection : List String := []
  stack : List Frame := []
  expect : Expect := .line

namespace Reader

/-- Puts a complete value where it belongs. -/
def complete (r : Reader) (stack : List Frame) (v : Toml) : Option Reader :=
  match stack with
  | [.entry key] => do
    return { r with root := ← changeAt (assign v key) r.currentSection r.root, stack := [],
                    expect := .lineEnd }
  | .list items :: rest => some { r with stack := .list (v :: items) :: rest, expect := .next }
  | .member entries key :: rest => do
    return { r with stack := .braces (← assign v key entries) :: rest, expect := .next }
  | _ => none

/-- Closes the innermost list. -/
def closeList (r : Reader) : Option Reader :=
  match r.stack with
  | .list items :: rest => r.complete rest (.list items.reverse)
  | _ => none

/-- Closes the innermost table in braces. -/
def closeBraces (r : Reader) : Option Reader :=
  match r.stack with
  | .braces entries :: rest => r.complete rest (.table .braces entries)
  | _ => none

/-- Opens a list or a table in braces, if one more may be open. The entry itself is below them on
the stack. -/
def push (r : Reader) (f : Frame) (e : Expect) : Option Reader :=
  if r.stack.length ≤ nestingLimit then some { r with stack := f :: r.stack, expect := e }
  else none

/-- Reads the first token of a value. -/
def openValue (r : Reader) : Token → Option Reader
  | .quoted _ s => r.complete r.stack (.str s)
  | .word cs => some { r with expect := .bare cs.reverse [] }
  | .openBracket => r.push (.list []) .valueOrClose
  | .openBrace => r.push (.braces []) .keyOrClose
  | _ => none

/-- Goes on behind the equals sign of a key. -/
def beginValue (r : Reader) (key : List String) : Option Reader :=
  match r.stack with
  | [] => some { r with stack := [.entry key], expect := .value }
  | .braces entries :: rest =>
    some { r with stack := .member entries key :: rest, expect := .value }
  | _ => none

/-- Ends a line behind a key, which may be done in braces. -/
def breakKey (r : Reader) (tokens : List Token) : Option Reader :=
  match r.stack with
  | .braces _ :: _ => do return { r with expect := .equals (← key? tokens.reverse) }
  | _ => none

/-- Ends a line where a value has to follow, which may be done in braces. -/
def breakValue (r : Reader) : Option Reader :=
  match r.stack with
  | .member .. :: _ => some r
  | _ => none

/-- Ends a section header, given what it makes of a value. -/
def beginSection (r : Reader) (make : Option Toml → Option Toml) (key : List String) :
    Option Reader := do
  return { r with root := ← openSection make key r.root, currentSection := key,
                  expect := .lineEnd }

/-- Reads a blank, which divides the brackets of a section header. -/
def stepBlank (r : Reader) : Option Reader :=
  match r.expect with
  | .headerOpening => some { r with expect := .header false [] }
  | .headerClosing _ => none
  | _ => some r

/-- Reads a token of a section header. -/
def stepHeader (r : Reader) (t : Token) : Option Reader :=
  match r.expect, t with
  | .headerOpening, .openBracket => some { r with expect := .header true [] }
  | .headerOpening, t => some { r with expect := .header false [t] }
  | .header false tokens, .closeBracket => do r.beginSection section? (← key? tokens.reverse)
  | .header true tokens, .closeBracket => do
    return { r with expect := .headerClosing (← key? tokens.reverse) }
  | .header isRepeated tokens, t => some { r with expect := .header isRepeated (t :: tokens) }
  | .headerClosing key, .closeBracket => r.beginSection repeated? key
  | _, _ => none

/-- Reads a token inside or behind a value of the current entry. -/
def stepValue (r : Reader) (t : Token) : Option Reader :=
  match r.expect, t with
  | .valueOrClose, .closeBracket => r.closeList
  | .valueOrClose, .newline => some r
  | .valueOrClose, t => r.openValue t
  | .value, .newline => r.breakValue
  | .value, t => r.openValue t
  | .keyOrClose, .closeBrace => r.closeBraces
  | .keyOrClose, .newline => some r
  | .keyOrClose, t => some { r with expect := .key [t] }
  | .next, .closeBracket => r.closeList
  | .next, .closeBrace => r.closeBraces
  | .next, .newline => some r
  | .next, .comma =>
    match r.stack with
    | .list _ :: _ => some { r with expect := .valueOrClose }
    | .braces _ :: _ => some { r with expect := .keyOrClose }
    | _ => none
  | _, _ => none

/-- Reads a token that does not continue a value without quotes. -/
def stepApart (r : Reader) (t : Token) : Option Reader :=
  match r.expect, t with
  | _, .blank _ => r.stepBlank
  | .line, .newline => some r
  | .line, .openBracket => some { r with expect := .headerOpening }
  | .line, t => some { r with expect := .key [t] }
  | .headerOpening, t | .header .., t | .headerClosing _, t => r.stepHeader t
  | .key tokens, .equals => do r.beginValue (← key? tokens.reverse)
  | .key tokens, .newline => r.breakKey tokens
  | .key tokens, t => some { r with expect := .key (t :: tokens) }
  | .equals key, .equals => r.beginValue key
  | .equals _, .newline => some r
  | .equals _, _ => none
  | .lineEnd, .newline => some { r with expect := .line }
  | .lineEnd, _ => none
  | _, t => r.stepValue t

/-- Reads one token. -/
def step (r : Reader) (t : Token) : Option Reader :=
  match r.expect, t with
  | .bare text gap, .blank c => some { r with expect := .bare text (c :: gap) }
  | .bare text gap, .word cs => some { r with expect := .bare (cs.reverse ++ gap ++ text) [] }
  | .bare text _, t => do (← r.complete r.stack (← ofWord? text.reverse)).stepApart t
  | _, t => r.stepApart t

/-- The document, once the text is complete. -/
def result? (r : Reader) : Option Entries :=
  match r.expect with
  | .line => some r.root
  | _ => none

end Reader

/-- Reads a document. -/
def read? (text : String) : Option Entries := do
  (← (← tokens? text.toList).foldlM Reader.step {}).result?

end Packwright.Toml
