import Packwright.Json.Lexer

/-
  Reading a JSON text: one pass over its tokens with a stack of the containers that are open.
  The height of the stack is the number of open brackets, which a limit may bound.
-/

namespace Packwright.Json

/-- A container that is open. What it holds so far is kept in reverse. -/
inductive Frame where
  /-- An array. -/
  | array (items : List Json)
  /-- An object between two members. It has no members once a key has no text. -/
  | object (members : Option (List (String × Json)))
  /-- An object whose member under `key` waits for its value. -/
  | member (members : Option (List (String × Json))) (key : Option String)

/-- What may come next. -/
inductive Expect where
  /-- A value. -/
  | value
  /-- A value or the end of an array. -/
  | valueOrClose
  /-- The key of a member. -/
  | key
  /-- The key of a member or the end of an object. -/
  | keyOrClose
  /-- The colon behind a key. -/
  | colon (key : Option String)
  /-- A comma or the end of the container. -/
  | next
  /-- Nothing: the text is complete. -/
  | done (v : Json)

/-- The state of the reader. -/
structure Reader where
  stack : List Frame
  expect : Expect

namespace Reader

/-- The state before the text. -/
def initial : Reader := ⟨[], .value⟩

/-- Puts a complete value into the innermost container. -/
def complete (stack : List Frame) (v : Json) : Option Reader :=
  match stack with
  | [] => some ⟨[], .done v⟩
  | .array items :: rest => some ⟨.array (v :: items) :: rest, .next⟩
  | .member members key :: rest =>
    some ⟨.object (do return (← key, v) :: (← members)) :: rest, .next⟩
  | .object _ :: _ => none

/-- Opens a container, if one more may be open. -/
def push (limit : Option Nat) (stack : List Frame) (f : Frame) (e : Expect) : Option Reader :=
  if limit.all (stack.length < ·) then some ⟨f :: stack, e⟩ else none

/-- Closes the innermost array. -/
def closeArray : List Frame → Option Reader
  | .array items :: rest => complete rest (.arr items.reverse)
  | _ => none

/-- Closes the innermost object. -/
def closeObject : List Frame → Option Reader
  | .object (some members) :: rest => complete rest (.obj members.reverse)
  | .object none :: rest => complete rest .flawed
  | _ => none

/-- Reads the first token of a value. -/
def openValue (limit : Option Nat) (stack : List Frame) : Token → Option Reader
  | .str (some s) => complete stack (.str s)
  | .str none => complete stack .flawed
  | .scalar v => complete stack v
  | .openBracket => push limit stack (.array []) .valueOrClose
  | .openBrace => push limit stack (.object (some [])) .keyOrClose
  | _ => none

/-- Reads one token. -/
def step (limit : Option Nat) (r : Reader) (t : Token) : Option Reader :=
  match r.expect, t with
  | .valueOrClose, .closeBracket => closeArray r.stack
  | .valueOrClose, t => openValue limit r.stack t
  | .value, t => openValue limit r.stack t
  | .keyOrClose, .closeBrace => closeObject r.stack
  | .keyOrClose, .str key => some ⟨r.stack, .colon key⟩
  | .key, .str key => some ⟨r.stack, .colon key⟩
  | .colon key, .colon =>
    match r.stack with
    | .object members :: rest => some ⟨.member members key :: rest, .value⟩
    | _ => none
  | .next, .comma =>
    match r.stack with
    | .array _ :: _ => some ⟨r.stack, .value⟩
    | .object _ :: _ => some ⟨r.stack, .key⟩
    | _ => none
  | .next, .closeBracket => closeArray r.stack
  | .next, .closeBrace => closeObject r.stack
  | _, _ => none

/-- The document, once the text is complete. -/
def result? (r : Reader) : Option Json :=
  match r.expect with
  | .done v => some v
  | _ => none

end Reader

/-- Reads a document from its tokens. At most `limit` brackets may be open at once. -/
def ofTokens? (limit : Option Nat) (tokens : List Token) : Option Json := do
  (← tokens.foldlM (Reader.step limit) Reader.initial).result?

/-- Reads a document by its form, which may hold values that stand for nothing. -/
def parse? (limit : Option Nat) (text : String) : Option Json := do
  ofTokens? limit (← tokens? text.toList)

/-- Reads a document that stands for something throughout, within the nesting limit. -/
def read? (text : String) : Option Json :=
  (parse? (some nestingLimit) text).filter isSound

end Packwright.Json
