import Packwright.Code.Tree

/-
  Generators. A generator is made once, with its settings, and renders one identity after another.
  It writes each statement when it comes to it, so when it fails, the text up to there and what was
  held back stay behind.
-/

namespace Packwright

/-- A generator: its settings, the text written so far, and what is held back. -/
structure Generator (σ : Type) where
  config : Config
  writer : Writer
  pending : σ

namespace Generator

variable {σ α β : Type}

/-- A generator that was not used yet. -/
def new (c : Config) (start : σ) : Generator σ := ⟨c, .new c.indent, start⟩

/-- A step of a generator, which may fail and then keeps the generator as it is. -/
abbrev Step (σ : Type) := EStateM Fault (Generator σ)

/-- Begins a new text with nothing held back. -/
def reset (start : σ) : Step σ Unit := modify fun g => new g.config start

/-- Writes to the text. -/
def write (f : Writer → Writer) : Step σ Unit :=
  modify fun g => { g with writer := f g.writer }

/-- Works on what is held back. -/
def hold (x : StateT σ (Except Fault) α) : Step σ α := fun g =>
  match x g.pending with
  | .ok (a, pending) => .ok a { g with pending }
  | .error fault => .error fault g

/-- Writes the statements that come of what is held back. -/
def emit (writeLine : Writer → β → Writer) (x : StateT σ (Except Fault) (List (Code β))) :
    Step σ Unit := do
  let code ← hold x
  write fun w => Code.writeAll writeLine w code

/-- A block. Nothing is held back across its edges. -/
def block (flush : Step σ Unit) (head : Head) (body : Step σ Unit) : Step σ Unit := do
  flush
  write fun w => w.openBlock head.text
  body
  flush
  write Writer.closeBlock

/-- The two arms of an optional value. Nothing is held back across their edges. -/
def optional (flush : Step σ Unit) (name : Local) (source : Var) (body orElse : Step σ Unit) :
    Step σ Unit := do
  flush
  write fun w => w.openBlock (Code.presentHead name source)
  body
  flush
  write fun w => w.reopen Code.otherwise
  orElse
  flush
  write Writer.closeBlock

/-- Gives up the text, and begins a new one. -/
def finish : Step σ String := do
  let g ← get
  set { g with writer := .new g.config.indent }
  return g.writer.text

/-- Renders an identity, if code is generated for its shape. Nothing of the identities before it
is used. -/
def render (start : σ) (s : Shape) (writeImpl : Config → Step σ Unit) : Step σ (Option String) := do
  if !s.isPrintable then return none
  reset start
  writeImpl (← get).config
  return some (← finish)

end Generator

end Packwright
