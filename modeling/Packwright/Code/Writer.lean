import Packwright.Config

/-
  Writing indented code line by line. A block opens with a line that ends in a brace and indents
  the lines after it; closing a block that was never opened leaves the depth at zero.
-/

namespace Packwright

/-- The text written so far and the depth of the next line. -/
structure Writer where
  indent : Indent
  text : String := ""
  depth : Nat := 0

namespace Writer

/-- Nothing written yet. -/
def new (indent : Indent) : Writer := { indent }

/-- Writes a line; an empty one is not indented. -/
def line (w : Writer) (t : String) : Writer :=
  if t.isEmpty then { w with text := w.text ++ "\n" }
  else { w with text := w.text ++ w.indent.text w.depth ++ t ++ "\n" }

/-- Writes an empty line. -/
def blank (w : Writer) : Writer := { w with text := w.text ++ "\n" }

/-- The text of a comment. -/
def commentText (t : String) : String := "// " ++ t

/-- Writes a comment. -/
def comment (w : Writer) (t : String) : Writer := w.line (commentText t)

/-- Writes a documentation comment. -/
def doc (w : Writer) (t : String) : Writer := w.line ("/// " ++ t)

/-- Indents the lines to come. -/
def deeper (w : Writer) : Writer := { w with depth := w.depth + 1 }

/-- Takes back one level of indentation. -/
def shallower (w : Writer) : Writer := { w with depth := w.depth - 1 }

/-- Opens a block. -/
def openBlock (w : Writer) (header : String) : Writer := (w.line (header ++ " \x7b")).deeper

/-- Ends a block with the given line. -/
def closeWith (w : Writer) (t : String) : Writer := w.shallower.line t

/-- Ends a block. -/
def closeBlock (w : Writer) : Writer := w.closeWith "\x7d"

/-- Ends a block and opens the next with one line. -/
def reopen (w : Writer) (t : String) : Writer := (w.closeWith t).deeper

end Writer

end Packwright
