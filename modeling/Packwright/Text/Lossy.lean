import Packwright.Bytes

/-
  Reading bytes as UTF-8 when they may be cut off or damaged: each longest piece that cannot
  begin a character is replaced by U+FFFD.
-/

namespace Packwright.Lossy

/-- The character that stands for damaged bytes. -/
def replacement : Char := Char.ofNat 0xfffd

/-- The number of continuation bytes after a lead byte, and the range of the first of them. -/
def lead? (b : Nat) : Option (Nat × Nat × Nat) :=
  if 0xc2 ≤ b ∧ b ≤ 0xdf then some (1, 0x80, 0xbf)
  else if b = 0xe0 then some (2, 0xa0, 0xbf)
  else if b = 0xed then some (2, 0x80, 0x9f)
  else if 0xe1 ≤ b ∧ b ≤ 0xef then some (2, 0x80, 0xbf)
  else if b = 0xf0 then some (3, 0x90, 0xbf)
  else if 0xf1 ≤ b ∧ b ≤ 0xf3 then some (3, 0x80, 0xbf)
  else if b = 0xf4 then some (3, 0x80, 0x8f)
  else none

/-- A character that has begun: the bytes still to come, the range of the next, and the bits so
far. -/
structure Started where
  left : Nat
  low : Nat
  high : Nat
  code : Nat

/-- The text so far, reversed, and the character that has begun. -/
structure State where
  text : List Char
  started : Option Started

/-- Reads a byte where a character may begin. -/
def start (text : List Char) (b : Nat) : State :=
  if b < 0x80 then ⟨Char.ofNat b :: text, none⟩
  else match lead? b with
    | none => ⟨replacement :: text, none⟩
    | some (left, low, high) => ⟨text, some ⟨left, low, high, b % (1 <<< (6 - left))⟩⟩

/-- Reads one byte. -/
def step (s : State) (byte : UInt8) : State :=
  let b := byte.toNat
  match s.started with
  | none => start s.text b
  | some c =>
    if c.low ≤ b ∧ b ≤ c.high then
      let code := c.code * 64 + b % 64
      if c.left = 1 then ⟨Char.ofNat code :: s.text, none⟩
      else ⟨s.text, some ⟨c.left - 1, 0x80, 0xbf, code⟩⟩
    else start (replacement :: s.text) b

/-- The text of a byte string, damaged pieces replaced. -/
def decode (data : Bytes) : String :=
  let s := data.foldl step ⟨[], none⟩
  let text := match s.started with
    | none => s.text
    | some _ => replacement :: s.text
  String.ofList text.reverse

/-- The text of a byte string that is UTF-8, so that nothing is lost when it is decoded. -/
def undamaged? (data : Bytes) : Option String :=
  let text := decode data
  if utf8 text = data then some text else none

end Packwright.Lossy
