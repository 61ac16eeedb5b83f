/-
  Byte strings. The encoders return lists of bytes, so that what they write is compared and
  concatenated as plain lists; `bigEndian` is the only place where a number becomes bytes. A
  fusion buffer holds constant bytes back, so that a run of them is written at once.
-/

namespace Packwright

/-- A byte string. -/
abbrev Bytes := List UInt8

/-- The low `8 * width` bits of `n`, most significant byte first. -/
def bigEndian : Nat → Nat → Bytes
  | 0, _ => []
  | width + 1, n => bigEndian width (n / 256) ++ [UInt8.ofNat n]

/-- The two's complement form of `n` in `width` bytes. -/
def twosComplement (width : Nat) (n : Int) : Bytes :=
  bigEndian width (BitVec.ofInt (8 * width) n).toNat

/-- The bytes of a text in UTF-8. -/
def utf8 (s : String) : Bytes :=
  s.toUTF8.data.toList

@[simp] theorem length_bigEndian (width n : Nat) : (bigEndian width n).length = width := by
  induction width generalizing n with
  | zero => rfl
  | succ width ih => simp [bigEndian, ih]

@[simp] theorem length_twosComplement (width : Nat) (n : Int) :
    (twosComplement width n).length = width :=
  length_bigEndian width _

/-- Constant bytes that are not written yet. -/
structure Fusion where
  pending : Bytes := []

namespace Fusion

/-- Nothing is held back. -/
def empty : Fusion := ⟨[]⟩

/-- Whether nothing is held back. -/
def isEmpty (f : Fusion) : Bool := f.pending.isEmpty

/-- Holds back more bytes. -/
def append (f : Fusion) (bytes : Bytes) : Fusion := ⟨f.pending ++ bytes⟩

/-- Gives up the bytes, if there are any. -/
def flush (f : Fusion) : Option Bytes × Fusion :=
  if f.pending.isEmpty then (none, f) else (some f.pending, empty)

end Fusion

end Packwright
