import Mathlib.Algebra.Group.Int.Defs
import Mathlib.Algebra.Group.Nat.Defs
import Packwright.Proofs.Induction

/-
  Reading the wire format. Every encoding starts with a token: a whole scalar, or the header of
  a text, a byte string, an extension, an array or a map. `readToken` reads one from its tag, and
  each writer of `Wire` has a lemma that its token is read back, whatever stands behind it. Lengths
  have to fit 32 bits, since a header keeps no more of them.

  `readValue` reads a whole value. It gives a canonical form, in which integers have no width,
  records are maps and timestamps are extensions; `readValue_dynamic` says that nothing else of a
  value is lost. `decode` does so for bytes of any nesting. So two values with the same bytes,
  perhaps with more behind them, have the same canonical form (`dynamic_uniquely_decodable`).
-/

namespace Packwright

/-! ## Numbers -/

namespace Wire

/-- The number that bytes stand for, most significant byte first. -/
def ofBigEndian (bytes : Bytes) : Nat :=
  bytes.foldl (fun n b => n * 256 + b.toNat) 0

theorem ofBigEndian_bigEndian (width n : Nat) :
    ofBigEndian (bigEndian width n) = n % 256 ^ width := by
  unfold ofBigEndian
  induction width generalizing n with
  | zero => simp [bigEndian, Nat.mod_one]
  | succ width ih =>
    rw [bigEndian, List.foldl_append, ih, Nat.pow_succ, Nat.mul_comm (256 ^ width), Nat.mod_mul]
    simp only [List.foldl_cons, List.foldl_nil, UInt8.toNat_ofNat']
    omega

/-- The integer that a number of `width` bytes stands for in two's complement. -/
def toSigned (width n : Nat) : Int :=
  if 2 * n < 256 ^ width then n else n - 256 ^ width

theorem two_pow_eight_mul (width : Nat) : 2 ^ (8 * width) = 256 ^ width := by
  rw [Nat.pow_mul]

theorem twosComplement_of_nonneg {width : Nat} {n : Int} (h : 0 ≤ n) (h' : n < 256 ^ width) :
    twosComplement width n = bigEndian width n.toNat := by
  rw [twosComplement, BitVec.toNat_ofInt, two_pow_eight_mul,
    Int.emod_eq_of_lt h (by simpa using h')]

theorem toSigned_twosComplement {width : Nat} {n : Int} (h : -256 ^ width ≤ 2 * n)
    (h' : 2 * n < 256 ^ width) :
    toSigned width (ofBigEndian (twosComplement width n)) = n := by
  rw [twosComplement, ofBigEndian_bigEndian, BitVec.toNat_ofInt, two_pow_eight_mul]
  have hcast : ((256 ^ width : Nat) : Int) = 256 ^ width := by simp
  rw [hcast]
  generalize hM : (256 : Int) ^ width = M at *
  generalize hN : (256 : Nat) ^ width = N at *
  have hMN : M = N := by omega
  subst hMN
  unfold toSigned
  rw [hN, hM]
  rcases Int.lt_or_le n 0 with hneg | hpos
  · have hmod : n % N = n + N := by
      rw [← Int.add_emod_right n, Int.emod_eq_of_lt (by omega) (by omega)]
    rw [hmod, Nat.mod_eq_of_lt (by omega), if_neg (by omega)]
    omega
  · rw [Int.emod_eq_of_lt hpos (by omega), Nat.mod_eq_of_lt (by omega), if_pos (by omega)]
    omega

/-- Takes a given number of bytes. -/
def takeBytes (n : Nat) (bytes : Bytes) : Option (Bytes × Bytes) :=
  if n ≤ bytes.length then some (bytes.take n, bytes.drop n) else none

theorem takeBytes_append {n : Nat} {data : Bytes} (h : data.length = n) (r : Bytes) :
    takeBytes n (data ++ r) = some (data, r) := by
  subst h
  rw [takeBytes, if_pos (by simp), List.take_left, List.drop_left]

/-- Reads a number of a given width. -/
def readNat (width : Nat) (bytes : Bytes) : Option (Nat × Bytes) := do
  let (data, rest) ← takeBytes width bytes
  return (ofBigEndian data, rest)

theorem readNat_bigEndian {width n : Nat} (h : n < 256 ^ width) (r : Bytes) :
    readNat width (bigEndian width n ++ r) = some (n, r) := by
  rw [readNat, takeBytes_append (length_bigEndian width n)]
  simp only [Option.bind_eq_bind, Option.bind_some, ofBigEndian_bigEndian, Nat.mod_eq_of_lt h]
  rfl

/-- Reads an integer of a given width. -/
def readSigned (width : Nat) (bytes : Bytes) : Option (Int × Bytes) := do
  let (n, rest) ← readNat width bytes
  return (toSigned width n, rest)

theorem readSigned_twosComplement {width : Nat} {n : Int} (h : -256 ^ width ≤ 2 * n)
    (h' : 2 * n < 256 ^ width) (r : Bytes) :
    readSigned width (twosComplement width n ++ r) = some (n, r) := by
  rw [readSigned, readNat, takeBytes_append (length_twosComplement width n)]
  simp only [Option.bind_eq_bind, Option.bind_some, Option.pure_def, toSigned_twosComplement h h']

/-! ## Tokens -/

/-- What stands at the front of an encoding: a scalar, or a header with its length. -/
inductive Token where
  | nil
  | bool (b : Bool)
  | integer (n : Int)
  | float32 (bits : UInt32)
  | float64 (bits : UInt64)
  | str (n : Nat)
  | bin (n : Nat)
  | ext (n : Nat)
  | array (n : Nat)
  | map (n : Nat)
deriving DecidableEq

/-- A token made of a number of a given width. -/
def tokenOf (width : Nat) (f : Nat → Token) (bytes : Bytes) : Option (Token × Bytes) := do
  let (n, rest) ← readNat width bytes
  return (f n, rest)

/-- A token made of an integer of a given width. -/
def signedTokenOf (width : Nat) (bytes : Bytes) : Option (Token × Bytes) := do
  let (n, rest) ← readSigned width bytes
  return (.integer n, rest)

/-- Reads the rest of a token whose tag has no value of its own. -/
def readTagged (tag : Nat) (rest : Bytes) : Option (Token × Bytes) :=
  match tag with
  | 0xc0 => some (.nil, rest)
  | 0xc2 => some (.bool false, rest)
  | 0xc3 => some (.bool true, rest)
  | 0xc4 => tokenOf 1 .bin rest
  | 0xc5 => tokenOf 2 .bin rest
  | 0xc6 => tokenOf 4 .bin rest
  | 0xc7 => tokenOf 1 .ext rest
  | 0xc8 => tokenOf 2 .ext rest
  | 0xc9 => tokenOf 4 .ext rest
  | 0xca => tokenOf 4 (fun n => .float32 (UInt32.ofNat n)) rest
  | 0xcb => tokenOf 8 (fun n => .float64 (UInt64.ofNat n)) rest
  | 0xcc => tokenOf 1 (fun n => .integer n) rest
  | 0xcd => tokenOf 2 (fun n => .integer n) rest
  | 0xce => tokenOf 4 (fun n => .integer n) rest
  | 0xcf => tokenOf 8 (fun n => .integer n) rest
  | 0xd0 => signedTokenOf 1 rest
  | 0xd1 => signedTokenOf 2 rest
  | 0xd2 => signedTokenOf 4 rest
  | 0xd3 => signedTokenOf 8 rest
  | 0xd4 => some (.ext 1, rest)
  | 0xd5 => some (.ext 2, rest)
  | 0xd6 => some (.ext 4, rest)
  | 0xd7 => some (.ext 8, rest)
  | 0xd8 => some (.ext 16, rest)
  | 0xd9 => tokenOf 1 .str rest
  | 0xda => tokenOf 2 .str rest
  | 0xdb => tokenOf 4 .str rest
  | 0xdc => tokenOf 2 .array rest
  | 0xdd => tokenOf 4 .array rest
  | 0xde => tokenOf 2 .map rest
  | 0xdf => tokenOf 4 .map rest
  | _ => none

/-- Reads a token. Small numbers are part of the tag. -/
def readToken : Bytes → Option (Token × Bytes)
  | [] => none
  | tag :: rest =>
    let n := tag.toNat
    if n < 0x80 then some (.integer n, rest)
    else if n < 0x90 then some (.map (n - 0x80), rest)
    else if n < 0xa0 then some (.array (n - 0x90), rest)
    else if n < 0xc0 then some (.str (n - 0xa0), rest)
    else if n < 0xe0 then readTagged n rest
    else some (.integer (n - 256), rest)

theorem tokenOf_bigEndian {width n : Nat} (f : Nat → Token) (h : n < 256 ^ width) (r : Bytes) :
    tokenOf width f (bigEndian width n ++ r) = some (f n, r) := by
  rw [tokenOf, readNat_bigEndian h]
  rfl

theorem signedTokenOf_twosComplement {width : Nat} {n : Int} (h : -256 ^ width ≤ 2 * n)
    (h' : 2 * n < 256 ^ width) (r : Bytes) :
    signedTokenOf width (twosComplement width n ++ r) = some (.integer n, r) := by
  rw [signedTokenOf, readSigned_twosComplement h h']
  rfl

theorem tokenOf_twosComplement {width : Nat} {n : Int} (h : 0 ≤ n) (h' : n < 256 ^ width)
    (r : Bytes) :
    tokenOf width (fun n => .integer n) (twosComplement width n ++ r) = some (.integer n, r) := by
  have hlt : n.toNat < 256 ^ width := by
    have hcast : ((256 ^ width : Nat) : Int) = 256 ^ width := by simp
    omega
  rw [twosComplement_of_nonneg h h', tokenOf_bigEndian _ hlt, Int.toNat_of_nonneg h]

theorem readToken_ofNat {n : Nat} (h : n < 256) (rest : Bytes) :
    readToken (UInt8.ofNat n :: rest) =
      if n < 0x80 then some (.integer n, rest)
      else if n < 0x90 then some (.map (n - 0x80), rest)
      else if n < 0xa0 then some (.array (n - 0x90), rest)
      else if n < 0xc0 then some (.str (n - 0xa0), rest)
      else if n < 0xe0 then readTagged n rest
      else some (.integer (n - 256), rest) := by
  have hn : (UInt8.ofNat n).toNat = n := by
    rw [UInt8.toNat_ofNat']
    exact Nat.mod_eq_of_lt h
  simp only [readToken, hn]

theorem bigEndian_one (n : Nat) : bigEndian 1 n = [UInt8.ofNat n] := rfl

theorem readToken_nil (r : Bytes) : readToken (nil ++ r) = some (.nil, r) := rfl

theorem readToken_bool (b : Bool) (r : Bytes) : readToken (bool b ++ r) = some (.bool b, r) := by
  cases b <;> rfl

theorem readToken_float32 (bits : UInt32) (r : Bytes) :
    readToken (float32 bits ++ r) = some (.float32 bits, r) := by
  have hbits : bits.toNat < 256 ^ 4 := bits.toNat_lt
  have h := tokenOf_bigEndian (fun n => .float32 (UInt32.ofNat n)) hbits r
  rw [UInt32.ofNat_toNat] at h
  exact h

theorem readToken_float64 (bits : UInt64) (r : Bytes) :
    readToken (float64 bits ++ r) = some (.float64 bits, r) := by
  have hbits : bits.toNat < 256 ^ 8 := bits.toNat_lt
  have h := tokenOf_bigEndian (fun n => .float64 (UInt64.ofNat n)) hbits r
  rw [UInt64.ofNat_toNat] at h
  exact h

theorem readToken_strHeader {n : Nat} (h : n < UInt32.size) (r : Bytes) :
    readToken (strHeader n ++ r) = some (.str n, r) := by
  have hsize : UInt32.size = 4294967296 := rfl
  unfold strHeader
  split
  · rw [bigEndian_one, List.singleton_append, readToken_ofNat (by omega), if_neg (by omega),
      if_neg (by omega), if_neg (by omega), if_pos (by omega), Nat.add_sub_cancel_left]
  · split
    · exact tokenOf_bigEndian .str (by omega) r
    · split
      · exact tokenOf_bigEndian .str (by omega) r
      · exact tokenOf_bigEndian .str (by omega) r

theorem readToken_binHeader {n : Nat} (h : n < UInt32.size) (r : Bytes) :
    readToken (binHeader n ++ r) = some (.bin n, r) := by
  have hsize : UInt32.size = 4294967296 := rfl
  unfold binHeader
  split
  · exact tokenOf_bigEndian .bin (by omega) r
  · split
    · exact tokenOf_bigEndian .bin (by omega) r
    · exact tokenOf_bigEndian .bin (by omega) r

theorem readToken_extHeader {n : Nat} (h : n < UInt32.size) (r : Bytes) :
    readToken (extHeader n ++ r) = some (.ext n, r) := by
  have hsize : UInt32.size = 4294967296 := rfl
  by_cases hfixed : n = 1 ∨ n = 2 ∨ n = 4 ∨ n = 8 ∨ n = 16
  · rcases hfixed with rfl | rfl | rfl | rfl | rfl <;> rfl
  · simp only [not_or] at hfixed
    obtain ⟨h₁, h₂, h₄, h₈, h₁₆⟩ := hfixed
    rw [extHeader, if_neg h₁, if_neg h₂, if_neg h₄, if_neg h₈, if_neg h₁₆]
    split
    · exact tokenOf_bigEndian .ext (by omega) r
    · split
      · exact tokenOf_bigEndian .ext (by omega) r
      · exact tokenOf_bigEndian .ext (by omega) r

theorem readToken_arrayHeader (n : UInt32) (r : Bytes) :
    readToken (arrayHeader n ++ r) = some (.array n.toNat, r) := by
  have hn : n.toNat < 4294967296 := n.toNat_lt
  unfold arrayHeader
  dsimp only
  split
  · rw [bigEndian_one, List.singleton_append, readToken_ofNat (by omega), if_neg (by omega),
      if_neg (by omega), if_pos (by omega), Nat.add_sub_cancel_left]
  · split
    · exact tokenOf_bigEndian .array (by omega) r
    · exact tokenOf_bigEndian .array (by omega) r

theorem readToken_mapHeader (n : UInt32) (r : Bytes) :
    readToken (mapHeader n ++ r) = some (.map n.toNat, r) := by
  have hn : n.toNat < 4294967296 := n.toNat_lt
  unfold mapHeader
  dsimp only
  split
  · rw [bigEndian_one, List.singleton_append, readToken_ofNat (by omega), if_neg (by omega),
      if_pos (by omega), Nat.add_sub_cancel_left]
  · split
    · exact tokenOf_bigEndian .map (by omega) r
    · exact tokenOf_bigEndian .map (by omega) r

/-- An integer that is part of its tag. -/
theorem readToken_smallInt {n : Int} (h : -32 ≤ n ∧ n ≤ 127) (r : Bytes) :
    readToken (twosComplement 1 n ++ r) = some (.integer n, r) := by
  have hbyte : (BitVec.ofInt (8 * 1) n).toNat = (n % 256).toNat := BitVec.toNat_ofInt n
  rw [twosComplement, bigEndian_one, hbyte, List.singleton_append, readToken_ofNat (by omega)]
  rcases Int.lt_or_le n 0 with hneg | hpos
  · rw [if_neg (by omega), if_neg (by omega), if_neg (by omega), if_neg (by omega),
      if_neg (by omega)]
    congr 3
    omega
  · rw [if_pos (by omega)]
    congr 3
    omega

theorem readToken_int (n : Int64) (r : Bytes) :
    readToken (int n ++ r) = some (.integer n.toInt, r) := by
  have hlow := n.le_toInt
  have hhigh := n.toInt_lt
  unfold int
  dsimp only
  split
  · rename_i h
    exact readToken_smallInt h r
  split
  · exact signedTokenOf_twosComplement (by omega) (by omega) r
  split
  · exact tokenOf_twosComplement (by omega) (by omega) r
  split
  · exact signedTokenOf_twosComplement (by omega) (by omega) r
  split
  · exact tokenOf_twosComplement (by omega) (by omega) r
  split
  · exact signedTokenOf_twosComplement (by omega) (by omega) r
  split
  · exact tokenOf_twosComplement (by omega) (by omega) r
  · exact signedTokenOf_twosComplement (by omega) (by omega) r

theorem readToken_uint (n : UInt64) (r : Bytes) :
    readToken (uint n ++ r) = some (.integer n.toNat, r) := by
  have hn := n.toNat_lt
  unfold uint
  dsimp only
  split
  · rw [bigEndian_one, List.singleton_append, readToken_ofNat (by omega), if_pos (by omega)]
  split
  · exact tokenOf_bigEndian (fun n => .integer n) (by omega) r
  split
  · exact tokenOf_bigEndian (fun n => .integer n) (by omega) r
  split
  · exact tokenOf_bigEndian (fun n => .integer n) (by omega) r
  · exact tokenOf_bigEndian (fun n => .integer n) (by omega) r

/-- Reads a number of things, one after another. -/
def readMany {α : Type} (read : Bytes → Option (α × Bytes)) : Nat → Bytes → Option (List α × Bytes)
  | 0, bytes => some ([], bytes)
  | n + 1, bytes => do
    let (x, rest) ← read bytes
    let (xs, rest) ← readMany read n rest
    return (x :: xs, rest)

/-- Reads two things, one after the other. -/
def readPair {α : Type} (read : Bytes → Option (α × Bytes)) (bytes : Bytes) :
    Option ((α × α) × Bytes) := do
  let (x, rest) ← read bytes
  let (y, rest) ← read rest
  return ((x, y), rest)

end Wire

/-- The text that bytes stand for in UTF-8. -/
def textOf (bytes : Bytes) : Option String :=
  String.fromUTF8? ⟨bytes.toArray⟩

theorem textOf_utf8 (s : String) : textOf (utf8 s) = some s := by
  have hbytes : ByteArray.mk (utf8 s).toArray = s.toUTF8 := rfl
  rw [textOf, hbytes, String.fromUTF8?]
  exact dif_pos s.isValidUTF8

/-! ## Values -/

/-- What the encoding of a value of any kind keeps of it. -/
inductive Canonical where
  | nil
  | bool (b : Bool)
  | integer (n : Int)
  | float32 (bits : UInt32)
  | float64 (bits : UInt64)
  | str (s : String)
  | bin (data : Bytes)
  | ext (type : Int8) (data : Bytes)
  | array (items : List Canonical)
  | map (entries : List (Canonical × Canonical))

namespace Value

mutual

/-- The canonical form of a value: signed and unsigned integers are integers, a record is a map
with string keys, and a timestamp is an extension. -/
def canonical : Value → Canonical
  | nil => .nil
  | bool b => .bool b
  | int n => .integer n.toInt
  | uint n => .integer n.toNat
  | float32 bits => .float32 bits
  | float64 bits => .float64 bits
  | str s => .str s
  | bin data => .bin data
  | time secs nanos => .ext Wire.timeType (Wire.timePayload secs nanos)
  | ext type data => .ext type data
  | array items => .array (canonicalItems items)
  | map entries => .map (canonicalEntries entries)
  | record fields => .map (canonicalFields fields)

/-- The canonical forms of the elements of an array. -/
def canonicalItems : List Value → List Canonical
  | [] => []
  | v :: rest => v.canonical :: canonicalItems rest

/-- The canonical forms of the entries of a map. -/
def canonicalEntries : List (Value × Value) → List (Canonical × Canonical)
  | [] => []
  | (k, v) :: rest => (k.canonical, v.canonical) :: canonicalEntries rest

/-- The canonical forms of the entries of a record. -/
def canonicalFields : List (String × Value) → List (Canonical × Canonical)
  | [] => []
  | (k, v) :: rest => (.str k, v.canonical) :: canonicalFields rest

end

/-- Every length in a value fits 32 bits. -/
inductive Short : Value → Prop where
  | nil : Short nil
  | bool (b : Bool) : Short (bool b)
  | int (n : Int64) : Short (int n)
  | uint (n : UInt64) : Short (uint n)
  | float32 (bits : UInt32) : Short (float32 bits)
  | float64 (bits : UInt64) : Short (float64 bits)
  | str {s : String} (length : (utf8 s).length < UInt32.size) : Short (str s)
  | bin {data : Bytes} (length : data.length < UInt32.size) : Short (bin data)
  | time (secs : Int64) (nanos : UInt32) : Short (time secs nanos)
  | ext (type : Int8) {data : Bytes} (length : data.length < UInt32.size) : Short (ext type data)
  | array {items : List Value} (length : items.length < UInt32.size)
      (each : ∀ v ∈ items, Short v) : Short (array items)
  | map {entries : List (Value × Value)} (length : entries.length < UInt32.size)
      (keys : ∀ e ∈ entries, Short e.1) (each : ∀ e ∈ entries, Short e.2) : Short (map entries)
  | record {fields : List (String × Value)} (length : fields.length < UInt32.size)
      (keys : ∀ e ∈ fields, (utf8 e.1).length < UInt32.size)
      (each : ∀ e ∈ fields, Short e.2) : Short (record fields)

end Value

namespace Wire

/-- Reads a value, to a given depth of nesting. -/
def readValue : Nat → Bytes → Option (Canonical × Bytes)
  | 0, _ => none
  | depth + 1, bytes => do
    let (token, rest) ← readToken bytes
    match token with
    | .nil => return (.nil, rest)
    | .bool b => return (.bool b, rest)
    | .integer n => return (.integer n, rest)
    | .float32 bits => return (.float32 bits, rest)
    | .float64 bits => return (.float64 bits, rest)
    | .str n =>
      let (data, rest) ← takeBytes n rest
      return (.str (← textOf data), rest)
    | .bin n =>
      let (data, rest) ← takeBytes n rest
      return (.bin data, rest)
    | .ext n =>
      match rest with
      | [] => none
      | type :: rest =>
        let (data, rest) ← takeBytes n rest
        return (.ext type.toInt8 data, rest)
    | .array n =>
      let (items, rest) ← readMany (readValue depth) n rest
      return (.array items, rest)
    | .map n =>
      let (entries, rest) ← readMany (readPair (readValue depth)) n rest
      return (.map entries, rest)

/-- Things that can be read back one by one can be read back together. -/
theorem readMany_flatMap {α β : Type} {read : Bytes → Option (α × Bytes)} {write : β → Bytes}
    {f : β → α} {xs : List β} (h : ∀ x ∈ xs, ∀ r, read (write x ++ r) = some (f x, r))
    (r : Bytes) : readMany read xs.length (xs.flatMap write ++ r) = some (xs.map f, r) := by
  induction xs with
  | nil => rfl
  | cons x rest ih =>
    rw [List.flatMap_cons, List.append_assoc, List.length_cons, readMany,
      h x List.mem_cons_self]
    simp only [Option.bind_eq_bind, Option.bind_some,
      ih fun y hy => h y (List.mem_cons_of_mem _ hy)]
    rfl

theorem readPair_append {α : Type} {read : Bytes → Option (α × Bytes)} {first second r : Bytes}
    {x y : α} (hx : ∀ r, read (first ++ r) = some (x, r))
    (hy : ∀ r, read (second ++ r) = some (y, r)) :
    readPair read (first ++ second ++ r) = some ((x, y), r) := by
  rw [List.append_assoc, readPair, hx]
  simp only [Option.bind_eq_bind, Option.bind_some, hy]
  rfl

theorem readValue_str {s : String} (h : (utf8 s).length < UInt32.size) (depth : Nat) (r : Bytes) :
    readValue (depth + 1) (str s ++ r) = some (.str s, r) := by
  rw [readValue, str, List.append_assoc, readToken_strHeader h]
  simp only [Option.bind_eq_bind, Option.bind_some, takeBytes_append rfl, textOf_utf8]
  rfl

theorem readValue_ext (type : Int8) {data : Bytes} (h : data.length < UInt32.size) (depth : Nat)
    (r : Bytes) : readValue (depth + 1) (ext type data ++ r) = some (.ext type data, r) := by
  rw [readValue, ext, List.append_assoc, readToken_extHeader h, List.cons_append]
  simp only [Option.bind_eq_bind, Option.bind_some, takeBytes_append rfl, Int8.toInt8_toUInt8]
  rfl

theorem toNat_ofNat_length {n : Nat} (h : n < UInt32.size) : (UInt32.ofNat n).toNat = n := by
  rw [UInt32.toNat_ofNat']
  exact Nat.mod_eq_of_lt h

end Wire

namespace Value

theorem dynamicItems_eq (items : List Value) : dynamicItems items = items.flatMap dynamic := by
  induction items with
  | nil => rfl
  | cons v rest ih => rw [dynamicItems, List.flatMap_cons, ih]

theorem canonicalItems_eq (items : List Value) : canonicalItems items = items.map canonical := by
  induction items with
  | nil => rfl
  | cons v rest ih => rw [canonicalItems, List.map_cons, ih]

theorem dynamicEntries_eq (entries : List (Value × Value)) :
    dynamicEntries entries = entries.flatMap fun e => e.1.dynamic ++ e.2.dynamic := by
  induction entries with
  | nil => rfl
  | cons e rest ih => rw [dynamicEntries, List.flatMap_cons, ih]

theorem canonicalEntries_eq (entries : List (Value × Value)) :
    canonicalEntries entries = entries.map fun e => (e.1.canonical, e.2.canonical) := by
  induction entries with
  | nil => rfl
  | cons e rest ih => rw [canonicalEntries, List.map_cons, ih]

theorem dynamicFields_eq (fields : List (String × Value)) :
    dynamicFields fields = fields.flatMap fun e => Wire.str e.1 ++ e.2.dynamic := by
  induction fields with
  | nil => rfl
  | cons e rest ih => rw [dynamicFields, List.flatMap_cons, ih]

theorem canonicalFields_eq (fields : List (String × Value)) :
    canonicalFields fields = fields.map fun e => (.str e.1, e.2.canonical) := by
  induction fields with
  | nil => rfl
  | cons e rest ih => rw [canonicalFields, List.map_cons, ih]

end Value

namespace Wire

/-- A short value is read back, up to its canonical form, whatever stands behind it. -/
theorem readValue_dynamic {v : Value} (h : v.Short) {depth : Nat} (hdepth : v.height < depth)
    (r : Bytes) : readValue depth (v.dynamic ++ r) = some (v.canonical, r) := by
  obtain ⟨depth, rfl⟩ : ∃ n, depth = n + 1 := ⟨depth - 1, by omega⟩
  -- over the proof that all lengths fit, which follows the value into its members
  induction h generalizing depth r with
  | nil => rfl
  | bool b => rw [readValue, Value.dynamic, readToken_bool]; rfl
  | int n => rw [readValue, Value.dynamic, readToken_int]; rfl
  | uint n => rw [readValue, Value.dynamic, readToken_uint]; rfl
  | float32 bits => rw [readValue, Value.dynamic, readToken_float32]; rfl
  | float64 bits => rw [readValue, Value.dynamic, readToken_float64]; rfl
  | str hlen => exact readValue_str hlen depth r
  | @bin data hlen =>
    rw [readValue, Value.dynamic, bin, List.append_assoc, readToken_binHeader hlen]
    simp only [Option.bind_eq_bind, Option.bind_some, takeBytes_append rfl]
    rfl
  | time secs nanos =>
    have hlen : (timePayload secs nanos).length < UInt32.size := by
      rw [timePayload, List.length_append, length_twosComplement, length_bigEndian]
      decide
    exact readValue_ext timeType hlen depth r
  | ext type hlen => exact readValue_ext type hlen depth r
  | @array items hlen _ ih =>
    rw [readValue, Value.dynamic, List.append_assoc, readToken_arrayHeader]
    simp only [Option.bind_eq_bind, Option.bind_some, toNat_ofNat_length hlen]
    rw [Value.dynamicItems_eq, readMany_flatMap (f := Value.canonical), Value.canonical,
      Value.canonicalItems_eq]
    · rfl
    · intro v hv r
      have hv' := Value.height_le_heights hv
      simp only [Value.height] at hdepth
      obtain ⟨k, rfl⟩ : ∃ k, depth = k + 1 := ⟨depth - 1, by omega⟩
      exact ih v hv r k (by omega)
  | @map entries hlen _ _ ihk ihv =>
    rw [readValue, Value.dynamic, List.append_assoc, readToken_mapHeader]
    simp only [Option.bind_eq_bind, Option.bind_some, toNat_ofNat_length hlen]
    rw [Value.dynamicEntries_eq, readMany_flatMap (f := fun e => (e.1.canonical, e.2.canonical)),
      Value.canonical, Value.canonicalEntries_eq]
    · rfl
    · intro e he r
      have he' := Value.height_le_entryHeights he
      simp only [Value.height] at hdepth
      obtain ⟨k, rfl⟩ : ∃ k, depth = k + 1 := ⟨depth - 1, by omega⟩
      exact readPair_append (fun r => ihk e he r k (by omega)) fun r => ihv e he r k (by omega)
  | @record fields hlen hkeys _ ih =>
    rw [readValue, Value.dynamic, List.append_assoc, readToken_mapHeader]
    simp only [Option.bind_eq_bind, Option.bind_some, toNat_ofNat_length hlen]
    rw [Value.dynamicFields_eq, readMany_flatMap (f := fun e => (.str e.1, e.2.canonical)),
      Value.canonical, Value.canonicalFields_eq]
    · rfl
    · intro e he r
      have he' := Value.height_le_fieldHeights he
      simp only [Value.height] at hdepth
      obtain ⟨k, rfl⟩ : ∃ k, depth = k + 1 := ⟨depth - 1, by omega⟩
      exact readPair_append (readValue_str (hkeys e he) k) fun r => ih e he r k (by omega)

end Wire

/-! ## Decoding -/

namespace Wire

theorem length_pos_of_readToken {b : Bytes} {token : Token}
    (h : ∀ r, readToken (b ++ r) = some (token, r)) : 0 < b.length := by
  cases b with
  | nil => cases h []
  | cons byte rest => exact Nat.succ_pos _

theorem ne_nil_of_readToken {b : Bytes} {token : Token}
    (h : ∀ r, readToken (b ++ r) = some (token, r)) : b ≠ [] :=
  List.length_pos_iff.1 (length_pos_of_readToken h)

end Wire

namespace Value

theorem heights_le_length {items : List Value} (h : ∀ v ∈ items, v.height ≤ v.dynamic.length) :
    heights items ≤ (dynamicItems items).length := by
  induction items with
  | nil => exact Nat.le_refl _
  | cons v rest ih =>
    rw [List.forall_mem_cons] at h
    have hrest := ih h.2
    simp only [heights, dynamicItems, List.length_append]
    omega

theorem entryHeights_le_length {entries : List (Value × Value)}
    (hkeys : ∀ e ∈ entries, e.1.height ≤ e.1.dynamic.length)
    (h : ∀ e ∈ entries, e.2.height ≤ e.2.dynamic.length) :
    entryHeights entries ≤ (dynamicEntries entries).length := by
  induction entries with
  | nil => exact Nat.le_refl _
  | cons e rest ih =>
    rw [List.forall_mem_cons] at hkeys h
    have hrest := ih hkeys.2 h.2
    simp only [entryHeights, dynamicEntries, List.length_append]
    omega

theorem fieldHeights_le_length {fields : List (String × Value)}
    (h : ∀ e ∈ fields, e.2.height ≤ e.2.dynamic.length) :
    fieldHeights fields ≤ (dynamicFields fields).length := by
  induction fields with
  | nil => exact Nat.le_refl _
  | cons e rest ih =>
    rw [List.forall_mem_cons] at h
    have hrest := ih h.2
    simp only [fieldHeights, dynamicFields, List.length_append]
    omega

/-- Every level of nesting has a header, which is at least one byte. -/
theorem height_le_length_dynamic {v : Value} (h : v.Short) : v.height ≤ v.dynamic.length := by
  induction h with
  | @array items _ _ ih =>
    have hheader := Wire.length_pos_of_readToken
      (Wire.readToken_arrayHeader (UInt32.ofNat items.length))
    have hitems := heights_le_length ih
    simp only [height, dynamic, List.length_append]
    omega
  | @map entries _ _ _ ihk ihv =>
    have hheader := Wire.length_pos_of_readToken
      (Wire.readToken_mapHeader (UInt32.ofNat entries.length))
    have hentries := entryHeights_le_length ihk ihv
    simp only [height, dynamic, List.length_append]
    omega
  | @record fields _ _ _ ih =>
    have hheader := Wire.length_pos_of_readToken
      (Wire.readToken_mapHeader (UInt32.ofNat fields.length))
    have hfields := fieldHeights_le_length ih
    simp only [height, dynamic, List.length_append]
    omega
  | _ => exact Nat.zero_le _

end Value

namespace Wire

/-- Reads one value off the front. There are no more levels of nesting than bytes. -/
def decode (bytes : Bytes) : Option (Canonical × Bytes) :=
  readValue (bytes.length + 1) bytes

theorem decode_dynamic {v : Value} (h : v.Short) (r : Bytes) :
    decode (v.dynamic ++ r) = some (v.canonical, r) := by
  have hheight := Value.height_le_length_dynamic h
  refine readValue_dynamic h ?_ r
  rw [List.length_append]
  omega

end Wire

namespace Value

/-- The bytes of a value, with anything behind them, determine its canonical form and where they
end. -/
theorem dynamic_append_inj {v v' : Value} (hv : v.Short) (hv' : v'.Short) {r r' : Bytes}
    (h : v.dynamic ++ r = v'.dynamic ++ r') : v.canonical = v'.canonical ∧ r = r' := by
  have hread := Wire.decode_dynamic hv r
  rw [h, Wire.decode_dynamic hv'] at hread
  exact Prod.mk.inj (Option.some.inj hread.symm)

/-- If the bytes of two short values agree, with anything behind them, then so do the bytes behind
them and the canonical forms of the values, which the decoder gives back. -/
theorem dynamic_uniquely_decodable (v v' : Value) (hv : v.Short) (hv' : v'.Short) (r r' : Bytes)
    (h : v.dynamic ++ r = v'.dynamic ++ r') :
    r = r' ∧ v.canonical = v'.canonical ∧ Wire.decode (v.dynamic ++ r) = some (v.canonical, r) := by
  obtain ⟨hcanonical, hrest⟩ := dynamic_append_inj hv hv' h
  exact ⟨hrest, hcanonical, Wire.decode_dynamic hv r⟩

/-- A departure, as a record with a time. -/
def departure : Value := .record [
  ("at", .time 1 2), ("delay", .int 200), ("stops", .array [.int 5, .float32 0x3f800000, .nil])]

/-- The same departure, as a map with an extension for the time. -/
def departureMap : Value := .map [
  (.str "at", .ext 5 [0, 0, 0, 0, 0, 0, 0, 1, 0, 0, 0, 2]), (.str "delay", .uint 200),
  (.str "stops", .array [.uint 5, .float32 0x3f800000, .nil])]

theorem length_departureName {name : String} (h : name ∈ ["at", "delay", "stops"]) :
    (utf8 name).length < UInt32.size := by
  have hnames : ∀ name ∈ ["at", "delay", "stops"], (utf8 name).length < UInt32.size := by
    decide +kernel
  exact hnames name h

theorem short_stops {n : Value} (h : n.Short) :
    (Value.array [n, .float32 0x3f800000, .nil]).Short :=
  .array (show 3 < UInt32.size by decide) (List.forall_mem_cons.2 ⟨h,
    List.forall_mem_cons.2 ⟨.float32 _, List.forall_mem_singleton.2 .nil⟩⟩)

theorem short_departure : departure.Short := by
  refine .record (show 3 < UInt32.size by decide)
    (fun e he => length_departureName (List.mem_map_of_mem he)) ?_
  exact List.forall_mem_cons.2 ⟨.time _ _, List.forall_mem_cons.2 ⟨.int _,
    List.forall_mem_singleton.2 (short_stops (.int _))⟩⟩

theorem short_departureMap : departureMap.Short := by
  refine .map (show 3 < UInt32.size by decide) ?_ ?_
  · exact List.forall_mem_cons.2 ⟨.str (length_departureName (by simp)),
      List.forall_mem_cons.2 ⟨.str (length_departureName (by simp)),
        List.forall_mem_singleton.2 (.str (length_departureName (by simp)))⟩⟩
  · exact List.forall_mem_cons.2 ⟨.ext _ (by decide), List.forall_mem_cons.2 ⟨.uint _,
      List.forall_mem_singleton.2 (short_stops (.uint _))⟩⟩

/-- The bytes do not tell a record from a map, a time from an extension, or a signed number from
an unsigned one. -/
theorem dynamic_departure : departure.dynamic ++ [0xc0] = departureMap.dynamic ++ [0xc0] ∧
    departure.canonical = departureMap.canonical := by
  have hbytes : departure.dynamic ++ [0xc0] = departureMap.dynamic ++ [0xc0] := rfl
  exact ⟨hbytes,
    (dynamic_uniquely_decodable _ _ short_departure short_departureMap _ _ hbytes).2.1⟩

end Value

end Packwright
