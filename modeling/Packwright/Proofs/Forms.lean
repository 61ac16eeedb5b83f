import Mathlib.Data.List.Induction
import Packwright.Proofs.Buffering
import Packwright.Proofs.Reading

/-
  The forms of the wire format, and that the primitives choose the shortest. `Form` lists the forms
  of a token as the format defines them: a number may be part of the tag, or stand behind it in one
  of a few widths. `IsForm` adds the payload of a text, a byte string or an extension. The list is
  independent of the primitives and of the reader; `readItem_eq_some_iff` says that the reader
  takes exactly the forms, each for what it holds, and leaves what stands behind.

  A number or a length has several forms, of which the primitives write one. `least_le_length` goes
  through the list and finds none shorter than the length that the primitives have
  (`primitives_compact`).
-/

namespace Packwright

theorem utf8_of_textOf {data : Bytes} {s : String} (h : textOf data = some s) : utf8 s = data := by
  unfold textOf String.fromUTF8? at h
  split at h
  · obtain rfl := Option.some.inj h
    rfl
  · cases h

namespace Wire

/-! ## The forms of tokens -/

/-- Numbers that are part of the tag: the first tag, and how many there are from it on. -/
inductive InTag : (Nat → Token) → Nat → Nat → Prop where
  | positive : InTag (fun n => .integer n) 0x00 128
  | map : InTag .map 0x80 16
  | array : InTag .array 0x90 16
  | str : InTag .str 0xa0 32
  | negative : InTag (fun n => .integer (n - 32)) 0xe0 32

/-- Numbers that stand behind the tag: the tag, and in how many bytes. -/
inductive Behind : (Nat → Token) → UInt8 → Nat → Prop where
  | bin8 : Behind .bin 0xc4 1
  | bin16 : Behind .bin 0xc5 2
  | bin32 : Behind .bin 0xc6 4
  | ext8 : Behind .ext 0xc7 1
  | ext16 : Behind .ext 0xc8 2
  | ext32 : Behind .ext 0xc9 4
  | uint8 : Behind (fun n => .integer n) 0xcc 1
  | uint16 : Behind (fun n => .integer n) 0xcd 2
  | uint32 : Behind (fun n => .integer n) 0xce 4
  | uint64 : Behind (fun n => .integer n) 0xcf 8
  | str8 : Behind .str 0xd9 1
  | str16 : Behind .str 0xda 2
  | str32 : Behind .str 0xdb 4
  | array16 : Behind .array 0xdc 2
  | array32 : Behind .array 0xdd 4
  | map16 : Behind .map 0xde 2
  | map32 : Behind .map 0xdf 4

/-- Integers in two's complement behind the tag: the tag, and in how many bytes. -/
inductive SignedBehind : UInt8 → Nat → Prop where
  | int8 : SignedBehind 0xd0 1
  | int16 : SignedBehind 0xd1 2
  | int32 : SignedBehind 0xd2 4
  | int64 : SignedBehind 0xd3 8

/-- Extensions whose length has a tag of its own. -/
inductive FixedExt : Nat → UInt8 → Prop where
  | one : FixedExt 1 0xd4
  | two : FixedExt 2 0xd5
  | four : FixedExt 4 0xd6
  | eight : FixedExt 8 0xd7
  | sixteen : FixedExt 16 0xd8

/-- The forms of a token. -/
inductive Form : Token → Bytes → Prop where
  | nil : Form .nil [0xc0]
  | false : Form (.bool false) [0xc2]
  | true : Form (.bool true) [0xc3]
  | inTag {f : Nat → Token} {first count n : Nat} (row : InTag f first count) (small : n < count) :
      Form (f n) [UInt8.ofNat (first + n)]
  | behind {f : Nat → Token} {tag : UInt8} {width n : Nat} (row : Behind f tag width)
      (fits : n < 256 ^ width) : Form (f n) (tag :: bigEndian width n)
  | signed {tag : UInt8} {width : Nat} {n : Int} (row : SignedBehind tag width)
      (low : -256 ^ width ≤ 2 * n) (high : 2 * n < 256 ^ width) :
      Form (.integer n) (tag :: twosComplement width n)
  | float32 (bits : UInt32) : Form (.float32 bits) (0xca :: bigEndian 4 bits.toNat)
  | float64 (bits : UInt64) : Form (.float64 bits) (0xcb :: bigEndian 8 bits.toNat)
  | fixedExt {n : Nat} {tag : UInt8} (row : FixedExt n tag) : Form (.ext n) [tag]

/-! ## The reader takes the forms -/

theorem takeBytes_eq_some {n : Nat} {b data rest : Bytes} (h : takeBytes n b = some (data, rest)) :
    data.length = n ∧ b = data ++ rest := by
  unfold takeBytes at h
  split at h
  · rename_i hn
    obtain ⟨rfl, rfl⟩ := Prod.mk.inj (Option.some.inj h)
    exact ⟨List.length_take_of_le hn, (List.take_append_drop n b).symm⟩
  · cases h

/-- Bytes are the big-endian form of the number that they stand for. -/
theorem bigEndian_ofBigEndian (data : Bytes) :
    ofBigEndian data < 256 ^ data.length ∧ bigEndian data.length (ofBigEndian data) = data := by
  induction data using List.reverseRecOn with
  | nil => exact ⟨Nat.one_pos, rfl⟩
  | append_singleton data b ih =>
    have hb : b.toNat < 256 := b.toNat_lt
    have hvalue : ofBigEndian (data ++ [b]) = ofBigEndian data * 256 + b.toNat := by
      simp [ofBigEndian, List.foldl_append]
    rw [List.length_append, List.length_singleton, hvalue, Nat.pow_succ, bigEndian]
    have hhigh : (ofBigEndian data * 256 + b.toNat) / 256 = ofBigEndian data := by omega
    have hlow : UInt8.ofNat (ofBigEndian data * 256 + b.toNat) = b := by
      apply UInt8.toNat_inj.1
      rw [UInt8.toNat_ofNat']
      omega
    rw [hhigh, hlow, ih.2]
    exact ⟨by omega, rfl⟩

theorem readNat_eq_some {width n : Nat} {b rest : Bytes} (h : readNat width b = some (n, rest)) :
    n < 256 ^ width ∧ b = bigEndian width n ++ rest := by
  unfold readNat at h
  obtain ⟨⟨data, rest'⟩, hdata, h⟩ := Option.bind_eq_some_iff.1 h
  obtain ⟨rfl, rfl⟩ := Prod.mk.inj (Option.some.inj h)
  obtain ⟨rfl, rfl⟩ := takeBytes_eq_some hdata
  obtain ⟨hlt, hdata⟩ := bigEndian_ofBigEndian data
  exact ⟨hlt, by rw [hdata]⟩

/-- A number of a given width is the two's complement form of the integer that it stands for. -/
theorem twosComplement_toSigned {width n : Nat} (h : n < 256 ^ width) :
    -256 ^ width ≤ 2 * toSigned width n ∧ 2 * toSigned width n < 256 ^ width ∧
      twosComplement width (toSigned width n) = bigEndian width n := by
  have hcast : ((256 ^ width : Nat) : Int) = 256 ^ width := by simp
  unfold toSigned twosComplement
  rw [BitVec.toNat_ofInt, two_pow_eight_mul, ← hcast]
  generalize 256 ^ width = size at h
  split
  · rw [Int.emod_eq_of_lt (by omega) (by omega), Int.toNat_natCast]
    exact ⟨by omega, by omega, rfl⟩
  · have hmod : ((n : Int) - size) % size = n := by
      rw [Int.sub_emod_right, Int.emod_eq_of_lt (by omega) (by omega)]
    rw [hmod, Int.toNat_natCast]
    exact ⟨by omega, by omega, rfl⟩

/-- What is read behind the tag of a number makes a form together with it. -/
theorem form_of_tokenOf {width : Nat} {f : Nat → Token} {tag : UInt8} {token : Token}
    {b rest : Bytes} (h : tokenOf width f b = some (token, rest))
    (hform : ∀ n < 256 ^ width, Form (f n) (tag :: bigEndian width n)) :
    ∃ number, Form token (tag :: number) ∧ b = number ++ rest := by
  obtain ⟨⟨n, rest'⟩, hn, h⟩ := Option.bind_eq_some_iff.1 h
  obtain ⟨rfl, rfl⟩ := Prod.mk.inj (Option.some.inj h)
  obtain ⟨hlt, rfl⟩ := readNat_eq_some hn
  exact ⟨_, hform n hlt, rfl⟩

theorem form_of_behind {width : Nat} {f : Nat → Token} {tag : UInt8} {token : Token}
    {b rest : Bytes} (row : Behind f tag width) (h : tokenOf width f b = some (token, rest)) :
    ∃ number, Form token (tag :: number) ∧ b = number ++ rest :=
  form_of_tokenOf h fun _ hn => .behind row hn

theorem form_of_signedBehind {width : Nat} {tag : UInt8} {token : Token} {b rest : Bytes}
    (row : SignedBehind tag width) (h : signedTokenOf width b = some (token, rest)) :
    ∃ number, Form token (tag :: number) ∧ b = number ++ rest := by
  obtain ⟨⟨n, rest'⟩, hn, h⟩ := Option.bind_eq_some_iff.1 h
  obtain ⟨rfl, rfl⟩ := Prod.mk.inj (Option.some.inj h)
  obtain ⟨⟨m, rest''⟩, hm, hn⟩ := Option.bind_eq_some_iff.1 hn
  obtain ⟨rfl, rfl⟩ := Prod.mk.inj (Option.some.inj hn)
  obtain ⟨hlt, rfl⟩ := readNat_eq_some hm
  obtain ⟨hlow, hhigh, heq⟩ := twosComplement_toSigned hlt
  exact ⟨_, .signed row hlow hhigh, by rw [heq]⟩

theorem form_float32 {n : Nat} (h : n < 256 ^ 4) :
    Form (.float32 (UInt32.ofNat n)) (0xca :: bigEndian 4 n) := by
  have hform := Form.float32 (UInt32.ofNat n)
  rwa [UInt32.toNat_ofNat_of_lt' h] at hform

theorem form_float64 {n : Nat} (h : n < 256 ^ 8) :
    Form (.float64 (UInt64.ofNat n)) (0xcb :: bigEndian 8 n) := by
  have hform := Form.float64 (UInt64.ofNat n)
  rwa [UInt64.toNat_ofNat_of_lt' h] at hform

/-- A token that is nothing but its tag. -/
theorem form_of_tag {tag : UInt8} {token token' : Token} {b rest : Bytes}
    (hform : Form token' [tag]) (h : some (token', b) = some (token, rest)) :
    ∃ number, Form token (tag :: number) ∧ b = number ++ rest := by
  obtain ⟨rfl, rfl⟩ := Prod.mk.inj (Option.some.inj h)
  exact ⟨[], hform, rfl⟩

/-- What is read behind a tag makes a form together with it. The cases are those of the reader,
in order of the tags. -/
theorem form_of_readTagged {tag : Nat} {token : Token} {b rest : Bytes}
    (h : readTagged tag b = some (token, rest)) :
    ∃ number, Form token (UInt8.ofNat tag :: number) ∧ b = number ++ rest := by
  unfold readTagged at h
  split at h
  · exact form_of_tag .nil h
  · exact form_of_tag .false h
  · exact form_of_tag .true h
  · exact form_of_behind .bin8 h
  · exact form_of_behind .bin16 h
  · exact form_of_behind .bin32 h
  · exact form_of_behind .ext8 h
  · exact form_of_behind .ext16 h
  · exact form_of_behind .ext32 h
  · exact form_of_tokenOf h fun _ => form_float32
  · exact form_of_tokenOf h fun _ => form_float64
  · exact form_of_behind .uint8 h
  · exact form_of_behind .uint16 h
  · exact form_of_behind .uint32 h
  · exact form_of_behind .uint64 h
  · exact form_of_signedBehind .int8 h
  · exact form_of_signedBehind .int16 h
  · exact form_of_signedBehind .int32 h
  · exact form_of_signedBehind .int64 h
  · exact form_of_tag (.fixedExt .one) h
  · exact form_of_tag (.fixedExt .two) h
  · exact form_of_tag (.fixedExt .four) h
  · exact form_of_tag (.fixedExt .eight) h
  · exact form_of_tag (.fixedExt .sixteen) h
  · exact form_of_behind .str8 h
  · exact form_of_behind .str16 h
  · exact form_of_behind .str32 h
  · exact form_of_behind .array16 h
  · exact form_of_behind .array32 h
  · exact form_of_behind .map16 h
  · exact form_of_behind .map32 h
  · cases h

/-- What is read off the tag alone, when the tag is in the range of a row. -/
theorem form_of_inTag {f : Nat → Token} {first count n : Nat} {token : Token} {b rest : Bytes}
    (row : InTag f first count) (hfirst : first ≤ n) (hn : n < first + count)
    (h : some (f (n - first), b) = some (token, rest)) :
    ∃ number, Form token (UInt8.ofNat n :: number) ∧ b = number ++ rest := by
  obtain ⟨k, rfl⟩ := Nat.exists_eq_add_of_le hfirst
  rw [Nat.add_sub_cancel_left] at h
  exact form_of_tag (.inTag row (by omega)) h

/-- What is read off the front is a form of what it is read as. -/
theorem form_of_readToken {token : Token} {b rest : Bytes} (h : readToken b = some (token, rest)) :
    ∃ form, Form token form ∧ b = form ++ rest := by
  cases b with
  | nil => cases h
  | cons tag after =>
    suffices hnumber : ∃ number, Form token (tag :: number) ∧ after = number ++ rest by
      obtain ⟨number, hform, rfl⟩ := hnumber
      exact ⟨tag :: number, hform, rfl⟩
    have hlt : tag.toNat < 256 := tag.toNat_lt
    rw [← UInt8.ofNat_toNat (x := tag)] at h ⊢
    generalize tag.toNat = n at hlt h ⊢
    rw [readToken_ofNat hlt] at h
    split at h
    · exact form_of_inTag .positive (by omega) (by omega) h
    split at h
    · exact form_of_inTag .map (by omega) (by omega) h
    split at h
    · exact form_of_inTag .array (by omega) (by omega) h
    split at h
    · exact form_of_inTag .str (by omega) (by omega) h
    split at h
    · exact form_of_readTagged h
    · have hvalue : (n : Int) - 256 = ((n - 0xe0 : Nat) : Int) - 32 := by omega
      rw [hvalue] at h
      exact form_of_inTag .negative (by omega) (by omega) h

/-- A number in a tag is read back. -/
theorem readToken_inTag {f : Nat → Token} {first count n : Nat} (row : InTag f first count)
    (small : n < count) (rest : Bytes) :
    readToken (UInt8.ofNat (first + n) :: rest) = some (f n, rest) := by
  cases row with
  | positive => rw [readToken_ofNat (by omega), if_pos (by omega), Nat.zero_add]
  | map =>
    rw [readToken_ofNat (by omega), if_neg (by omega), if_pos (by omega), Nat.add_sub_cancel_left]
  | array =>
    rw [readToken_ofNat (by omega), if_neg (by omega), if_neg (by omega), if_pos (by omega),
      Nat.add_sub_cancel_left]
  | str =>
    rw [readToken_ofNat (by omega), if_neg (by omega), if_neg (by omega), if_neg (by omega),
      if_pos (by omega), Nat.add_sub_cancel_left]
  | negative =>
    have hvalue : ((0xe0 + n : Nat) : Int) - 256 = (n : Int) - 32 := by omega
    rw [readToken_ofNat (by omega), if_neg (by omega), if_neg (by omega), if_neg (by omega),
      if_neg (by omega), if_neg (by omega), hvalue]

/-- A form is read as its token, whatever stands behind it. -/
theorem readToken_of_form {token : Token} {form : Bytes} (h : Form token form) (rest : Bytes) :
    readToken (form ++ rest) = some (token, rest) := by
  cases h with
  | nil => rfl
  | false => rfl
  | true => rfl
  | inTag row small => exact readToken_inTag row small rest
  | @behind f _ _ _ row fits =>
    have hread := tokenOf_bigEndian f fits rest
    cases row <;> exact hread
  | signed row low high => cases row <;> exact signedTokenOf_twosComplement low high rest
  | float32 bits => exact readToken_float32 bits rest
  | float64 bits => exact readToken_float64 bits rest
  | fixedExt row => cases row <;> rfl

/-! ## Items -/

/-- What the primitives write: a scalar, a text, a byte string, an extension, or the header of an
array or a map. -/
inductive Item where
  | nil
  | bool (b : Bool)
  | integer (n : Int)
  | float32 (bits : UInt32)
  | float64 (bits : UInt64)
  | str (s : String)
  | bin (data : Bytes)
  | ext (type : Int8) (data : Bytes)
  | array (count : Nat)
  | map (count : Nat)

namespace Item

/-- The token at the front of an item. -/
def token : Item → Token
  | nil => .nil
  | bool b => .bool b
  | integer n => .integer n
  | float32 bits => .float32 bits
  | float64 bits => .float64 bits
  | str s => .str (utf8 s).length
  | bin data => .bin data.length
  | ext _ data => .ext data.length
  | array count => .array count
  | map count => .map count

/-- What stands behind the token of an item. -/
def payload : Item → Bytes
  | str s => utf8 s
  | bin data => data
  | ext type data => type.toUInt8 :: data
  | _ => []

end Item

/-- The forms of an item. -/
def IsForm (item : Item) (bytes : Bytes) : Prop :=
  ∃ header, Form item.token header ∧ bytes = header ++ item.payload

/-- Reads the payload that a token announces. -/
def readPayload (token : Token) (bytes : Bytes) : Option (Item × Bytes) :=
  match token with
  | .nil => some (.nil, bytes)
  | .bool b => some (.bool b, bytes)
  | .integer n => some (.integer n, bytes)
  | .float32 bits => some (.float32 bits, bytes)
  | .float64 bits => some (.float64 bits, bytes)
  | .str n => do
    let (data, rest) ← takeBytes n bytes
    return (.str (← textOf data), rest)
  | .bin n => do
    let (data, rest) ← takeBytes n bytes
    return (.bin data, rest)
  | .ext n =>
    match bytes with
    | [] => none
    | type :: bytes => do
      let (data, rest) ← takeBytes n bytes
      return (.ext type.toInt8 data, rest)
  | .array count => some (.array count, bytes)
  | .map count => some (.map count, bytes)

/-- Reads an item. -/
def readItem (bytes : Bytes) : Option (Item × Bytes) := do
  let (token, rest) ← readToken bytes
  readPayload token rest

theorem readPayload_payload (item : Item) (rest : Bytes) :
    readPayload item.token (item.payload ++ rest) = some (item, rest) := by
  cases item with
  | str s =>
    rw [Item.token, Item.payload, readPayload, takeBytes_append rfl]
    simp only [Option.bind_eq_bind, Option.bind_some, textOf_utf8]
    rfl
  | bin data =>
    rw [Item.token, Item.payload, readPayload, takeBytes_append rfl]
    rfl
  | ext type data =>
    simp only [Item.token, Item.payload, List.cons_append, readPayload, takeBytes_append rfl,
      Option.bind_eq_bind, Option.bind_some, Int8.toInt8_toUInt8]
    rfl
  | _ => rfl

theorem readPayload_eq_some {token : Token} {item : Item} {b rest : Bytes}
    (h : readPayload token b = some (item, rest)) :
    token = item.token ∧ b = item.payload ++ rest := by
  cases token with
  | str n =>
    obtain ⟨⟨data, rest'⟩, hdata, h⟩ := Option.bind_eq_some_iff.1 h
    obtain ⟨s, hs, h⟩ := Option.bind_eq_some_iff.1 h
    obtain ⟨rfl, rfl⟩ := Prod.mk.inj (Option.some.inj h)
    obtain ⟨rfl, rfl⟩ := takeBytes_eq_some hdata
    obtain rfl := utf8_of_textOf hs
    exact ⟨rfl, rfl⟩
  | bin n =>
    obtain ⟨⟨data, rest'⟩, hdata, h⟩ := Option.bind_eq_some_iff.1 h
    obtain ⟨rfl, rfl⟩ := Prod.mk.inj (Option.some.inj h)
    obtain ⟨rfl, rfl⟩ := takeBytes_eq_some hdata
    exact ⟨rfl, rfl⟩
  | ext n =>
    cases b with
    | nil => cases h
    | cons type b =>
      obtain ⟨⟨data, rest'⟩, hdata, h⟩ := Option.bind_eq_some_iff.1 h
      obtain ⟨rfl, rfl⟩ := Prod.mk.inj (Option.some.inj h)
      obtain ⟨rfl, rfl⟩ := takeBytes_eq_some hdata
      exact ⟨rfl, rfl⟩
  | _ =>
    obtain ⟨rfl, rfl⟩ := Prod.mk.inj (Option.some.inj h)
    exact ⟨rfl, rfl⟩

/-- The reader takes exactly the forms of an item, and leaves what stands behind them. -/
theorem readItem_eq_some_iff {item : Item} {b rest : Bytes} :
    readItem b = some (item, rest) ↔ ∃ form, IsForm item form ∧ b = form ++ rest := by
  constructor
  · intro h
    obtain ⟨⟨token, after⟩, htoken, h⟩ := Option.bind_eq_some_iff.1 h
    obtain ⟨rfl, rfl⟩ := readPayload_eq_some h
    obtain ⟨header, hheader, rfl⟩ := form_of_readToken htoken
    exact ⟨_, ⟨header, hheader, rfl⟩, (List.append_assoc _ _ _).symm⟩
  · rintro ⟨_, ⟨header, hheader, rfl⟩, rfl⟩
    rw [readItem, List.append_assoc, readToken_of_form hheader]
    exact readPayload_payload item rest

/-! ## The shortest forms -/

/-- The length of the shortest form of a token. -/
def Token.least : Token → Nat
  | nil => 1
  | bool _ => 1
  | integer n =>
    if -32 ≤ n ∧ n ≤ 127 then 1
    else if -128 ≤ n ∧ n ≤ 255 then 2
    else if -32768 ≤ n ∧ n ≤ 65535 then 3
    else if -2147483648 ≤ n ∧ n ≤ 4294967295 then 5
    else 9
  | float32 _ => 5
  | float64 _ => 9
  | str n => if n ≤ 31 then 1 else if n ≤ 255 then 2 else if n ≤ 65535 then 3 else 5
  | bin n => if n ≤ 255 then 2 else if n ≤ 65535 then 3 else 5
  | ext n =>
    if n = 1 ∨ n = 2 ∨ n = 4 ∨ n = 8 ∨ n = 16 then 1
    else if n ≤ 255 then 2 else if n ≤ 65535 then 3 else 5
  | array n => if n ≤ 15 then 1 else if n ≤ 65535 then 3 else 5
  | map n => if n ≤ 15 then 1 else if n ≤ 65535 then 3 else 5

/-- No form of a token is shorter. -/
theorem least_le_length {token : Token} {form : Bytes} (h : Form token form) :
    token.least ≤ form.length := by
  cases h with
  | nil => exact Nat.le_refl _
  | false => exact Nat.le_refl _
  | true => exact Nat.le_refl _
  | inTag row small =>
    cases row <;> simp only [Token.least, List.length_singleton] <;> grind
  | behind row fits =>
    rw [List.length_cons, length_bigEndian]
    cases row <;> simp only [Token.least] <;> grind
  | signed row low high =>
    rw [List.length_cons, length_twosComplement]
    cases row <;> simp only [Token.least] <;> grind
  | float32 bits => rw [List.length_cons, length_bigEndian]; exact Nat.le_refl _
  | float64 bits => rw [List.length_cons, length_bigEndian]; exact Nat.le_refl _
  | fixedExt row => cases row <;> exact Nat.le_refl _

/-- The bytes that a primitive writes for an item. -/
structure Compact (item : Item) (bytes : Bytes) : Prop where
  /-- They are a form of the item. -/
  form : IsForm item bytes
  /-- They are read as the item, whatever stands behind them. -/
  reads : ∀ rest, readItem (bytes ++ rest) = some (item, rest)
  /-- No form of the item is shorter. -/
  shortest : ∀ other, IsForm item other → bytes.length ≤ other.length

/-- A header that is read as the token of an item, with the payload of the item behind it. -/
theorem compact_of_reads {item : Item} {header : Bytes}
    (hread : ∀ r, readToken (header ++ r) = some (item.token, r))
    (hlength : header.length = item.token.least) : Compact item (header ++ item.payload) := by
  obtain ⟨form, hform, hheader⟩ := form_of_readToken (hread [])
  obtain rfl := List.append_cancel_right hheader
  have hitem : IsForm item (header ++ item.payload) := ⟨header, hform, rfl⟩
  refine ⟨hitem, fun rest => readItem_eq_some_iff.2 ⟨_, hitem, rfl⟩, ?_⟩
  rintro _ ⟨other, hother, rfl⟩
  have hleast := least_le_length hother
  rw [List.length_append, List.length_append]
  omega

/-- An item that is its token. -/
theorem compact_of_reads_token {item : Item} {header : Bytes} (hpayload : item.payload = [])
    (hread : ∀ r, readToken (header ++ r) = some (item.token, r))
    (hlength : header.length = item.token.least) : Compact item header := by
  have hcompact := compact_of_reads hread hlength
  rwa [hpayload, List.append_nil] at hcompact

theorem compact_int (v : Int64) : Compact (.integer v.toInt) (int v) := by
  refine compact_of_reads_token rfl (readToken_int v) ?_
  simp only [Item.token, Token.least, int]
  grind [length_twosComplement]

theorem compact_uint (v : UInt64) : Compact (.integer v.toNat) (uint v) := by
  refine compact_of_reads_token rfl (readToken_uint v) ?_
  simp only [Item.token, Token.least, uint]
  grind [length_bigEndian]

theorem compact_str {s : String} (h : (utf8 s).length < UInt32.size) :
    Compact (.str s) (str s) := by
  refine compact_of_reads (readToken_strHeader h) ?_
  simp only [Item.token, Token.least, strHeader]
  grind [length_bigEndian]

theorem compact_bin {data : Bytes} (h : data.length < UInt32.size) :
    Compact (.bin data) (bin data) := by
  refine compact_of_reads (readToken_binHeader h) ?_
  simp only [Item.token, Token.least, binHeader]
  grind [length_bigEndian]

theorem compact_ext (type : Int8) {data : Bytes} (h : data.length < UInt32.size) :
    Compact (.ext type data) (ext type data) := by
  refine compact_of_reads (readToken_extHeader h) ?_
  simp only [Item.token, Token.least, extHeader]
  grind [length_bigEndian]

theorem compact_arrayHeader (count : UInt32) :
    Compact (.array count.toNat) (arrayHeader count) := by
  refine compact_of_reads_token rfl (readToken_arrayHeader count) ?_
  simp only [Item.token, Token.least, arrayHeader]
  grind [length_bigEndian]

theorem compact_mapHeader (count : UInt32) : Compact (.map count.toNat) (mapHeader count) := by
  refine compact_of_reads_token rfl (readToken_mapHeader count) ?_
  simp only [Item.token, Token.least, mapHeader]
  grind [length_bigEndian]

/-! ## Timestamps -/

/-- The time that the payload of a timestamp stands for. -/
def readTime (payload : Bytes) : Option (Int × Nat) := do
  let (secs, rest) ← readSigned 8 payload
  let (nanos, rest) ← readNat 4 rest
  if rest.isEmpty then return (secs, nanos) else none

theorem readTime_timePayload (secs : Int64) (nanos : UInt32) :
    readTime (timePayload secs nanos) = some (secs.toInt, nanos.toNat) := by
  have hlow := secs.le_toInt
  have hhigh := secs.toInt_lt
  have hsecs : readSigned 8 (twosComplement 8 secs.toInt ++ bigEndian 4 nanos.toNat) =
      some (secs.toInt, bigEndian 4 nanos.toNat) :=
    readSigned_twosComplement (by omega) (by omega) _
  have hnanos : readNat 4 (bigEndian 4 nanos.toNat ++ []) = some (nanos.toNat, []) :=
    readNat_bigEndian nanos.toNat_lt []
  rw [List.append_nil] at hnanos
  rw [readTime, timePayload, hsecs]
  simp only [Option.bind_eq_bind, Option.bind_some, hnanos]
  rfl

/-- All payloads that stand for a time have the same length. -/
theorem length_of_readTime {payload : Bytes} {time : Int × Nat} (h : readTime payload = some time) :
    payload.length = 12 := by
  obtain ⟨⟨secs, rest⟩, hsecs, h⟩ := Option.bind_eq_some_iff.1 h
  obtain ⟨⟨nanos, after⟩, hnanos, h⟩ := Option.bind_eq_some_iff.1 h
  have hend : after = [] := by
    by_contra hne
    dsimp only at h
    rw [if_neg (by simpa using hne)] at h
    cases h
  obtain ⟨⟨n, _⟩, hn, hsecs⟩ := Option.bind_eq_some_iff.1 hsecs
  obtain ⟨-, rfl⟩ := Prod.mk.inj (Option.some.inj hsecs)
  obtain ⟨-, rfl⟩ := readNat_eq_some hn
  obtain ⟨-, rfl⟩ := readNat_eq_some hnanos
  rw [hend, List.append_nil, List.length_append, length_bigEndian, length_bigEndian]

theorem compact_time (secs : Int64) (nanos : UInt32) :
    Compact (.ext timeType (timePayload secs nanos)) (time secs nanos) := by
  refine compact_ext timeType ?_
  rw [length_of_readTime (readTime_timePayload secs nanos)]
  decide

/-- No extension that stands for the same time is shorter than a timestamp. -/
theorem length_time_le {secs : Int64} {nanos : UInt32} {payload other : Bytes}
    (hread : readTime payload = some (secs.toInt, nanos.toNat))
    (hother : IsForm (.ext timeType payload) other) :
    (time secs nanos).length ≤ other.length := by
  have hlength := length_of_readTime hread
  have hlength' := length_of_readTime (readTime_timePayload secs nanos)
  obtain ⟨header, hheader, rfl⟩ := hother
  rw [Item.token, hlength, ← hlength'] at hheader
  have hshortest := (compact_time secs nanos).shortest _ ⟨header, hheader, rfl⟩
  simp only [Item.payload, List.length_append, List.length_cons, hlength, hlength'] at hshortest ⊢
  exact hshortest

/-! ## All primitives -/

/-- Every primitive writes a form of its argument that is read back as the argument, and no form
of the argument is shorter. Lengths have to fit 32 bits. A timestamp is an extension of a type of
its own, and its payload stands for the time; the entry that identifies a struct is a pair of
items. An output takes any bytes behind those it has, whether they are constant or not. -/
theorem primitives_compact :
    Compact .nil nil ∧ (∀ b, Compact (.bool b) (bool b)) ∧
    (∀ v : Int64, Compact (.integer v.toInt) (int v)) ∧
    (∀ v : UInt64, Compact (.integer v.toNat) (uint v)) ∧
    (∀ bits, Compact (.float32 bits) (float32 bits)) ∧
    (∀ bits, Compact (.float64 bits) (float64 bits)) ∧
    (∀ s, (utf8 s).length < UInt32.size → Compact (.str s) (str s)) ∧
    (∀ data, data.length < UInt32.size → Compact (.bin data) (bin data)) ∧
    (∀ count : UInt32, Compact (.array count.toNat) (arrayHeader count)) ∧
    (∀ count : UInt32, Compact (.map count.toNat) (mapHeader count)) ∧
    (∀ type data, data.length < UInt32.size → Compact (.ext type data) (ext type data)) ∧
    (∀ secs nanos, Compact (.ext timeType (timePayload secs nanos)) (time secs nanos) ∧
      readTime (timePayload secs nanos) = some (secs.toInt, nanos.toNat) ∧
      ∀ payload other, readTime payload = some (secs.toInt, nanos.toNat) →
        IsForm (.ext timeType payload) other → (time secs nanos).length ≤ other.length) ∧
    (∀ name, (utf8 name).length < UInt32.size → ∃ key value, fingerprint name = key ++ value ∧
      Compact (.integer (-1)) key ∧ Compact (.bin (utf8 name)) value) ∧
    ∀ (o : Output) (fuse : Bool) (bytes : Bytes),
      (o.dynamic bytes).contents = o.contents ++ bytes ∧
        (o.constant fuse bytes).contents = o.contents ++ bytes := by
  refine ⟨compact_of_reads_token rfl readToken_nil rfl,
    fun b => compact_of_reads_token rfl (readToken_bool b) rfl, compact_int, compact_uint,
    fun bits => compact_of_reads_token rfl (readToken_float32 bits) rfl,
    fun bits => compact_of_reads_token rfl (readToken_float64 bits) rfl,
    fun s => compact_str, fun data => compact_bin, compact_arrayHeader, compact_mapHeader,
    fun type data => compact_ext type, fun secs nanos => ⟨compact_time secs nanos,
      readTime_timePayload secs nanos, fun payload other => length_time_le⟩, fun name h => ?_,
    fun o fuse bytes => ⟨Output.contents_dynamic o bytes, Output.contents_constant o fuse bytes⟩⟩
  exact ⟨int (-1), bin (utf8 name), rfl, compact_int (-1), compact_bin h⟩

/-- Three bytes have no tag of their own as an extension, and the largest unsigned number needs all
its bytes. -/
theorem three_bytes_compact : ([1, 2, 3] : Bytes).length < UInt32.size ∧
    Compact (.ext 7 [1, 2, 3]) [0xc7, 3, 7, 1, 2, 3] ∧
    Compact (.integer 18446744073709551615)
      [0xcf, 0xff, 0xff, 0xff, 0xff, 0xff, 0xff, 0xff, 0xff] := by
  obtain ⟨-, -, -, huint, -, -, -, -, -, -, hext, -⟩ := primitives_compact
  exact ⟨by decide, hext 7 [1, 2, 3] (by decide), huint 0xffffffffffffffff⟩

end Wire

end Packwright
