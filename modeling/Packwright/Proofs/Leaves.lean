import Packwright.Proofs.Format

/-
  The leaves of the wire format: scalars, map keys and the contents of byte arrays. Each has a table
  of its own that lists the values it is written for and their bytes; a value that is in no row of
  the table is reported. The encoder decides by the first case that applies, and gives the bytes of
  the table or the report (`scalar_eq_ok_iff` and the lemmas after it).
-/

namespace Packwright

namespace Format

/-- The bytes of a scalar. An integer is written alike at every width of its kind, and a floating
point number at the width of its kind. -/
inductive Leaf : Kind → Value → Bytes → Prop where
  | any (v : Value) : Leaf .interface v v.dynamic
  | extension (type : Int8) (data : Bytes) : Leaf .extension (.ext type data) (Wire.ext type data)
  | bool (b : Bool) : Leaf .bool (.bool b) (Wire.bool b)
  | string (s : String) : Leaf .string (.str s) (Wire.str s)
  | bytes (data : Bytes) : Leaf .bytes (.bin data) (Wire.bin data)
  | single (bits : UInt32) : Leaf .float32 (.float32 bits) (Wire.float32 bits)
  | narrowed (bits : UInt64) :
      Leaf .float32 (.float64 bits) (Wire.float32 (FloatBits.narrow bits))
  | double (bits : UInt64) : Leaf .float64 (.float64 bits) (Wire.float64 bits)
  | widened (bits : UInt32) : Leaf .float64 (.float32 bits) (Wire.float64 (FloatBits.widen bits))
  | time (secs : Int64) (nanos : UInt32) : Leaf .time (.time secs nanos) (Wire.time secs nanos)
  | signed {k : Kind} (hk : k.isSigned = true) (n : Int64) : Leaf k (.int n) (Wire.int n)
  | unsigned {k : Kind} (hk : k.isUnsigned = true) (n : UInt64) : Leaf k (.uint n) (Wire.uint n)

/-- The bytes of a map key. -/
inductive KeyLeaf : KeyKind → Value → Bytes → Prop where
  | string (s : String) : KeyLeaf .string (.str s) (Wire.str s)
  | int (n : Int64) : KeyLeaf .int64 (.int n) (Wire.int n)

/-- What a report asks for where a map key is of another kind. -/
def keyWord : KeyKind → String
  | .string => "string key"
  | .int64 => "int key"

/-- The two ways to give the contents of a byte array: as a byte string, or as an array of
numbers. -/
def Given (v : Value) (data : Bytes) : Prop :=
  v = .bin data ∨ v = .array (data.map fun b => .uint b.toUInt64)

/-- What is wrong with a value that is no byte array of a size. -/
inductive GivenFault (size : Nat) : Value → Fault → Prop where
  | kind {v : Value} (hbin : ∀ data, v ≠ .bin data) (harray : ∀ items, v ≠ .array items) :
      GivenFault size v (wrongKind "byte array" v)
  /-- The first element that is no byte is reported. -/
  | element {data : Bytes} {w : Value} {rest : List Value}
      (hw : ∀ b : UInt8, w ≠ .uint b.toUInt64) :
      GivenFault size (.array ((data.map fun b => .uint b.toUInt64) ++ w :: rest))
        (wrongKind "byte" w)
  | length {v : Value} {data : Bytes} (hgiven : Given v data) (hlength : data.length ≠ size) :
      GivenFault size v (.error (.mismatch (Decimal.ofNat size ++ " bytes")
        (Decimal.ofNat data.length ++ " bytes")))

end Format

namespace Encoder

open Format (Leaf KeyLeaf keyWord Given GivenFault)

/-- A computation with one report fails exactly where it gives nothing. -/
theorem eq_error_iff {α : Type} {x : Except Fault α} {rule : α → Prop} {fault report : Fault}
    (hok : ∀ a, x = .ok a ↔ rule a) (herror : ∀ {fault}, x = .error fault → fault = report) :
    x = .error fault ↔ (∀ a, ¬ rule a) ∧ fault = report := by
  constructor
  · rintro rfl
    exact ⟨fun a ha => (by cases (hok a).2 ha), herror rfl⟩
  · rintro ⟨hnone, rfl⟩
    cases x with
    | ok a => exact absurd ((hok a).1 rfl) (hnone a)
    | error fault => rw [herror rfl]

/-! ## Scalars -/

theorem leaf_of_scalar {k : Kind} {v : Value} {b : Bytes} (h : scalar k v = .ok b) :
    Leaf k v b := by
  unfold scalar at h
  split at h
  case h_11 =>
    split at h
    · obtain rfl := Except.ok.inj h
      exact .signed ‹_› _
    · cases h
  case h_12 =>
    split at h
    · obtain rfl := Except.ok.inj h
      exact .unsigned ‹_› _
    · cases h
  case h_13 => cases h
  all_goals
    obtain rfl := Except.ok.inj h
    constructor

theorem scalar_of_leaf {k : Kind} {v : Value} {b : Bytes} (h : Leaf k v b) :
    scalar k v = .ok b := by
  cases h with
  | signed hk n => cases k <;> first | rfl | cases hk
  | unsigned hk n => cases k <;> first | rfl | cases hk
  | _ => rfl

theorem scalar_eq_ok_iff {k : Kind} {v : Value} {b : Bytes} : scalar k v = .ok b ↔ Leaf k v b :=
  ⟨leaf_of_scalar, scalar_of_leaf⟩

theorem wrongKind_of_scalar {k : Kind} {v : Value} {fault : Fault}
    (h : scalar k v = .error fault) : fault = wrongKind k.word v := by
  unfold scalar at h
  split at h
  case h_11 | h_12 =>
    split at h
    · cases h
    · exact (Except.error.inj h).symm
  case h_13 => exact (Except.error.inj h).symm
  all_goals cases h

/-- A value that has no bytes as a scalar of a kind is reported, with the kind that is asked for and
its own. -/
theorem scalar_eq_error_iff {k : Kind} {v : Value} {fault : Fault} :
    scalar k v = .error fault ↔ (∀ b, ¬ Leaf k v b) ∧ fault = wrongKind k.word v :=
  eq_error_iff (fun _ => scalar_eq_ok_iff) wrongKind_of_scalar

/-! ## Map keys -/

theorem mapKey_eq_ok_iff {k : KeyKind} {v : Value} {b : Bytes} :
    mapKey k v = .ok b ↔ KeyLeaf k v b := by
  constructor
  · intro h
    unfold mapKey at h
    split at h
    · obtain rfl := Except.ok.inj h
      exact .string _
    · obtain rfl := Except.ok.inj h
      exact .int _
    · cases h
    · cases h
  · intro h
    cases h with
    | string s => rfl
    | int n => rfl

theorem wrongKind_of_mapKey {k : KeyKind} {v : Value} {fault : Fault}
    (h : mapKey k v = .error fault) : fault = wrongKind (keyWord k) v := by
  unfold mapKey at h
  split at h
  · cases h
  · cases h
  · exact (Except.error.inj h).symm
  · exact (Except.error.inj h).symm

theorem mapKey_eq_error_iff {k : KeyKind} {v : Value} {fault : Fault} :
    mapKey k v = .error fault ↔ (∀ b, ¬ KeyLeaf k v b) ∧ fault = wrongKind (keyWord k) v :=
  eq_error_iff (fun _ => mapKey_eq_ok_iff) wrongKind_of_mapKey

/-! ## Byte arrays -/

theorem arrayByte_uint (b : UInt8) : arrayByte (.uint b.toUInt64) = .ok b := by
  have hb : b.toNat < 256 := b.toNat_lt
  simp [arrayByte, hb]

theorem eq_of_arrayByte {v : Value} {byte : UInt8} (h : arrayByte v = .ok byte) :
    v = .uint byte.toUInt64 := by
  unfold arrayByte at h
  split at h
  · rename_i n
    split at h
    · obtain rfl := Except.ok.inj h
      rename_i hn
      congr 1
      apply UInt64.toNat_inj.1
      rw [UInt8.toNat_toUInt64, UInt8.toNat_ofNat']
      exact (Nat.mod_eq_of_lt hn).symm
    · cases h
  · cases h

theorem wrongKind_of_arrayByte {v : Value} {fault : Fault} (h : arrayByte v = .error fault) :
    (∀ b : UInt8, v ≠ .uint b.toUInt64) ∧ fault = wrongKind "byte" v := by
  refine ⟨fun b hb => ?_, ?_⟩
  · subst hb
    cases (arrayByte_uint b).symm.trans h
  · unfold arrayByte at h
    split at h
    · split at h
      · cases h
      · exact (Except.error.inj h).symm
    · exact (Except.error.inj h).symm

theorem mapM_arrayByte_append (data : Bytes) (items : List Value) :
    ((data.map fun b => Value.uint b.toUInt64) ++ items).mapM arrayByte =
      items.mapM arrayByte >>= fun more => .ok (data ++ more) := by
  induction data with
  | nil =>
    rw [List.map_nil, List.nil_append]
    cases items.mapM arrayByte <;> rfl
  | cons b rest ih =>
    rw [List.map_cons, List.cons_append, List.mapM_cons, arrayByte_uint, ok_bind, ih]
    cases items.mapM arrayByte <;> rfl

/-- The elements of an array are bytes up to the first that is none. -/
theorem bytes_cases (items : List Value) :
    (∃ data : Bytes, items = data.map fun b => .uint b.toUInt64) ∨
    ∃ (data : Bytes) (w : Value) (rest : List Value),
      items = (data.map fun b => .uint b.toUInt64) ++ w :: rest ∧
      ∀ b : UInt8, w ≠ .uint b.toUInt64 := by
  induction items with
  | nil => exact .inl ⟨[], rfl⟩
  | cons v items ih =>
    cases hv : arrayByte v with
    | error fault => exact .inr ⟨[], v, items, rfl, (wrongKind_of_arrayByte hv).1⟩
    | ok b =>
      obtain rfl := eq_of_arrayByte hv
      rcases ih with ⟨data, rfl⟩ | ⟨data, w, rest, rfl, hw⟩
      · exact .inl ⟨b :: data, rfl⟩
      · exact .inr ⟨b :: data, w, rest, rfl, hw⟩

theorem given_cases (size : Nat) (v : Value) :
    (∃ data, Given v data) ∨ ∃ fault, GivenFault size v fault := by
  cases v with
  | bin data => exact .inl ⟨data, .inl rfl⟩
  | array items =>
    rcases bytes_cases items with ⟨data, rfl⟩ | ⟨data, w, rest, rfl, hw⟩
    · exact .inl ⟨data, .inr rfl⟩
    · exact .inr ⟨_, .element hw⟩
  | _ => exact .inr ⟨_, .kind (by simp) (by simp)⟩

theorem byteArray_of_given {v : Value} {data : Bytes} (h : Given v data) (size : Nat) :
    byteArray size v = if data.length = size then .ok data
      else .error (.error (.mismatch (Decimal.ofNat size ++ " bytes")
        (Decimal.ofNat data.length ++ " bytes"))) := by
  rcases h with rfl | rfl
  · rfl
  · have hbytes := mapM_arrayByte_append data []
    rw [List.append_nil] at hbytes
    simp only [byteArray, hbytes, List.mapM_nil, pure, Except.pure, ok_bind, List.append_nil]
    rfl

theorem byteArray_of_givenFault {size : Nat} {v : Value} {fault : Fault}
    (h : GivenFault size v fault) : byteArray size v = .error fault := by
  cases h with
  | kind hbin harray =>
    cases v with
    | bin data => exact absurd rfl (hbin data)
    | array items => exact absurd rfl (harray items)
    | _ => rfl
  | @element data w rest hw =>
    cases hbyte : arrayByte w with
    | ok b => exact absurd (eq_of_arrayByte hbyte) (hw b)
    | error fault =>
      obtain rfl := (wrongKind_of_arrayByte hbyte).2
      simp only [byteArray, mapM_arrayByte_append, List.mapM_cons, hbyte, error_bind]
  | length hgiven hlength => rw [byteArray_of_given hgiven, if_neg hlength]

/-- The contents of a byte array say how it may be given. -/
theorem byteArray_eq_ok_iff {size : Nat} {v : Value} {data : Bytes} :
    byteArray size v = .ok data ↔ Given v data ∧ data.length = size := by
  constructor
  · intro h
    rcases given_cases size v with ⟨data', hgiven⟩ | ⟨fault, hfault⟩
    · rw [byteArray_of_given hgiven] at h
      split at h
      · obtain rfl := Except.ok.inj h
        exact ⟨hgiven, ‹_›⟩
      · cases h
    · cases (byteArray_of_givenFault hfault).symm.trans h
  · rintro ⟨hgiven, hlength⟩
    rw [byteArray_of_given hgiven, if_pos hlength]

theorem byteArray_eq_error_iff {size : Nat} {v : Value} {fault : Fault} :
    byteArray size v = .error fault ↔ GivenFault size v fault := by
  refine ⟨fun h => ?_, byteArray_of_givenFault⟩
  rcases given_cases size v with ⟨data, hgiven⟩ | ⟨fault', hfault⟩
  · rw [byteArray_of_given hgiven] at h
    split at h
    · cases h
    · obtain rfl := Except.error.inj h
      exact .length hgiven ‹_›
  · obtain rfl := Except.error.inj ((byteArray_of_givenFault hfault).symm.trans h)
    exact hfault

end Encoder

end Packwright
