import Packwright.Proofs.Conformance

/-
  How long encodings are. Each form of the wire format stays within the size that estimates use
  for it, at the limits of its width too, and so does every value of a kind whose size is fixed
  (`length_scalar_le`). `knownSize` sums the numbers that go into the estimate of a shape, and
  `staticSize_eq` says that a size which does not depend on the value is computed as long as they
  fit. `length_le_of_staticSize`: where a shape has such a size, no conforming value is longer.
-/

namespace Packwright

/-! ## Forms of the wire format -/

namespace Wire

theorem length_arrayHeader_le (n : UInt32) : (arrayHeader n).length ≤ arrayHeaderSize := by
  unfold arrayHeader arrayHeaderSize
  dsimp only
  repeat' split
  all_goals simp

theorem length_mapHeader_le (n : UInt32) : (mapHeader n).length ≤ mapHeaderSize := by
  unfold mapHeader mapHeaderSize
  dsimp only
  repeat' split
  all_goals simp

theorem length_str_le (s : String) : (str s).length ≤ strHeaderSize + (utf8 s).length := by
  have hheader : (strHeader (utf8 s).length).length ≤ strHeaderSize := by
    unfold strHeader strHeaderSize
    repeat' split
    all_goals simp
  simp only [str, List.length_append]
  omega

theorem length_bin_le (data : Bytes) : (bin data).length ≤ binHeaderSize + data.length := by
  have hheader : (binHeader data.length).length ≤ binHeaderSize := by
    unfold binHeader binHeaderSize
    repeat' split
    all_goals simp
  simp only [bin, List.length_append]
  omega

/-- The size of the header counts the application type. -/
theorem length_ext_le (type : Int8) (data : Bytes) :
    (ext type data).length ≤ extHeaderSize + data.length := by
  have hheader : (extHeader data.length).length + 1 ≤ extHeaderSize := by
    unfold extHeader extHeaderSize
    repeat' split
    all_goals simp
  simp only [ext, List.length_append, List.length_cons]
  omega

theorem length_time (secs : Int64) (nanos : UInt32) : (time secs nanos).length = timeSize := by
  have hpayload : (timePayload secs nanos).length = 12 := by simp [timePayload]
  simp [time, ext, hpayload, extHeader, timeSize]

end Wire

namespace Encoder

/-- A signed integer in the range of its kind. -/
theorem length_int_le {k : Kind} {n : Int64} {size : Nat} (hk : k.isSigned = true)
    (hn : k.InRange n.toInt) (hsize : k.fixedSize? = some size) :
    (Wire.int n).length ≤ size := by
  cases k with
  | int | int8 | int16 | int32 | int64 =>
    obtain rfl := Option.some.inj hsize
    simp only [Kind.InRange] at hn
    unfold Wire.int
    dsimp only
    repeat' split
    all_goals
      simp only [List.length_cons, length_twosComplement, Wire.int8Size, Wire.int16Size,
        Wire.int32Size, Wire.int64Size]
      omega
  | _ => cases hk

/-- An unsigned integer in the range of its kind. -/
theorem length_uint_le {k : Kind} {n : UInt64} {size : Nat} (hk : k.isUnsigned = true)
    (hn : k.InRange n.toNat) (hsize : k.fixedSize? = some size) :
    (Wire.uint n).length ≤ size := by
  cases k with
  | uint | uint8 | byte | uint16 | uint32 | uint64 =>
    obtain rfl := Option.some.inj hsize
    simp only [Kind.InRange] at hn
    unfold Wire.uint
    dsimp only
    repeat' split
    all_goals
      simp only [List.length_cons, length_bigEndian, Wire.int8Size, Wire.int16Size,
        Wire.int32Size, Wire.int64Size]
      omega
  | _ => cases hk

/-- A value of a kind of fixed size. -/
theorem length_scalar_le {k : Kind} {v : Value} {bytes : Bytes} {size : Nat} (hv : OfKind k v)
    (hbytes : scalar k v = .ok bytes) (hsize : k.fixedSize? = some size) :
    bytes.length ≤ size := by
  cases hv with
  | @signed _ n hk hn =>
    have hint : scalar k (.int n) = .ok (Wire.int n) := by
      cases k <;> first | rfl | cases hk
    obtain rfl := Except.ok.inj (hint.symm.trans hbytes)
    exact length_int_le hk hn hsize
  | @unsigned _ n hk hn =>
    have huint : scalar k (.uint n) = .ok (Wire.uint n) := by
      cases k <;> first | rfl | cases hk
    obtain rfl := Except.ok.inj (huint.symm.trans hbytes)
    exact length_uint_le hk hn hsize
  | time secs nanos =>
    obtain rfl := Option.some.inj hsize
    obtain rfl := Except.ok.inj hbytes
    exact Nat.le_of_eq (Wire.length_time secs nanos)
  | bool b =>
    obtain rfl := Option.some.inj hsize
    obtain rfl := Except.ok.inj hbytes
    exact Nat.le_refl _
  | float32 bits =>
    obtain rfl := Option.some.inj hsize
    obtain rfl := Except.ok.inj hbytes
    simp [Wire.float32, Wire.float32Size]
  | float64 bits =>
    obtain rfl := Option.some.inj hsize
    obtain rfl := Except.ok.inj hbytes
    simp [Wire.float64, Wire.float64Size]
  | string s => cases hsize
  | bytes data => cases hsize
  | extension type data => cases hsize
  | interface v => cases hsize

end Encoder

/-! ## Numbers of an estimate -/

/-- What an estimate adds for a scalar, besides what depends on the value. -/
def Kind.knownSize (k : Kind) : Nat :=
  match k.fixedSize? with
  | some n => n
  | none =>
    match k with
    | .identifier | .interface => 0
    | .extension => Wire.extHeaderSize
    | _ => Wire.strHeaderSize

/-- What an estimate adds for the key of a map entry. -/
def KeyKind.knownSize : KeyKind → Nat
  | string => Wire.strHeaderSize
  | int64 => Wire.int64Size

/-- What an estimate adds for the header of a struct and the entry that identifies its type. -/
def Layout.headSize (l : Layout) : Nat :=
  l.header.elim Wire.mapHeaderSize List.length + l.fingerprint.elim 0 List.length

namespace Shape

/-- The size of an encoding when it is the same for every value, however large. -/
def fixedSize? : Shape → Option Nat
  | base info => info.kind.fixedSize?
  | array info element =>
    match info.resolved with
    | none => none
    | some n =>
      if element.isSingleByte then some (Wire.binHeaderSize + n)
      else element.fixedSize?.map fun size => Wire.arrayHeaderSize + n * size
  | _ => none

mutual

/-- The sum of the numbers that go into the estimate of a shape. The size of an element is computed
even if there are none. -/
def knownSize (p : Protocol) : Shape → Nat
  | struct info fields =>
    (Format.layout p info fields).headSize + knownSizeIn p (Format.layout p info fields) fields
  | map key value => Wire.mapHeaderSize + key.knownSize + knownSize p value
  | slice element => Wire.arrayHeaderSize + knownSize p element
  | array info element =>
    match fixedSize? (array info element) with
    | some n => max n (knownSize p element)
    | none => Wire.arrayHeaderSize + knownSize p element
  | ptr pointee => knownSize p pointee + Wire.nilSize
  | base info => info.kind.knownSize

/-- The sum of the numbers that go into the estimates of live fields, with their keys. -/
def knownSizeIn (p : Protocol) (l : Layout) : List Field → Nat
  | [] => 0
  | .mk info value :: rest =>
    if info.skip then knownSizeIn p l rest
    else (Layout.slotOf l.mode l.intKeys (.mk info value) 0).key.length + knownSize p value +
      knownSizeIn p l rest

end

theorem knownSize_base_lt (p : Protocol) (info : BaseInfo) :
    (base info).knownSize p < countLimit := by
  unfold knownSize Kind.knownSize
  cases info.kind <;> decide

theorem le_knownSize {p : Protocol} {s : Shape} {n : Nat} (h : s.fixedSize? = some n) :
    n ≤ s.knownSize p := by
  cases s with
  | base info =>
    have hn : info.kind.fixedSize? = some n := h
    simp [knownSize, Kind.knownSize, hn]
  | array info element =>
    rw [knownSize, h]
    exact Nat.le_max_left _ _
  | struct info fields => cases h
  | map key value => cases h
  | slice element => cases h
  | ptr pointee => cases h

theorem knownSize_array {p : Protocol} {info : ArrayInfo} {element : Shape} {n : Nat}
    (h : (array info element).fixedSize? = some n) :
    (array info element).knownSize p = max n (element.knownSize p) := by
  rw [knownSize, h]

/-- The two numbers of an array with a header fit if the second does. -/
theorem checkedCount_header (n size : Nat) :
    (do let total ← checkedCount (n * size)
        return some (← checkedCount (Wire.arrayHeaderSize + total))) =
      if Wire.arrayHeaderSize + n * size < countLimit
        then .ok (some (Wire.arrayHeaderSize + n * size)) else .error .overflow := by
  by_cases hsum : Wire.arrayHeaderSize + n * size < countLimit
  · have hprod : n * size < countLimit := by omega
    rw [checkedCount, if_pos hprod, ok_bind, checkedCount, if_pos hsum, if_pos hsum]
    rfl
  · rw [if_neg hsum, checkedCount]
    split
    · rw [ok_bind, checkedCount, if_neg hsum]
      rfl
    · rfl

/-- The size of a shape is computed as long as it fits, with those of its elements. -/
theorem staticSize_eq (p : Protocol) (s : Shape) :
    s.staticSize = match s.fixedSize? with
      | none => .ok none
      | some n => if s.knownSize p < countLimit then .ok (some n) else .error .overflow := by
  induction s with
  | base info =>
    simp only [staticSize, fixedSize?]
    cases info.kind.fixedSize? with
    | none => rfl
    | some n => exact (if_pos (knownSize_base_lt p info)).symm
  | array info element ih =>
    cases hn : info.resolved with
    | none => simp [staticSize, fixedSize?, hn]
    | some n =>
      cases hb : element.isSingleByte with
      | true =>
        have hfixed : (array info element).fixedSize? = some (Wire.binHeaderSize + n) := by
          simp [fixedSize?, hn, hb]
        have hknown : (array info element).knownSize p < countLimit ↔
            Wire.binHeaderSize + n < countLimit := by
          rw [knownSize_array hfixed]
          cases element with
          | base info =>
            have := knownSize_base_lt p info
            omega
          | _ => cases hb
        simp only [staticSize, hn, hb, if_true, hfixed, hknown, checkedCount]
        split <;> rfl
      | false =>
        simp only [staticSize, hn, hb, Bool.false_eq_true, if_false, ih]
        cases hk : element.fixedSize? with
        | none => simp [fixedSize?, hn, hb, hk, ok_bind, pure, Except.pure]
        | some k =>
          have hfixed : (array info element).fixedSize? = some (Wire.arrayHeaderSize + n * k) := by
            simp [fixedSize?, hn, hb, hk]
          simp only [hfixed, knownSize_array hfixed]
          by_cases hfit : element.knownSize p < countLimit
          · have hmax : max (Wire.arrayHeaderSize + n * k) (element.knownSize p) < countLimit ↔
                Wire.arrayHeaderSize + n * k < countLimit := by omega
            rw [if_pos hfit, ok_bind]
            simp only [checkedCount_header, hmax]
          · have hmax : ¬max (Wire.arrayHeaderSize + n * k) (element.knownSize p) < countLimit := by
              omega
            rw [if_neg hfit, if_neg hmax]
            rfl
  | struct info fields _ => rfl
  | map key value _ => rfl
  | slice element _ => rfl
  | ptr pointee _ => rfl

theorem staticSize_eq_error {s : Shape} {fault : Fault} (h : s.staticSize = .error fault) :
    fault = .overflow := by
  rw [staticSize_eq .fast] at h
  split at h
  · cases h
  · split at h
    · cases h
    · exact (Except.error.inj h).symm

end Shape

/-! ## Shapes of fixed size -/

namespace Format

theorem length_gather_le {α : Type} {f : α → Except Fault Bytes} {size : Nat} {xs : List α}
    {bytes : Bytes} (hbytes : gather f xs = .ok bytes)
    (h : ∀ x ∈ xs, ∀ b, f x = .ok b → b.length ≤ size) : bytes.length ≤ xs.length * size := by
  induction xs generalizing bytes with
  | nil =>
    obtain rfl := Except.ok.inj hbytes
    exact Nat.zero_le _
  | cons x rest ih =>
    obtain ⟨b, bs, hb, hbs, rfl⟩ := gather_cons_eq_ok hbytes
    have hx := h x List.mem_cons_self b hb
    have hrest := ih hbs fun y hy => h y (List.mem_cons_of_mem _ hy)
    rw [List.length_append, List.length_cons, Nat.succ_mul]
    omega

end Format

theorem checkedCount_eq_ok {m n : Nat} (h : checkedCount m = .ok n) : n = m := by
  unfold checkedCount at h
  split at h
  · exact (Except.ok.inj h).symm
  · cases h

/-- A shape of fixed size is a scalar, a byte array or an array of elements of fixed size. -/
theorem Shape.staticSize_array {info : ArrayInfo} {element : Shape} {size : Nat}
    (h : (Shape.array info element).staticSize = .ok (some size)) :
    ∃ n, info.resolved = some n ∧
      (element.isSingleByte = true ∧ size = Wire.binHeaderSize + n ∨
        element.isSingleByte = false ∧ ∃ k, element.staticSize = .ok (some k) ∧
          size = Wire.arrayHeaderSize + n * k) := by
  unfold staticSize at h
  cases hn : info.resolved with
  | none => rw [hn] at h; cases h
  | some n =>
    refine ⟨n, rfl, ?_⟩
    rw [hn] at h
    dsimp only at h
    cases hb : element.isSingleByte with
    | true =>
      rw [hb, if_pos rfl] at h
      cases hc : checkedCount (Wire.binHeaderSize + n) with
      | error fault => rw [hc] at h; cases h
      | ok total =>
        rw [hc] at h
        obtain rfl := Option.some.inj (Except.ok.inj h)
        exact Or.inl ⟨rfl, checkedCount_eq_ok hc⟩
    | false =>
      rw [hb, if_neg (by simp)] at h
      obtain ⟨k, hk, h⟩ := bind_eq_ok h
      cases k with
      | none => cases h
      | some k =>
        obtain ⟨total, htotal, h⟩ := bind_eq_ok h
        obtain ⟨sum, hsum, h⟩ := bind_eq_ok h
        obtain rfl := Option.some.inj (Except.ok.inj h)
        obtain rfl := checkedCount_eq_ok htotal
        exact Or.inr ⟨rfl, k, hk, checkedCount_eq_ok hsum⟩

theorem Shape.keyed_of_staticSize {p : Protocol} {s : Shape} {size : Nat}
    (h : s.staticSize = .ok (some size)) : s.Keyed p := by
  induction s generalizing size with
  | base info => trivial
  | array info element ih =>
    obtain ⟨n, -, ⟨hnarrow, -⟩ | ⟨-, k, hk, -⟩⟩ := staticSize_array h
    · cases element with
      | base info => trivial
      | _ => cases hnarrow
    · exact ih hk
  | struct info fields _ => cases h
  | map key value _ => cases h
  | slice element _ => cases h
  | ptr pointee _ => cases h

/-- The conforming values of a shape of fixed size are no longer than that. -/
theorem Format.length_le_of_staticSize {t : Table} {p : Protocol} {depth : Nat} {s : Shape}
    {v : Value} {bytes : Bytes} {size : Nat} (hsize : s.staticSize = .ok (some size))
    (hv : Conforms t s v) (hbytes : Format.bytes t p depth s v = .ok bytes) :
    bytes.length ≤ size := by
  induction s generalizing v bytes size depth with
  | base info =>
    cases depth with
    | zero => cases hbytes
    | succ depth =>
      have hfixed : info.kind.fixedSize? = some size := Except.ok.inj hsize
      cases hv with
      | identity hnamed _ _ => rw [hnamed] at hfixed; cases hfixed
      | scalar hplain hholds =>
        simp only [Format.bytes, Format.node, if_neg hplain] at hbytes
        exact Encoder.length_scalar_le hholds hbytes hfixed
  | array info element ih =>
    cases depth with
    | zero => cases hbytes
    | succ depth =>
      obtain ⟨n, hn, ⟨hnarrow, rfl⟩ | ⟨hwide, k, hk, rfl⟩⟩ := Shape.staticSize_array hsize
      · cases hv with
        | array hwide _ _ => rw [hnarrow] at hwide; cases hwide
        | @byteArray _ _ _ data _ hlen hgiven =>
          rw [Format.bytes, Format.node_byteArray hnarrow hlen hgiven] at hbytes
          obtain rfl := Except.ok.inj hbytes
          obtain rfl := Option.some.inj (hlen.symm.trans hn)
          exact Wire.length_bin_le data
      · cases hv with
        | byteArray hnarrow _ _ => rw [hnarrow] at hwide; cases hwide
        | @array _ _ items _ hlen heach =>
          rw [Format.bytes, Format.node_array hwide hlen] at hbytes
          obtain ⟨rest, hrest, hbytes⟩ := bind_eq_ok hbytes
          obtain rfl := Except.ok.inj hbytes
          obtain rfl := Option.some.inj (hlen.symm.trans hn)
          have hheader := Wire.length_arrayHeader_le (UInt32.ofNat items.length)
          have hitems := Format.length_gather_le hrest fun x hx b hb => ih hk (heach x hx) hb
          rw [List.length_append]
          omega
  | struct info fields _ => cases hsize
  | map key value _ => cases hsize
  | slice element _ => cases hsize
  | ptr pointee _ => cases hsize

end Packwright
