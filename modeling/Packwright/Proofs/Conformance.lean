import Packwright.Proofs.Buffering

/-
  Values of the declared types. `Conforms t s v`: the value `v` is one that the type described by
  the shape `s` can hold, where identifiers stand for the identities of `t`. Integers are in the
  range of their kind, floating point numbers have the declared width, a fixed array has its size,
  a record holds every live field, and nil at a pointer means that nothing is there.

  `encodeShape_of_conforms`: the encoder gives bytes for every such value, as long as the zids of
  the structs can serve as keys, unless a struct has more fields than a header can count.
-/

namespace Packwright

/-- The integers that a kind can hold. -/
def Kind.InRange (k : Kind) (n : Int) : Prop :=
  match k with
  | .int8 => -128 ≤ n ∧ n ≤ 127
  | .int16 => -32768 ≤ n ∧ n ≤ 32767
  | .int32 => -2147483648 ≤ n ∧ n ≤ 2147483647
  | .uint8 | .byte => 0 ≤ n ∧ n ≤ 255
  | .uint16 => 0 ≤ n ∧ n ≤ 65535
  | .uint32 => 0 ≤ n ∧ n ≤ 4294967295
  | _ => True

/-- The values that a scalar kind can hold. -/
inductive OfKind : Kind → Value → Prop where
  | bool (b : Bool) : OfKind .bool (.bool b)
  | string (s : String) : OfKind .string (.str s)
  | bytes (data : Bytes) : OfKind .bytes (.bin data)
  | float32 (bits : UInt32) : OfKind .float32 (.float32 bits)
  | float64 (bits : UInt64) : OfKind .float64 (.float64 bits)
  | time (secs : Int64) (nanos : UInt32) : OfKind .time (.time secs nanos)
  | extension (type : Int8) (data : Bytes) : OfKind .extension (.ext type data)
  /-- A value of any kind stands for an interface. -/
  | interface (v : Value) : OfKind .interface v
  | signed {k : Kind} {n : Int64} (signed : k.isSigned = true) (range : k.InRange n.toInt) :
      OfKind k (.int n)
  | unsigned {k : Kind} {n : UInt64} (unsigned : k.isUnsigned = true)
      (range : k.InRange n.toNat) : OfKind k (.uint n)

/-- The kind of the keys of a map, as scalars. -/
def KeyKind.kind : KeyKind → Kind
  | string => .string
  | int64 => .int64

/-- The keys that a map can hold. -/
inductive OfKeyKind : KeyKind → Value → Prop where
  | string (s : String) : OfKeyKind .string (.str s)
  | int64 (n : Int64) : OfKeyKind .int64 (.int n)

/-- The values that the type of a shape can hold. -/
inductive Conforms (t : Table) : Shape → Value → Prop where
  /-- A struct has each live field once, and the record holds a value for it. -/
  | struct {info : StructInfo} {fields : List Field} {values : List (String × Value)}
      (distinct : ((Format.liveFields fields).map fun f => f.info.name).Nodup)
      (held : ∀ f ∈ Format.liveFields fields, (Assoc.get? values f.info.name).isSome)
      (each : ∀ f ∈ Format.liveFields fields, ∀ v, Assoc.get? values f.info.name = some v →
        Conforms t f.value v) :
      Conforms t (.struct info fields) (.record values)
  | map {key : KeyKind} {value : Shape} {entries : List (Value × Value)}
      (keys : ∀ e ∈ entries, OfKeyKind key e.1)
      (each : ∀ e ∈ entries, Conforms t value e.2) : Conforms t (.map key value) (.map entries)
  | slice {element : Shape} {items : List Value}
      (each : ∀ v ∈ items, Conforms t element v) : Conforms t (.slice element) (.array items)
  | array {info : ArrayInfo} {element : Shape} {items : List Value}
      (wide : element.isSingleByte = false) (size : info.resolved = some items.length)
      (each : ∀ v ∈ items, Conforms t element v) : Conforms t (.array info element) (.array items)
  /-- An array of bytes, given as a whole or as its elements. -/
  | byteArray {info : ArrayInfo} {element : Shape} {v : Value} {data : Bytes}
      (narrow : element.isSingleByte = true) (size : info.resolved = some data.length)
      (given : v = .bin data ∨ v = .array (data.map fun b => .uint b.toUInt64)) :
      Conforms t (.array info element) v
  | absent {pointee : Shape} : Conforms t (.ptr pointee) .nil
  | present {pointee : Shape} {v : Value} (present : v ≠ .nil) (there : Conforms t pointee v) :
      Conforms t (.ptr pointee) v
  | identity {info : BaseInfo} {target : Shape} {v : Value} (named : info.kind = .identifier)
      (found : t.get? (info.typeName.getD "") = some target) (there : Conforms t target v) :
      Conforms t (.base info) v
  | scalar {info : BaseInfo} {v : Value} (plain : info.kind ≠ .identifier)
      (holds : OfKind info.kind v) : Conforms t (.base info) v

theorem Conforms.ofFields {t : Table} {info : StructInfo} {fields : List Field}
    {values : List (String × Value)}
    (distinct : ((Format.liveFields fields).map fun f => f.info.name).Nodup)
    (h : ∀ f ∈ Format.liveFields fields, ∃ v, Assoc.get? values f.info.name = some v ∧
      Conforms t f.value v) : Conforms t (.struct info fields) (.record values) := by
  refine .struct distinct (fun f hf => ?_) fun f hf v hv => ?_
  · obtain ⟨v, hv, -⟩ := h f hf
    rw [hv]
    rfl
  · obtain ⟨w, hw, hc⟩ := h f hf
    exact Option.some.inj (hw.symm.trans hv) ▸ hc

theorem conforms_byte {t : Table} {s : Shape} (h : s.isSingleByte = true) (b : UInt8) :
    Conforms t s (.uint b.toUInt64) := by
  have hb : b.toNat < 256 := b.toNat_lt
  cases s with
  | base info =>
    change info.kind.isSingleByte = true at h
    refine .scalar (fun hk => by simp [hk, Kind.isSingleByte] at h) (.unsigned ?_ ?_)
    · cases hk : info.kind <;> simp [hk, Kind.isSingleByte] at h <;> rfl
    · cases hk : info.kind <;> simp [hk, Kind.isSingleByte] at h <;> simp [Kind.InRange] <;> omega
  | _ => simp [Shape.isSingleByte] at h

/-- The parts of a conforming value conform. -/
theorem Conforms.child {t : Table} {s s' : Shape} {v v' : Value} (h : Conforms t s v)
    (hc : Format.Child t s v s' v') : Conforms t s' v' := by
  cases hc with
  | field hlive hheld =>
    cases h with
    | struct _ _ each => exact each _ hlive _ hheld
  | entry hmem =>
    cases h with
    | map _ each => exact each _ hmem
  | element hmem =>
    cases h with
    | slice each => exact each _ hmem
  | item hmem =>
    cases h with
    | array _ _ each => exact each _ hmem
    | byteArray narrow _ given =>
      rcases given with given | given
      · cases given
      · obtain rfl := Value.array.inj given
        obtain ⟨b, -, rfl⟩ := List.mem_map.1 hmem
        exact conforms_byte narrow b
  | pointee hne =>
    cases h with
    | absent => exact absurd rfl hne
    | present _ there => exact there
  | target hnamed hfound =>
    cases h with
    | identity _ found there => exact Option.some.inj (found.symm.trans hfound) ▸ there
    | scalar plain _ => exact absurd hnamed plain

/-! ## Structs whose keys can be told apart -/

namespace Shape

mutual

/-- The zids of all structs that are encoded as part of a shape can serve as keys. -/
def Keyed (p : Protocol) : Shape → Prop
  | struct info fields =>
    Format.checkKeys p info (Format.liveFields fields) = .ok () ∧ KeyedFields p fields
  | map _ value => Keyed p value
  | slice element => Keyed p element
  | array _ element => Keyed p element
  | ptr pointee => Keyed p pointee
  | base _ => True

/-- The zids of all structs that are encoded as part of live fields can serve as keys. -/
def KeyedFields (p : Protocol) : List Field → Prop
  | [] => True
  | .mk info value :: rest => (info.skip = false → Keyed p value) ∧ KeyedFields p rest

end

theorem keyedFields_iff {p : Protocol} {fields : List Field} :
    KeyedFields p fields ↔ ∀ f ∈ Format.liveFields fields, f.value.Keyed p := by
  induction fields with
  | nil => simp [KeyedFields, Format.liveFields]
  | cons f rest ih =>
    obtain ⟨info, value⟩ := f
    unfold Format.liveFields at ih ⊢
    cases hs : info.skip <;> simp [KeyedFields, ih, hs]

end Shape

/-- The zids of all structs of a table can serve as keys. -/
def Table.Keyed (t : Table) (p : Protocol) : Prop :=
  ∀ name s, t.get? name = some s → s.Keyed p

/-! ## Conforming values have an encoding -/

namespace Format

/-- The positions that the encoding of a value as a shape goes through. -/
inductive Reach (t : Table) : Shape → Value → Shape → Value → Prop where
  | here {s : Shape} {v : Value} : Reach t s v s v
  | step {s s' s'' : Shape} {v v' v'' : Value} (child : Child t s v s' v')
      (rest : Reach t s' v' s'' v'') : Reach t s v s'' v''

theorem Reach.everywhere {Q : Shape → Prop} {t : Table}
    (ht : ∀ name s, t.get? name = some s → s.Everywhere Q) {s s' : Shape} {v v' : Value}
    (hs : s.Everywhere Q) (h : Reach t s v s' v') : Q s' := by
  induction h with
  | here => exact hs.here
  | step child _ ih => exact ih (Encoder.everywhere_child ht hs child)

/-- Some struct on the way has too many fields for a 32-bit count that includes the entry which
identifies the type. -/
def Crowded (t : Table) (s : Shape) (v : Value) : Prop :=
  ∃ info fields w, Reach t s v (.struct info fields) w ∧
    UInt32.size ≤ (liveFields fields).length + 1

theorem Crowded.of_child {t : Table} {s s' : Shape} {v v' : Value} (hc : Child t s v s' v')
    (h : Crowded t s' v') : Crowded t s v := by
  obtain ⟨info, fields, w, hr, hn⟩ := h
  exact ⟨info, fields, w, .step hc hr, hn⟩

/-- A result, or a count that is too large, for the reason `C`. -/
def OnlyOverflows {α : Type} (C : Prop) (r : Except Fault α) : Prop :=
  (C ∧ r = .error .overflow) ∨ ∃ a, r = .ok a

namespace OnlyOverflows

variable {α β : Type} {C C' : Prop}

theorem ok (a : α) : OnlyOverflows C (.ok a) := Or.inr ⟨a, rfl⟩

theorem mono {r : Except Fault α} (hC : C → C') (h : OnlyOverflows C r) : OnlyOverflows C' r :=
  h.imp (And.imp_left hC) id

theorem bind {x : Except Fault α} {f : α → Except Fault β} (h : OnlyOverflows C x)
    (hf : ∀ a, x = .ok a → OnlyOverflows C (f a)) : OnlyOverflows C (x >>= f) := by
  rcases h with ⟨hC, rfl⟩ | ⟨a, rfl⟩
  · exact Or.inl ⟨hC, rfl⟩
  · exact hf a rfl

theorem gather {f : α → Except Fault Bytes} {xs : List α}
    (h : ∀ x ∈ xs, OnlyOverflows C (f x)) : OnlyOverflows C (gather f xs) := by
  induction xs with
  | nil => exact ok []
  | cons x rest ih =>
    refine (h x List.mem_cons_self).bind fun b _ => ?_
    exact (ih fun y hy => h y (List.mem_cons_of_mem _ hy)).bind fun bs _ => ok _

theorem mapStart (p : Protocol) (info : StructInfo) (n : Nat) :
    OnlyOverflows (UInt32.size ≤ n + 1) (mapStart p info n) := by
  cases p with
  | msgp2 => exact ok _
  | fast =>
    simp only [Format.mapStart]
    split
    · exact ok _
    · rename_i hfit
      have := Nat.mod_le n UInt32.size
      exact Or.inl ⟨by omega, rfl⟩

end OnlyOverflows

theorem mapM_fieldValue {struct : String} {values : List (String × Value)} {live : List Field}
    (h : ∀ f ∈ live, (Assoc.get? values f.info.name).isSome) :
    live.mapM (fieldValue struct values) =
      .ok (live.map fun f => (f, Encoder.heldFor values f)) := by
  refine Encoder.mapM_eq_ok fun f hf => ?_
  obtain ⟨v, hv⟩ := Option.isSome_iff_exists.1 (h f hf)
  simp [fieldValue, Encoder.heldFor, hv]

end Format

namespace Encoder

theorem get?_heldFor {values : List (String × Value)} {f : Field}
    (h : (Assoc.get? values f.info.name).isSome) :
    Assoc.get? values f.info.name = some (heldFor values f) := by
  obtain ⟨v, hv⟩ := Option.isSome_iff_exists.1 h
  simp [heldFor, hv]

theorem scalar_of_ofKind {k : Kind} {v : Value} (h : OfKind k v) :
    ∃ bytes, scalar k v = .ok bytes := by
  cases h with
  | signed hs => cases k <;> first | exact ⟨_, rfl⟩ | simp [Kind.isSigned] at hs
  | unsigned hs => cases k <;> first | exact ⟨_, rfl⟩ | simp [Kind.isUnsigned] at hs
  | _ => exact ⟨_, rfl⟩

theorem mapKey_of_ofKeyKind {k : KeyKind} {v : Value} (h : OfKeyKind k v) :
    ∃ bytes, mapKey k v = .ok bytes := by
  cases h <;> exact ⟨_, rfl⟩

end Encoder

namespace Format

theorem node_byteArray {t : Table} {p : Protocol} {part : Shape → Value → Except Fault Bytes}
    {info : ArrayInfo} {element : Shape} {v : Value} {data : Bytes}
    (hnarrow : element.isSingleByte = true) (hsize : info.resolved = some data.length)
    (hgiven : Given v data) : node t p part (.array info element) v = .ok (Wire.bin data) := by
  simp only [node, arrayNode, ArrayInfo.resolvedSize, hsize, ok_bind, hnarrow, if_true,
    Encoder.byteArray_eq_ok_iff.2 ⟨hgiven, rfl⟩]
  rfl

theorem node_array {t : Table} {p : Protocol} {part : Shape → Value → Except Fault Bytes}
    {info : ArrayInfo} {element : Shape} {items : List Value}
    (hwide : element.isSingleByte = false) (hsize : info.resolved = some items.length) :
    node t p part (.array info element) (.array items) = (do
      return Wire.arrayHeader (UInt32.ofNat items.length) ++ (← gather (part element) items)) := by
  simp only [node, arrayNode, ArrayInfo.resolvedSize, hsize, ok_bind, hwide, Bool.false_eq_true,
    if_false, if_true]

end Format

theorem Emptiness.holds_never (v : Value) : never.holds v = false := by
  cases v <;> rfl

/-- An empty value has no parts, and so an encoding at once. -/
theorem Format.bytes_of_isEmpty {t : Table} {p : Protocol} {s : Shape} {v : Value}
    (h : Conforms t s v) (hempty : (Emptiness.of s).holds v = true) :
    (∀ s' v', ¬Format.Child t s v s' v') ∧
      ∀ depth, ∃ b, Format.bytes t p (depth + 1) s v = .ok b := by
  cases h with
  | struct _ _ _ => cases hempty
  | array _ _ _ => cases hempty
  | byteArray _ _ _ => exact absurd hempty (by rw [Emptiness.of, Emptiness.holds_never]; simp)
  | map _ _ =>
    obtain rfl := List.isEmpty_iff.1 hempty
    exact ⟨fun s' v' hc => by cases hc; contradiction, fun _ => ⟨_, rfl⟩⟩
  | slice _ =>
    obtain rfl := List.isEmpty_iff.1 hempty
    exact ⟨fun s' v' hc => by cases hc; contradiction, fun _ => ⟨_, rfl⟩⟩
  | absent => exact ⟨fun s' v' hc => by cases hc; contradiction, fun _ => ⟨_, rfl⟩⟩
  | present hne _ =>
    cases v with
    | nil => exact absurd rfl hne
    | _ => cases hempty
  | identity hnamed _ _ =>
    rw [Emptiness.of, hnamed] at hempty
    exact absurd hempty (by rw [Emptiness.holds_never]; simp)
  | scalar hplain hholds =>
    refine ⟨fun s' v' hc => by cases hc; contradiction, fun depth => ?_⟩
    simp only [Format.bytes, Format.node, if_neg hplain]
    exact Encoder.scalar_of_ofKind hholds

namespace Encoder

open Format (OnlyOverflows Crowded)

/-- The encoder gives bytes for every value of a declared type whose keys can be told apart,
unless some struct has too many fields. -/
theorem encodeShape_of_conforms (e : Encoder) (ht : e.table.IsFinal)
    (hk : e.table.Keyed e.protocol) {s : Shape} {v : Value} (h : Conforms e.table s v)
    (hs : s.IsFinal) (hks : s.Keyed e.protocol) :
    OnlyOverflows (Crowded e.table s v) (e.encodeShape s v) := by
  induction h with
  | @struct info fields values hnodup hheld _ ih =>
    rw [encodeShape_eq_node e ht hs]
    -- fields that are left out are covered too: they have encodings that the struct does not use
    have hpart : ∀ x ∈ heldFields fields values, OnlyOverflows
        (Crowded e.table (.struct info fields) (.record values)) (e.encodeShape x.1.value x.2) := by
      intro x hx
      obtain ⟨f, hf, rfl⟩ := List.mem_map.1 hx
      have hget := get?_heldFor (hheld f hf)
      refine (ih f hf _ hget (hs.field (List.mem_filter.1 hf).1)
        (Shape.keyedFields_iff.1 hks.2 f hf)).mono ?_
      exact Crowded.of_child (.field hf hget)
    simp only [Format.node]
    rw [structNode_eq hks.1 (Format.mapM_fieldValue hheld)]
    refine OnlyOverflows.bind ?_ fun start _ => OnlyOverflows.bind
      (OnlyOverflows.gather fun x hx => ?_) fun _ _ => .ok _
    · unfold structStart
      split
      · exact .ok _
      · refine (OnlyOverflows.mapStart _ _ _).mono fun hn => ?_
        refine ⟨info, fields, _, .here, Nat.le_trans hn (Nat.succ_le_succ ?_)⟩
        refine Nat.le_trans (List.length_filter_le _ _) ?_
        simp [heldFields]
    · unfold fieldBytes
      split
      · exact hpart x hx
      · split
        · exact (hpart x hx).bind fun _ _ => .ok _
        · exact .ok _
  | @map key value entries hkeys _ ih =>
    rw [encodeShape_eq_node e ht hs]
    refine OnlyOverflows.bind (OnlyOverflows.gather fun x hx => ?_) fun _ _ => .ok _
    obtain ⟨bytes, hbytes⟩ := mapKey_of_ofKeyKind (hkeys x hx)
    rw [hbytes, ok_bind]
    exact ((ih x hx hs.2 hks).mono (Crowded.of_child (.entry hx))).bind fun _ _ => .ok _
  | @slice element items _ ih =>
    rw [encodeShape_eq_node e ht hs]
    refine OnlyOverflows.bind (OnlyOverflows.gather fun x hx => ?_) fun _ _ => .ok _
    exact (ih x hx hs.2 hks).mono (Crowded.of_child (.element hx))
  | @array info element items hwide hsize _ ih =>
    rw [encodeShape_eq_node e ht hs]
    rw [Format.node_array hwide hsize]
    refine OnlyOverflows.bind (OnlyOverflows.gather fun x hx => ?_) fun _ _ => .ok _
    exact (ih x hx hs.2 hks).mono (Crowded.of_child (.item hx))
  | @byteArray info element v data hnarrow hsize hgiven =>
    rw [encodeShape_eq_node e ht hs]
    rw [Format.node_byteArray hnarrow hsize hgiven]
    exact .ok _
  | absent =>
    rw [encodeShape_eq_node e ht hs]
    exact .ok _
  | @present pointee v hne _ ih =>
    rw [encodeShape_eq_node e ht hs]
    rw [Format.node_ptr hne]
    exact (ih hs.2 hks).mono (Crowded.of_child (.pointee hne))
  | @identity info target v hnamed hfound _ ih =>
    rw [encodeShape_eq_node e ht hs]
    simp only [Format.node, if_pos hnamed, hfound]
    exact (ih (ht _ _ hfound).1 (hk _ _ hfound)).mono (Crowded.of_child (.target hnamed hfound))
  | @scalar info v hplain hholds =>
    rw [encodeShape_eq_node e ht hs]
    obtain ⟨bytes, hbytes⟩ := scalar_of_ofKind hholds
    simp only [Format.node, if_neg hplain, hbytes]
    exact .ok _

end Encoder

end Packwright
