import Packwright.Proofs.Unambiguous

/-
  Encodings are objects. `Denotes t p s v c`: the object `c` is what the format makes of the value
  `v` as the shape `s`. A tuple is an array with one element for each live field, any other struct
  a map with one entry for each live field that it does not leave out, and one more that identifies
  its type under the fast protocol; slices, maps and arrays have as many members as the value.

  `encode_isObject`: the reader takes an encoding for exactly one object, with no byte missing or
  left over, and that object is the one denoted. So the headers, which are computed apart from what
  follows them, count what follows them.
-/

namespace Packwright

/-! ## Objects of a known form -/

namespace Wire

/-- Bytes that are read as one object, whatever stands behind them. -/
def ReadAs (depth : Nat) (b : Bytes) (c : Canonical) : Prop :=
  ∀ r, readValue depth (b ++ r) = some (c, r)

theorem readMany_cons {α : Type} {read : Bytes → Option (α × Bytes)} {n : Nat} {first rest : Bytes}
    {x : α} {xs : List α} (hx : ∀ r, read (first ++ r) = some (x, r))
    (hxs : ∀ r, readMany read n (rest ++ r) = some (xs, r)) (r : Bytes) :
    readMany read (n + 1) (first ++ rest ++ r) = some (x :: xs, r) := by
  rw [List.append_assoc, readMany, hx]
  simp only [Option.bind_eq_bind, Option.bind_some, hxs]
  rfl

/-- The members of a list, written one after another, are read back one by one. -/
theorem readMany_gather {α β : Type} {g : Bytes → Option (β × Bytes)}
    {f : α → Except Fault Bytes} {R : α → β → Prop} {xs : List α} {b : Bytes}
    (hb : Format.gather f xs = .ok b)
    (heach : ∀ x ∈ xs, ∀ a, f x = .ok a → ∃ y, R x y ∧ ∀ r, g (a ++ r) = some (y, r)) :
    ∃ ys, ys.length = xs.length ∧ (∀ z ∈ xs.zip ys, R z.1 z.2) ∧
      ∀ r, readMany g xs.length (b ++ r) = some (ys, r) := by
  induction xs generalizing b with
  | nil =>
    obtain rfl := Except.ok.inj hb
    exact ⟨[], rfl, by simp, fun r => rfl⟩
  | cons x rest ih =>
    obtain ⟨a, as, ha, has, rfl⟩ := Format.gather_cons_eq_ok hb
    obtain ⟨y, hy, hread⟩ := heach x List.mem_cons_self a ha
    obtain ⟨ys, hlen, hys, hmany⟩ := ih has fun z hz => heach z (List.mem_cons_of_mem _ hz)
    refine ⟨y :: ys, by rw [List.length_cons, List.length_cons, hlen], ?_,
      readMany_cons hread hmany⟩
    rw [List.zip_cons_cons, List.forall_mem_cons]
    exact ⟨hy, hys⟩

theorem readAs_array {depth n : Nat} {b : Bytes} {items : List Canonical} (hn : n < UInt32.size)
    (h : ∀ r, readMany (readValue depth) n (b ++ r) = some (items, r)) :
    ReadAs (depth + 1) (arrayHeader (UInt32.ofNat n) ++ b) (.array items) := by
  intro r
  rw [readValue, List.append_assoc, readToken_arrayHeader]
  simp only [Option.bind_eq_bind, Option.bind_some, toNat_ofNat_length hn, h]
  rfl

theorem readAs_map {depth n : Nat} {b : Bytes} {entries : List (Canonical × Canonical)}
    (hn : n < UInt32.size)
    (h : ∀ r, readMany (readPair (readValue depth)) n (b ++ r) = some (entries, r)) :
    ReadAs (depth + 1) (mapHeader (UInt32.ofNat n) ++ b) (.map entries) := by
  intro r
  rw [readValue, List.append_assoc, readToken_mapHeader]
  simp only [Option.bind_eq_bind, Option.bind_some, toNat_ofNat_length hn, h]
  rfl

theorem readAs_dynamic {v : Value} (h : v.Short) {depth : Nat} (hdepth : v.height < depth) :
    ReadAs depth v.dynamic v.canonical :=
  readValue_dynamic h hdepth

end Wire

namespace Encoder

/-- A floating point number at the width that its kind declares, and any other value as it is. -/
def atWidth : Kind → Value → Value
  | .float32, .float64 bits => .float32 (FloatBits.narrow bits)
  | .float64, .float32 bits => .float64 (FloatBits.widen bits)
  | _, v => v

theorem scalar_eq_atWidth {k : Kind} {v : Value} {b : Bytes} (h : scalar k v = .ok b) :
    b = (atWidth k v).dynamic := by
  cases leaf_of_scalar h with
  | signed hk n => cases k <;> rfl
  | unsigned hk n => cases k <;> rfl
  | _ => rfl

theorem readAs_scalar {k : Kind} {v : Value} {b : Bytes} (h : scalar k v = .ok b) (hv : v.Short)
    {depth : Nat} (hdepth : v.height < depth) :
    Wire.ReadAs depth b (atWidth k v).canonical := by
  obtain rfl := scalar_eq_atWidth h
  unfold atWidth
  split
  · exact Wire.readAs_dynamic (.float32 _) hdepth
  · exact Wire.readAs_dynamic (.float64 _) hdepth
  · exact Wire.readAs_dynamic hv hdepth

end Encoder

/-! ## What an encoding denotes -/

namespace Format

/-- The live fields that a struct does not leave out of a record. -/
def presentFields (p : Protocol) (info : StructInfo) (fields : List Field)
    (values : List (String × Value)) : List Field :=
  (liveFields fields).filter fun f => !leavesOut p info f (Encoder.heldFor values f)

/-- The entry that identifies the type of a struct, under the fast protocol. -/
def identifyingEntry (p : Protocol) (info : StructInfo) : List (Canonical × Canonical) :=
  match p with
  | .fast => [(.integer (-1), .bin (utf8 info.name))]
  | .msgp2 => []

/-- The lengths of the names in a struct and the number of its live fields fit 32 bits. -/
def LengthsFit : Shape → Prop
  | .struct info fields =>
    (utf8 info.name).length < UInt32.size ∧ ShortStruct (.struct info fields)
  | _ => True

end Format

/-- The object that stands for a value as a shape. -/
inductive Denotes (t : Table) (p : Protocol) : Shape → Value → Canonical → Prop where
  /-- A tuple is an array of all live fields. -/
  | tuple {info : StructInfo} {fields : List Field} {values : List (String × Value)}
      {items : List Canonical} (positional : info.asTuple = true)
      (held : ∀ f ∈ Format.liveFields fields, (Assoc.get? values f.info.name).isSome)
      (count : items.length = (Format.liveFields fields).length)
      (each : ∀ x ∈ (Format.liveFields fields).zip items,
        Denotes t p x.1.value (Encoder.heldFor values x.1) x.2) :
      Denotes t p (.struct info fields) (.record values) (.array items)
  /-- Any other struct is a map of the live fields that it does not leave out. -/
  | keyed {info : StructInfo} {fields : List Field} {values : List (String × Value)}
      {entries : List (Canonical × Canonical)} (keyed : info.asTuple = false)
      (held : ∀ f ∈ Format.liveFields fields, (Assoc.get? values f.info.name).isSome)
      (count : entries.length = (Format.presentFields p info fields values).length)
      (keys : ∀ x ∈ (Format.presentFields p info fields values).zip entries,
        x.2.1 = (Format.keyValue p info x.1).canonical)
      (each : ∀ x ∈ (Format.presentFields p info fields values).zip entries,
        Denotes t p x.1.value (Encoder.heldFor values x.1) x.2.2) :
      Denotes t p (.struct info fields) (.record values)
        (.map (Format.identifyingEntry p info ++ entries))
  | map {key : KeyKind} {value : Shape} {entries : List (Value × Value)}
      {objects : List (Canonical × Canonical)} (count : objects.length = entries.length)
      (keys : ∀ x ∈ entries.zip objects, x.2.1 = x.1.1.canonical)
      (each : ∀ x ∈ entries.zip objects, Denotes t p value x.1.2 x.2.2) :
      Denotes t p (.map key value) (.map entries) (.map objects)
  | slice {element : Shape} {items : List Value} {objects : List Canonical}
      (count : objects.length = items.length)
      (each : ∀ x ∈ items.zip objects, Denotes t p element x.1 x.2) :
      Denotes t p (.slice element) (.array items) (.array objects)
  | array {info : ArrayInfo} {element : Shape} {items : List Value} {objects : List Canonical}
      (wide : element.isSingleByte = false) (count : objects.length = items.length)
      (each : ∀ x ∈ items.zip objects, Denotes t p element x.1 x.2) :
      Denotes t p (.array info element) (.array items) (.array objects)
  /-- An array of bytes, given as a whole or as its elements, is one byte string. -/
  | byteArray {info : ArrayInfo} {element : Shape} {v : Value} {data : Bytes}
      (narrow : element.isSingleByte = true)
      (given : v = .bin data ∨ v = .array (data.map fun b => .uint b.toUInt64)) :
      Denotes t p (.array info element) v (.bin data)
  | absent {pointee : Shape} : Denotes t p (.ptr pointee) .nil .nil
  | present {pointee : Shape} {v : Value} {c : Canonical} (present : v ≠ .nil)
      (there : Denotes t p pointee v c) : Denotes t p (.ptr pointee) v c
  | identity {info : BaseInfo} {target : Shape} {v : Value} {c : Canonical}
      (named : info.kind = .identifier) (found : t.get? (info.typeName.getD "") = some target)
      (there : Denotes t p target v c) : Denotes t p (.base info) v c
  | scalar {info : BaseInfo} {v : Value} (plain : info.kind ≠ .identifier) :
      Denotes t p (.base info) v (Encoder.atWidth info.kind v).canonical

namespace Format

section

variable {t : Table} {p : Protocol} {part : Shape → Value → Except Fault Bytes} {depth : Nat}
  {b : Bytes}

/-- The bytes that an encoder gives for a value are read as an object that stands for it. -/
def Read (t : Table) (p : Protocol) (depth : Nat) (s : Shape) (v : Value) (b : Bytes) : Prop :=
  ∃ c, Denotes t p s v c ∧ Wire.ReadAs depth b c

theorem filter_present {key : Field → Bytes} {out : Field → Bool} {w : Field → Value}
    (live : List Field) :
    gather (entryBytes key part out w) live =
      gather (fun f => do return key f ++ (← part f.value (w f)))
        (live.filter fun f => !out f) := by
  rw [Encoder.gather_filter]
  refine gather_congr fun f _ => ?_
  rw [entryBytes]
  cases out f <;> rfl

theorem read_tuple {info : StructInfo} {fields : List Field} {values : List (String × Value)}
    (hs : (Shape.struct info fields).IsFinalNode) (hfit : LengthsFit (.struct info fields))
    (ht : info.asTuple = true) (hb : structNode p part info fields values = .ok b)
    (heach : ∀ f ∈ liveFields fields, ∀ w a, Assoc.get? values f.info.name = some w →
      part f.value w = .ok a → Read t p depth f.value w a) :
    Read t p (depth + 1) (.struct info fields) (.record values) b := by
  obtain ⟨-, hheld, start, rest, hstart, hrest, rfl⟩ := structNode_eq_ok hs hb
  rw [Encoder.structStart, if_pos ht] at hstart
  obtain rfl := Except.ok.inj hstart
  obtain ⟨items, hlen, hitems, hread⟩ := Wire.readMany_gather
    (R := fun f c => Denotes t p f.value (Encoder.heldFor values f) c) hrest (by
      intro f hf a ha
      obtain ⟨a', ha', rfl⟩ := entryBytes_eq_ok ha (leavesOut_tuple ht f _)
      rw [slotKey, slotOf_tuple ht, List.nil_append]
      exact heach f hf _ a' (Encoder.get?_heldFor (hheld f hf)) ha')
  exact ⟨.array items, .tuple ht hheld hlen hitems, Wire.readAs_array hfit.2.1 hread⟩

theorem height_keyValue (info : StructInfo) (f : Field) : (keyValue p info f).height = 0 := by
  unfold keyValue
  split <;> rfl

/-- A map of entries behind the start of a struct is read as one object. -/
theorem readAs_mapStart {info : StructInfo} {n : Nat} {start rest : Bytes}
    {entries : List (Canonical × Canonical)} (hname : (utf8 info.name).length < UInt32.size)
    (hn : n < UInt32.size) (hstart : mapStart p info n = .ok start)
    (hrest : ∀ r, Wire.readMany (Wire.readPair (Wire.readValue (depth + 1))) n (rest ++ r) =
      some (entries, r)) :
    Wire.ReadAs (depth + 2) (start ++ rest) (.map (identifyingEntry p info ++ entries)) := by
  cases p with
  | msgp2 =>
    obtain rfl := Except.ok.inj hstart
    exact Wire.readAs_map hn hrest
  | fast =>
    simp only [mapStart, Nat.mod_eq_of_lt hn] at hstart
    split at hstart
    · rename_i hsum
      obtain rfl := Except.ok.inj hstart
      rw [List.append_assoc]
      refine Wire.readAs_map (by omega) ?_
      rw [Nat.add_comm 1 n]
      refine Wire.readMany_cons (fun r => ?_) hrest
      exact Wire.readPair_append (Wire.readAs_dynamic (.int (-1)) (Nat.succ_pos depth))
        (Wire.readAs_dynamic (.bin hname) (Nat.succ_pos depth))
    · cases hstart

theorem read_keyed {info : StructInfo} {fields : List Field} {values : List (String × Value)}
    (hs : (Shape.struct info fields).IsFinalNode) (hfit : LengthsFit (.struct info fields))
    (ht : info.asTuple = false) (hb : structNode p part info fields values = .ok b)
    (heach : ∀ f ∈ liveFields fields, ∀ w a, Assoc.get? values f.info.name = some w →
      part f.value w = .ok a → Read t p (depth + 1) f.value w a) :
    Read t p (depth + 2) (.struct info fields) (.record values) b := by
  obtain ⟨-, hheld, start, rest, hstart, hrest, rfl⟩ := structNode_eq_ok hs hb
  rw [Encoder.structStart, if_neg (by simp [ht]), countP_present hs ht,
    List.countP_eq_length_filter] at hstart
  rw [filter_present] at hrest
  obtain ⟨entries, hlen, hentries, hread⟩ := Wire.readMany_gather
    (R := fun f e => e.1 = (keyValue p info f).canonical ∧
      Denotes t p f.value (Encoder.heldFor values f) e.2)
    (g := Wire.readPair (Wire.readValue (depth + 1))) hrest (by
      intro f hf a ha
      obtain ⟨a', ha', ha⟩ := bind_eq_ok ha
      obtain rfl := Except.ok.inj ha
      have hlive := (List.mem_filter.1 hf).1
      obtain ⟨c, hc, hread⟩ := heach f hlive _ a' (Encoder.get?_heldFor (hheld f hlive)) ha'
      refine ⟨((keyValue p info f).canonical, c), ⟨rfl, hc⟩, fun r => ?_⟩
      rw [slotKey, slotOf_key ht, key_eq_dynamic]
      refine Wire.readPair_append (Wire.readAs_dynamic ?_ ?_) hread
      · exact short_keyValue p info (hfit.2.2 f hlive)
      · rw [height_keyValue]
        exact Nat.succ_pos depth)
  refine ⟨_, .keyed ht hheld hlen (fun x hx => (hentries x hx).1) fun x hx => (hentries x hx).2, ?_⟩
  refine readAs_mapStart hfit.1 ?_ hstart hread
  exact Nat.lt_of_le_of_lt (List.length_filter_le _ _) hfit.2.1

theorem read_map {key : KeyKind} {value : Shape} {entries : List (Value × Value)}
    (hv : (Value.map entries).Short)
    (hb : gather (fun e => do return (← Encoder.mapKey key e.1) ++ (← part value e.2)) entries =
      .ok b)
    (hkeys : ∀ e ∈ entries, e.1.height < depth)
    (heach : ∀ e ∈ entries, ∀ a, part value e.2 = .ok a → Read t p depth value e.2 a) :
    Read t p (depth + 1) (.map key value) (.map entries)
      (Wire.mapHeader (UInt32.ofNat entries.length) ++ b) := by
  cases hv with
  | map hlen hshort _ =>
    obtain ⟨objects, hcount, hobjects, hread⟩ := Wire.readMany_gather
      (R := fun e o => o.1 = e.1.canonical ∧ Denotes t p value e.2 o.2)
      (g := Wire.readPair (Wire.readValue depth)) hb (by
        intro e he a ha
        obtain ⟨k, hk, ha⟩ := bind_eq_ok ha
        obtain ⟨x, hx, ha⟩ := bind_eq_ok ha
        obtain rfl := Except.ok.inj ha
        obtain ⟨c, hc, hread⟩ := heach e he x hx
        obtain rfl := Encoder.scalar_eq_dynamic (Encoder.scalar_of_mapKey hk)
          (fun hf => by cases key <;> cases hf) fun hf => by cases key <;> cases hf
        refine ⟨(e.1.canonical, c), ⟨rfl, hc⟩, fun r => ?_⟩
        exact Wire.readPair_append (Wire.readAs_dynamic (hshort e he) (hkeys e he)) hread)
    exact ⟨.map objects, .map hcount (fun x hx => (hobjects x hx).1) fun x hx => (hobjects x hx).2,
      Wire.readAs_map hlen hread⟩

/-- The elements of a list behind their header are read as one array. -/
theorem read_items {element : Shape} {items : List Value} (hv : (Value.array items).Short)
    (hb : gather (part element) items = .ok b)
    (heach : ∀ w ∈ items, ∀ a, part element w = .ok a → Read t p depth element w a) :
    ∃ objects : List Canonical, objects.length = items.length ∧
      (∀ x ∈ items.zip objects, Denotes t p element x.1 x.2) ∧
      Wire.ReadAs (depth + 1) (Wire.arrayHeader (UInt32.ofNat items.length) ++ b)
        (.array objects) := by
  cases hv with
  | array hlen _ =>
    obtain ⟨objects, hcount, hobjects, hread⟩ := Wire.readMany_gather
      (R := fun w c => Denotes t p element w c) hb heach
    exact ⟨objects, hcount, hobjects, Wire.readAs_array hlen hread⟩

end

/-- An encoding is read as the object it denotes, as soon as the reader may go as deep as the
value. -/
theorem read_bytes {t : Table} {p : Protocol} (hT : t.IsFinal)
    (hfit : ∀ name s, t.get? name = some s → s.Everywhere LengthsFit) {fuel : Nat} {s : Shape}
    {v : Value} {b : Bytes} (hs : s.IsFinal) (hsf : s.Everywhere LengthsFit) (hv : v.Short)
    (hb : bytes t p fuel s v = .ok b) {depth : Nat} (hdepth : v.height < depth) :
    Read t p depth s v b := by
  induction fuel generalizing s v b depth with
  | zero => cases hb
  | succ fuel ih =>
    have hchild {s' : Shape} {w : Value} {a : Bytes} {k : Nat} (hc : Child t s v s' w)
        (hk : w.height < k) (ha : bytes t p fuel s' w = .ok a) : Read t p k s' w a :=
      ih (Encoder.isFinal_child hT hs hc) (Encoder.everywhere_child hfit hsf hc)
        (short_child hv hc) ha hk
    rw [bytes] at hb
    cases s with
    | struct info fields =>
      cases v with
      | record values =>
        simp only [Value.height] at hdepth
        obtain ⟨k, rfl⟩ : ∃ k, depth = k + 2 := ⟨depth - 2, by omega⟩
        have heach : ∀ f ∈ liveFields fields, ∀ w a, Assoc.get? values f.info.name = some w →
            bytes t p fuel f.value w = .ok a → Read t p (k + 1) f.value w a := by
          intro f hf w a hw ha
          have hheight : w.height ≤ _ := Value.height_le_fieldHeights (Assoc.mem_of_get? hw)
          exact hchild (.field hf hw) (by omega) ha
        cases ht : info.asTuple with
        | true => exact read_tuple hs.here hsf.here ht hb heach
        | false => exact read_keyed hs.here hsf.here ht hb heach
      | _ => cases hb
    | map key value =>
      cases v with
      | map entries =>
        simp only [Value.height] at hdepth
        obtain ⟨k, rfl⟩ : ∃ k, depth = k + 1 := ⟨depth - 1, by omega⟩
        obtain ⟨rest, hrest, hb⟩ := bind_eq_ok hb
        obtain rfl := Except.ok.inj hb
        refine read_map hv hrest (fun e he => ?_) fun e he a ha => ?_
        · have hheight := (Value.height_le_entryHeights he).1
          omega
        · have hheight := (Value.height_le_entryHeights he).2
          exact hchild (.entry he) (by omega) ha
      | _ => cases hb
    | slice element =>
      cases v with
      | array items =>
        simp only [Value.height] at hdepth
        obtain ⟨k, rfl⟩ : ∃ k, depth = k + 1 := ⟨depth - 1, by omega⟩
        obtain ⟨rest, hrest, hb⟩ := bind_eq_ok hb
        obtain rfl := Except.ok.inj hb
        obtain ⟨objects, hcount, hobjects, hread⟩ := read_items hv hrest fun w hw a ha => by
          have hheight := Value.height_le_heights hw
          exact hchild (.element hw) (k := k) (by omega) ha
        exact ⟨.array objects, .slice hcount hobjects, hread⟩
      | _ => cases hb
    | array info element =>
      obtain ⟨hnarrow, data, rfl, hgiven⟩ | ⟨hwide, items, rest, rfl, hrest, rfl⟩ :=
        arrayNode_eq_ok hb
      · have hlen := length_of_given hv hgiven
        exact ⟨.bin data, .byteArray hnarrow hgiven,
          Wire.readAs_dynamic (.bin hlen) (Nat.lt_of_le_of_lt (Nat.zero_le _) hdepth)⟩
      · simp only [Value.height] at hdepth
        obtain ⟨k, rfl⟩ : ∃ k, depth = k + 1 := ⟨depth - 1, by omega⟩
        obtain ⟨objects, hcount, hobjects, hread⟩ := read_items hv hrest fun w hw a ha => by
          have hheight := Value.height_le_heights hw
          exact hchild (.item hw) (k := k) (by omega) ha
        exact ⟨.array objects, .array hwide hcount hobjects, hread⟩
    | ptr pointee =>
      by_cases hn : v = .nil
      · subst hn
        obtain rfl := Except.ok.inj hb
        exact ⟨.nil, .absent, Wire.readAs_dynamic .nil hdepth⟩
      · rw [node_ptr hn] at hb
        obtain ⟨c, hc, hread⟩ := hchild (.pointee hn) hdepth hb
        exact ⟨c, .present hn hc, hread⟩
    | base info =>
      simp only [node] at hb
      split at hb
      · rename_i hnamed
        split at hb
        · rename_i target hfound
          obtain ⟨c, hc, hread⟩ := hchild (.target hnamed hfound) hdepth hb
          exact ⟨c, .identity hnamed hfound hc, hread⟩
        · cases hb
      · rename_i hplain
        exact ⟨_, .scalar hplain, Encoder.readAs_scalar hb hv hdepth⟩

end Format

namespace Encoder

/-- Over a finalized table, every encoding is exactly one object, and that object has the members
that the format says. Lengths fit 32 bits, those of names and of structs included. -/
theorem encode_isObject (d : Directives) (t : Table) (p : Protocol) (fuse : Bool)
    (hfit : ∀ name s, ((Pipeline.standard d).finalizeAll t).get? name = some s →
      s.Everywhere Format.LengthsFit)
    (name : String) (v : Value) (hv : v.Short) (b : Bytes)
    (hb : (Encoder.mk ((Pipeline.standard d).finalizeAll t) p fuse).encode name v = .ok b) :
    ∃ s c, ((Pipeline.standard d).finalizeAll t).get? name = some s ∧
      Wire.readValue (v.height + 1) b = some (c, []) ∧
      Denotes ((Pipeline.standard d).finalizeAll t) p s v c := by
  let e := Encoder.mk ((Pipeline.standard d).finalizeAll t) p fuse
  have ht : e.table.IsFinal := Table.isFinal_finalizeAll d t
  cases hget : e.table.get? name with
  | none =>
    rw [encode, hget] at hb
    cases hb
  | some s =>
    have hfinal : s.IsFinal := (ht name s hget).1
    rw [encode_eq_encodeShape e hget, encodeShape_eq_bytes e ht hfinal] at hb
    obtain ⟨c, hc, hread⟩ := Format.read_bytes ht hfit hfinal (hfit name s hget) hv hb
      (Nat.lt_succ_self v.height)
    have hwhole := hread []
    rw [List.append_nil] at hwhole
    exact ⟨s, c, rfl, hwhole, hc⟩

/-- A place on a route, which is written as a tuple. -/
def stop : Shape := .struct { name := "Stop", asTuple := true, skipCount := 1 } [
  .mk { name := "mark" } (.array { size := "2", resolved := some 2 } (.ofKind .byte)),
  .mk { name := "cache", skip := true } (.ofKind .bytes),
  .mk { name := "height" } (.ofKind .float32)]

/-- A route with its stops, remarks of any kind, and perhaps the route that follows it. -/
def route : Shape := .struct { name := "Route" } [
  .mk { zid := 0, name := "stops" } (.slice stop),
  .mk { zid := 1, name := "remarks" } (.map .string (.ofKind .interface)),
  .mk { zid := 4, name := "next" } (.ptr (.ident "Route"))]

def routeTable : Table := Table.ofList [("Route", route)]

/-- A route without remarks that is followed by one without stops. -/
def routeValue : Value := .record [
  ("stops", .array [.record [("mark", .bin [1, 2]), ("height", .float64 0x4000000000000000)]]),
  ("remarks", .map []),
  ("next", .record [("stops", .array []), ("remarks", .map [(.str "a", .uint 5)]),
    ("next", .nil)])]

def routeBytes : Bytes := [0x83, 0xff, 0xc4, 5, 82, 111, 117, 116, 101, 0, 0x91, 0x92, 0xc4, 2,
  1, 2, 0xca, 0x40, 0, 0, 0, 4, 0x82, 0xff, 0xc4, 5, 82, 111, 117, 116, 101, 1, 0x81, 0xa1, 97, 5]

def routeObject : Canonical := .map [
  (.integer (-1), .bin [82, 111, 117, 116, 101]),
  (.integer 0, .array [.array [.bin [1, 2], .float32 0x40000000]]),
  (.integer 4, .map [
    (.integer (-1), .bin [82, 111, 117, 116, 101]), (.integer 1, .map [(.str "a", .integer 5)])])]

set_option maxRecDepth 1000 in
theorem readValue_routeBytes :
    Wire.readValue (routeValue.height + 1) routeBytes = some (routeObject, []) := rfl

theorem short_routeValue : routeValue.Short := by
  have hroute {stops remarks next : Value} (hstops : stops.Short) (hremarks : remarks.Short)
      (hnext : next.Short) :
      (Value.record [("stops", stops), ("remarks", remarks), ("next", next)]).Short := by
    have hnames : ∀ name ∈ ["stops", "remarks", "next"], (utf8 name).length < UInt32.size := by
      decide +kernel
    refine .record (by simp [UInt32.size]) (fun e he => hnames e.1 (List.mem_map_of_mem he)) ?_
    exact List.forall_mem_cons.2 ⟨hstops, List.forall_mem_cons.2 ⟨hremarks,
      List.forall_mem_singleton.2 hnext⟩⟩
  have hstop : (Value.record [("mark", .bin [1, 2]),
      ("height", .float64 0x4000000000000000)]).Short := by
    have hnames : ∀ name ∈ ["mark", "height"], (utf8 name).length < UInt32.size := by
      decide +kernel
    refine .record (by simp [UInt32.size]) (fun e he => hnames e.1 (List.mem_map_of_mem he)) ?_
    exact List.forall_mem_cons.2 ⟨.bin (by decide), List.forall_mem_singleton.2 (.float64 _)⟩
  have hremark : (Value.map [(.str "a", .uint 5)]).Short :=
    .map (by simp [UInt32.size]) (List.forall_mem_singleton.2 (.str (by decide +kernel)))
      (List.forall_mem_singleton.2 (.uint 5))
  exact hroute (.array (by simp [UInt32.size]) (List.forall_mem_singleton.2 hstop))
    (.map (by simp [UInt32.size]) (by simp) (by simp))
    (hroute (.array (by simp [UInt32.size]) (by simp)) hremark .nil)

/-- The first route leaves out its remarks and the second its stops and what follows it; the tuple
has both its live fields, the height at the declared width. -/
theorem encode_route_isObject : routeValue.Short ∧
    (Encoder.mk ((Pipeline.standard {}).finalizeAll routeTable) .fast true).encode "Route"
      routeValue = .ok routeBytes ∧
    Denotes ((Pipeline.standard {}).finalizeAll routeTable) .fast route routeValue
      routeObject := by
  have hfit : ∀ name s, ((Pipeline.standard {}).finalizeAll routeTable).get? name = some s →
      s.Everywhere Format.LengthsFit := by
    intro name s hs
    change (if "Route" = name then some route else none) = some s at hs
    split at hs
    · obtain rfl := Option.some.inj hs
      have hstop : stop.Everywhere Format.LengthsFit :=
        ⟨⟨by decide +kernel, by decide, by decide +kernel⟩, ⟨trivial, trivial⟩, trivial, trivial,
          trivial⟩
      exact ⟨⟨by decide +kernel, by decide, by decide +kernel⟩, ⟨trivial, hstop⟩,
        ⟨trivial, trivial⟩, ⟨trivial, trivial⟩, trivial⟩
    · cases hs
  have hencode : (Encoder.mk ((Pipeline.standard {}).finalizeAll routeTable) .fast true).encode
      "Route" routeValue = .ok routeBytes := rfl
  obtain ⟨s, c, hget, hread, hc⟩ := encode_isObject {} routeTable .fast true hfit "Route"
    routeValue short_routeValue routeBytes hencode
  obtain rfl : route = s := Option.some.inj hget
  obtain rfl := (Prod.mk.inj (Option.some.inj (readValue_routeBytes.symm.trans hread))).1
  exact ⟨short_routeValue, hencode, hc⟩

end Encoder

end Packwright
