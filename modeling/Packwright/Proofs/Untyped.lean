import Packwright.Proofs.Inert
import Packwright.Proofs.Unambiguous

/-
  Encoding with and without a shape. `Value.dynamic` goes by the value alone, the encoder by the
  shape: it takes headers and keys from the layout of a struct and has cases of its own for
  pointers and fixed arrays. Where a shape is `Plain` its structs are maps under the names of
  their fields that leave nothing out, and a value that is `Native` to it is written as the shape
  would have it, so the two meet at every level.

  `encodeShape_eq_dynamic`: what the encoder makes of such a value is its dynamic encoding. The
  induction is on the depth of the encoder; `structNode_eq_dynamic` is its step at a struct, where
  the count in the planned header has to be the length of the record.
-/

namespace Packwright

/-! ## Shapes and values that say the same -/

namespace Shape

mutual

/-- As far as a shape is encoded it names no identities, and its structs are maps with string keys
and without tags. -/
def Plain : Shape → Prop
  | struct info fields =>
    info.asTuple = false ∧ info.keyKind = .string ∧
      (∀ f ∈ Format.liveFields fields, f.info.omitEmpty = false) ∧ PlainFields fields
  | map _ value => Plain value
  | slice element => Plain element
  | array _ element => Plain element
  | ptr pointee => Plain pointee
  | base info => info.kind ≠ .identifier

/-- The shapes of all live fields are plain. -/
def PlainFields : List Field → Prop
  | [] => True
  | .mk info value :: rest => (info.skip = false → Plain value) ∧ PlainFields rest

end

theorem plainFields_iff {fields : List Field} :
    PlainFields fields ↔ ∀ f ∈ Format.liveFields fields, f.value.Plain := by
  induction fields with
  | nil => simp [PlainFields, Format.liveFields]
  | cons f rest ih =>
    obtain ⟨info, value⟩ := f
    rw [Format.liveFields_cons, PlainFields, ih]
    cases hskip : info.skip <;> simp [hskip]

end Shape

/-- Values of the kinds that a shape declares: floating point numbers have the declared width, a
byte array is given as a whole, and a record holds the live fields of its struct and no others,
in order of declaration. -/
inductive Native : Shape → Value → Prop where
  | struct {info : StructInfo} {fields : List Field} {values : List (String × Value)}
      (distinct : (Assoc.names values).Nodup)
      (names : Assoc.names values = (Format.liveFields fields).map fun f => f.info.name)
      (each : ∀ f ∈ Format.liveFields fields, ∀ v, Assoc.get? values f.info.name = some v →
        Native f.value v) :
      Native (.struct info fields) (.record values)
  | map {key : KeyKind} {value : Shape} {entries : List (Value × Value)}
      (each : ∀ e ∈ entries, Native value e.2) : Native (.map key value) (.map entries)
  | slice {element : Shape} {items : List Value} (each : ∀ v ∈ items, Native element v) :
      Native (.slice element) (.array items)
  | array {info : ArrayInfo} {element : Shape} {items : List Value}
      (wide : element.isSingleByte = false) (each : ∀ v ∈ items, Native element v) :
      Native (.array info element) (.array items)
  | byteArray {info : ArrayInfo} {element : Shape} {data : Bytes}
      (narrow : element.isSingleByte = true) : Native (.array info element) (.bin data)
  | absent {pointee : Shape} : Native (.ptr pointee) .nil
  | present {pointee : Shape} {v : Value} (there : Native pointee v) : Native (.ptr pointee) v
  | scalar {info : BaseInfo} {v : Value} (single : info.kind = .float32 → ∃ bits, v = .float32 bits)
      (double : info.kind = .float64 → ∃ bits, v = .float64 bits) : Native (.base info) v

/-! ## One level -/

/-- A list with distinct names is given by its names and what it holds under them. -/
theorem Assoc.eq_map_names {α : Type} {entries : List (String × α)}
    (distinct : (names entries).Nodup) (default : α) :
    entries = (names entries).map fun name => (name, (get? entries name).getD default) := by
  rw [names, List.map_map]
  refine (List.map_id entries).symm.trans (List.map_congr_left fun e he => ?_)
  rw [Function.comp_apply, get?_of_mem distinct he]
  rfl

namespace Planned

open Format (gather liveFields)
open Encoder (heldFor)

/-- Encodings that are known one by one are known together. -/
theorem gather_eq_flatMap {α : Type} {f : α → Except Fault Bytes} {write : α → Bytes}
    {xs : List α} {bytes : Bytes} (h : gather f xs = .ok bytes)
    (hf : ∀ x ∈ xs, ∀ b, f x = .ok b → b = write x) : bytes = xs.flatMap write := by
  induction xs generalizing bytes with
  | nil => exact (Except.ok.inj h).symm
  | cons x rest ih =>
    obtain ⟨b, bs, hb, hbs, rfl⟩ := Format.gather_cons_eq_ok h
    rw [List.forall_mem_cons] at hf
    rw [List.flatMap_cons, hf.1 b hb, ih hbs hf.2]

theorem mapKey_eq_dynamic {key : KeyKind} {v : Value} {b : Bytes}
    (h : Encoder.mapKey key v = .ok b) : b = v.dynamic := by
  refine Encoder.scalar_eq_dynamic (Encoder.scalar_of_mapKey h) (fun hk => ?_) fun hk => ?_
  · cases key <;> cases hk
  · cases key <;> cases hk

variable {part : Shape → Value → Except Fault Bytes} {info : StructInfo} {fields : List Field}
  {values : List (String × Value)}

/-- A plain struct is a map of all its live fields. -/
theorem modeOf_plain (hs : (Shape.struct info fields).IsFinalNode) (htuple : info.asTuple = false)
    (htags : ∀ f ∈ liveFields fields, f.info.omitEmpty = false) :
    Layout.modeOf info .msgp2 = .static := by
  have hnone : info.hasOmitEmptyTags = false := by
    rw [hs.2, List.any_eq_false]
    intro f hf
    cases hskip : f.info.skip with
    | true => simp
    | false => simp [htags f (List.mem_filter.2 ⟨hf, by simp [hskip]⟩)]
  simp [Layout.modeOf, htuple, hnone]

/-- The slot of a live field in a plain struct is never left out, and its key is its name. -/
theorem slots_plain (hmode : Layout.modeOf info .msgp2 = .static) (hkey : info.keyKind = .string) :
    (Format.layout .msgp2 info fields).slots =
      (Field.live fields).map fun f => ⟨f.2, f.1, Wire.str f.1.info.name, false⟩ := by
  simp only [Format.layout, hmode, Layout.usesIntKeys, hkey]
  rfl

/-- The bytes of a plain struct: its live fields are counted beforehand, and each is written
behind its name. -/
theorem structNode_plain {b : Bytes} (hs : (Shape.struct info fields).IsFinalNode)
    (hplain : (Shape.struct info fields).Plain)
    (h : structNode .msgp2 part info fields values = .ok b) :
    ∃ rest, gather (fun f => do
        return Wire.str f.info.name ++ (← part f.value (heldFor values f))) (liveFields fields) =
          .ok rest ∧
      b = Wire.mapHeader (UInt32.ofNat (liveFields fields).length) ++ rest := by
  obtain ⟨htuple, hkey, htags, -⟩ := hplain
  have hmode := modeOf_plain hs htuple htags
  obtain ⟨l, hl, h⟩ := bind_eq_ok h
  obtain ⟨held, hheld, h⟩ := bind_eq_ok h
  obtain ⟨header, hstart, h⟩ := bind_eq_ok h
  obtain ⟨rest, hrest, h⟩ := bind_eq_ok h
  obtain rfl := Except.ok.inj h
  obtain ⟨-, rfl⟩ := Format.checkKeys_of_plan hs hl
  rcases Encoder.slotValues_eq info.name values (Format.layout .msgp2 info fields).slots with
    ⟨fault, hfault, -⟩ | ⟨hslots, -⟩
  · cases hfault.symm.trans hheld
  · obtain rfl := Except.ok.inj (hslots.symm.trans hheld)
    refine ⟨rest, ?_, ?_⟩
    · rw [slots_plain hmode hkey, List.map_map, Encoder.gather_map] at hrest
      rw [← Field.map_fst_live, Encoder.gather_map]
      exact hrest
    · simp only [start, Format.layout, hmode] at hstart
      obtain rfl := Except.ok.inj hstart
      rw [Option.getD_none, List.append_nil]

/-- A record that holds just the live fields of a struct, in their order. -/
theorem values_eq_map (distinct : (Assoc.names values).Nodup)
    (names : Assoc.names values = (liveFields fields).map fun f => f.info.name) :
    values = (liveFields fields).map fun f => (f.info.name, heldFor values f) :=
  calc values = (Assoc.names values).map fun name =>
        (name, (Assoc.get? values name).getD .nil) := Assoc.eq_map_names distinct .nil
    _ = (liveFields fields).map fun f => (f.info.name, heldFor values f) := by
        rw [names, List.map_map]
        rfl

/-- A record that holds the live fields of a plain struct in their order is written by both
encodings alike, if the values of its fields are. -/
theorem structNode_eq_dynamic {b : Bytes} (hs : (Shape.struct info fields).IsFinalNode)
    (hplain : (Shape.struct info fields).Plain)
    (distinct : (Assoc.names values).Nodup)
    (names : Assoc.names values = (liveFields fields).map fun f => f.info.name)
    (h : structNode .msgp2 part info fields values = .ok b)
    (hpart : ∀ f ∈ liveFields fields, ∀ v, Assoc.get? values f.info.name = some v →
      ∀ b, part f.value v = .ok b → b = v.dynamic) : b = (Value.record values).dynamic := by
  obtain ⟨rest, hrest, rfl⟩ := structNode_plain hs hplain h
  have hvalues := values_eq_map distinct names
  have hlength : (liveFields fields).length = values.length := by
    have hlengths := congrArg List.length names
    rwa [Assoc.names, List.length_map, List.length_map, eq_comm] at hlengths
  have hentry : ∀ f ∈ liveFields fields, ∀ b, (do
      return Wire.str f.info.name ++ (← part f.value (heldFor values f))) = Except.ok b →
      b = Wire.str f.info.name ++ (heldFor values f).dynamic := by
    intro f hf b hb
    obtain ⟨value, hvalue, hb⟩ := bind_eq_ok hb
    obtain rfl := Except.ok.inj hb
    have hmem := List.mem_map_of_mem (f := fun f => (f.info.name, heldFor values f)) hf
    rw [← hvalues] at hmem
    rw [hpart f hf _ (Assoc.get?_of_mem distinct hmem) value hvalue]
  have hfields : Value.dynamicFields values = (liveFields fields).flatMap fun f =>
      Wire.str f.info.name ++ (heldFor values f).dynamic := by
    rw [Value.dynamicFields_eq]
    exact (congrArg (List.flatMap _) hvalues).trans (List.flatMap_map _ _ _)
  rw [gather_eq_flatMap hrest hentry, hlength, Value.dynamic, hfields]

/-- To any depth, a native value of a plain shape is encoded as it would be without the shape. -/
theorem bytes_eq_dynamic {t : Table} {depth : Nat} {s : Shape} {v : Value} {b : Bytes}
    (hs : s.IsFinal) (hplain : s.Plain) (hv : Native s v)
    (h : bytes t .msgp2 depth s v = .ok b) : b = v.dynamic := by
  induction depth generalizing s v b with
  | zero => cases h
  | succ depth ih =>
    rw [bytes] at h
    cases hv with
    | struct distinct names each =>
      refine structNode_eq_dynamic hs.here hplain distinct names h fun f hf v hget b hb => ?_
      exact ih (hs.field (List.mem_filter.1 hf).1) (Shape.plainFields_iff.1 hplain.2.2.2 f hf)
        (each f hf v hget) hb
    | map each =>
      obtain ⟨rest, hrest, h⟩ := bind_eq_ok h
      obtain rfl := Except.ok.inj h
      rw [Value.dynamic, Value.dynamicEntries_eq]
      refine congrArg _ (gather_eq_flatMap hrest fun e he b hb => ?_)
      obtain ⟨key, hkey, hb⟩ := bind_eq_ok hb
      obtain ⟨value, hvalue, hb⟩ := bind_eq_ok hb
      obtain rfl := Except.ok.inj hb
      rw [ih hs.2 hplain (each e he) hvalue, mapKey_eq_dynamic hkey]
    | slice each =>
      obtain ⟨rest, hrest, h⟩ := bind_eq_ok h
      obtain rfl := Except.ok.inj h
      rw [Value.dynamic, Value.dynamicItems_eq]
      exact congrArg _ (gather_eq_flatMap hrest fun w hw b hb => ih hs.2 hplain (each w hw) hb)
    | array wide each =>
      rcases Format.arrayNode_eq_ok h with ⟨narrow, -⟩ | ⟨-, items, rest, hitems, hrest, rfl⟩
      · cases wide.symm.trans narrow
      · obtain rfl := Value.array.inj hitems
        rw [Value.dynamic, Value.dynamicItems_eq]
        exact congrArg _ (gather_eq_flatMap hrest fun w hw b hb => ih hs.2 hplain (each w hw) hb)
    | @byteArray info element _ narrow =>
      have h : Format.arrayNode (bytes t .msgp2 depth) info element _ = .ok b := h
      rcases Format.arrayNode_eq_ok h with ⟨-, data, rfl, hdata⟩ | ⟨wide, -⟩
      · rcases hdata with hdata | hdata
        · obtain rfl := Value.bin.inj hdata
          rfl
        · cases hdata
      · cases wide.symm.trans narrow
    | absent => exact (Except.ok.inj h).symm
    | present there =>
      by_cases hnil : v = .nil
      · subst hnil
        exact (Except.ok.inj h).symm
      · rw [node_eq_format (by simp), Format.node_ptr hnil] at h
        exact ih hs.2 hplain there h
    | @scalar info _ single double =>
      have hkind : info.kind ≠ .identifier := hplain
      rw [node_eq_format (by simp), Format.node, if_neg hkind] at h
      exact Encoder.scalar_eq_dynamic h single double

end Planned

namespace Encoder

/-- Typed and dynamic encoding agree. Where all fields of a struct are written under their names,
the encoder makes of a native value what the value is encoded as on its own, with and without
fusion. -/
theorem encodeShape_eq_dynamic (t : Table) (fuse : Bool) (s : Shape) (hs : s.IsFinal)
    (hplain : s.Plain) (v : Value) (hv : Native s v) (b : Bytes)
    (h : (Encoder.mk t .msgp2 fuse).encodeShape s v = .ok b) : b = v.dynamic := by
  rw [encodeShape_eq_planned] at h
  exact Planned.bytes_eq_dynamic hs hplain hv h

/-- A buoy with its mark, the depth below it, perhaps the tides, and a log. -/
def buoy : Shape := .struct { name := "Buoy", skipCount := 1 } [
  .mk { name := "mark" } (.array { size := "2", resolved := some 2 } (.ofKind .byte)),
  .mk { name := "owner", skip := true } (.ident "Harbour"),
  .mk { name := "depth" } (.ofKind .float32),
  .mk { name := "tides" } (.ptr (.slice (.ofKind .int16))),
  .mk { name := "log" } (.map .int64 (.struct { name := "Note" } [
    .mk { name := "text" } (.ofKind .interface)]))]

def buoyValue : Value := .record [
  ("mark", .bin [1, 2]), ("depth", .float32 0x41200000), ("tides", .array [.int (-200)]),
  ("log", .map [(.int 7, .record [("text", .time 1 2)])])]

theorem plain_buoy : buoy.Plain := by
  simp [buoy, Shape.Plain, Shape.PlainFields, Shape.ofKind, Format.liveFields]

theorem native_buoyValue : Native buoy buoyValue := by
  have hother {info : BaseInfo} {v : Value} (h32 : info.kind ≠ .float32)
      (h64 : info.kind ≠ .float64) : Native (.base info) v :=
    .scalar (fun h => absurd h h32) fun h => absurd h h64
  refine .struct (by decide) rfl fun f hf v hv => ?_
  simp only [Format.liveFields, List.filter_cons, List.filter_nil, Field.info_mk, Bool.not_false,
    Bool.not_true, if_true, Bool.false_eq_true, if_false, List.mem_cons, List.not_mem_nil,
    or_false] at hf
  rcases hf with rfl | rfl | rfl | rfl
  · obtain rfl := Option.some.inj hv
    exact .byteArray rfl
  · obtain rfl := Option.some.inj hv
    exact .scalar (fun _ => ⟨_, rfl⟩) fun h => absurd h (by decide)
  · obtain rfl := Option.some.inj hv
    exact .present (.slice fun w _ => hother (by decide) (by decide))
  · obtain rfl := Option.some.inj hv
    refine .map (List.forall_mem_singleton.2 (.struct (by decide) rfl fun f hf v hv => ?_))
    obtain rfl := List.mem_singleton.1 hf
    exact hother (by decide) (by decide)

def buoyBytes : Bytes := [0x84, 0xa4, 109, 97, 114, 107, 0xc4, 2, 1, 2,
  0xa5, 100, 101, 112, 116, 104, 0xca, 0x41, 0x20, 0, 0,
  0xa5, 116, 105, 100, 101, 115, 0x91, 0xd1, 0xff, 0x38,
  0xa3, 108, 111, 103, 0x81, 7, 0x81, 0xa4, 116, 101, 120, 116,
  0xc7, 12, 5, 0, 0, 0, 0, 0, 0, 0, 1, 0, 0, 0, 2]

/-- The planned header does not count the owner, the mark is one byte string, and the time in the
log is written by its own kind. -/
theorem encodeShape_buoy :
    (Encoder.mk .empty .msgp2 true).encodeShape buoy buoyValue = .ok buoyBytes ∧
      buoyBytes = buoyValue.dynamic := by
  have hfinal : buoy.IsFinal :=
    ⟨⟨rfl, rfl⟩, ⟨rfl, trivial⟩, trivial, trivial, ⟨trivial, trivial, trivial⟩,
      ⟨trivial, ⟨rfl, rfl⟩, trivial, trivial⟩, trivial⟩
  have hbytes : (Encoder.mk .empty .msgp2 true).encodeShape buoy buoyValue = .ok buoyBytes := rfl
  exact ⟨hbytes, encodeShape_eq_dynamic .empty true buoy hfinal plain_buoy buoyValue
    native_buoyValue buoyBytes hbytes⟩

end Encoder

end Packwright
