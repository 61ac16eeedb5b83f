import Packwright.Proofs.Generators
import Packwright.Proofs.Masking

/-
  What the encoder does not read. Of a record it reads the entries named by live fields, each
  under its name; so other entries may come, go and change, and all may change places. `Alike`
  says this at every depth, following the shape as the encoder does. Where a value does not fit
  the shape only its outline is read, for the word in the error and to tell whether it is empty.
  An interface reads all of its value, so there nothing may change.
-/

namespace Packwright

/-! ## Outlines -/

namespace Value

mutual

/-- A value without the entries of its records. -/
def outline : Value → Value
  | array items => array (outlines items)
  | map entries => map (entryOutlines entries)
  | record _ => record []
  | v => v

/-- The outlines of the elements of an array. -/
def outlines : List Value → List Value
  | [] => []
  | v :: rest => v.outline :: outlines rest

/-- The outlines of the keys and values of a map. -/
def entryOutlines : List (Value × Value) → List (Value × Value)
  | [] => []
  | (k, v) :: rest => (k.outline, v.outline) :: entryOutlines rest

end

theorem outlines_eq_map (items : List Value) : outlines items = items.map outline := by
  induction items with
  | nil => rfl
  | cons v rest ih => rw [outlines, ih, List.map_cons]

@[simp] theorem isEmpty_outlines (items : List Value) :
    (outlines items).isEmpty = items.isEmpty := by
  cases items <;> rfl

@[simp] theorem isEmpty_entryOutlines (entries : List (Value × Value)) :
    (entryOutlines entries).isEmpty = entries.isEmpty := by
  cases entries <;> rfl

theorem holds_outline (rule : Emptiness) (v : Value) : rule.holds v.outline = rule.holds v := by
  cases v with
  | array items => cases rule <;> simp [outline, Emptiness.holds]
  | map entries => cases rule <;> simp [outline, Emptiness.holds]
  | record fields => cases rule <;> rfl
  | _ => rfl

theorem mapKey_outline (key : KeyKind) (v : Value) :
    Encoder.mapKey key v.outline = Encoder.mapKey key v := by
  cases v <;> cases key <;> rfl

theorem arrayByte_outline (v : Value) : Encoder.arrayByte v.outline = Encoder.arrayByte v := by
  cases v <;> rfl

theorem byteArray_outline (size : Nat) (v : Value) :
    Encoder.byteArray size v.outline = Encoder.byteArray size v := by
  cases v with
  | array items =>
    have hbytes : (outlines items).mapM Encoder.arrayByte = items.mapM Encoder.arrayByte := by
      rw [outlines_eq_map, List.mapM_map]
      congr 1
      exact funext arrayByte_outline
    simp only [outline, Encoder.byteArray, hbytes]
  | _ => rfl

theorem scalar_outline {kind : Kind} (h : kind ≠ .interface) (v : Value) :
    Encoder.scalar kind v.outline = Encoder.scalar kind v := by
  cases v with
  | array items => cases kind <;> first | rfl | exact absurd rfl h
  | map entries => cases kind <;> first | rfl | exact absurd rfl h
  | record fields => cases kind <;> first | rfl | exact absurd rfl h
  | _ => rfl

end Value

/-! ## Values that are read alike -/

namespace Assoc

variable {α : Type}

theorem get?_filter {q : String × α → Bool} {name : String} (h : ∀ a, q (name, a) = true)
    (entries : List (String × α)) : get? (entries.filter q) name = get? entries name := by
  induction entries with
  | nil => rfl
  | cons e rest ih =>
    obtain ⟨other, a⟩ := e
    by_cases hname : other = name
    · subst hname
      rw [List.filter_cons_of_pos (h a), get?, get?, if_pos rfl, if_pos rfl]
    · rw [List.filter_cons, get?, if_neg hname, ← ih]
      split
      · rw [get?, if_neg hname]
      · rfl

theorem get?_of_mem {entries : List (String × α)} (distinct : (names entries).Nodup)
    {name : String} {a : α} (h : (name, a) ∈ entries) : get? entries name = some a := by
  induction entries with
  | nil => cases h
  | cons e rest ih =>
    rw [names_cons, List.nodup_cons] at distinct
    rcases List.mem_cons.1 h with rfl | h
    · rw [get?, if_pos rfl]
    · have hne : e.1 ≠ name := fun he => distinct.1 (he ▸ List.mem_map_of_mem (f := Prod.fst) h)
      rw [get?, if_neg hne, ih distinct.2 h]

/-- The order of entries with distinct names plays no part. -/
theorem get?_of_perm {entries entries' : List (String × α)} (distinct : (names entries).Nodup)
    (h : entries.Perm entries') (name : String) : get? entries name = get? entries' name := by
  have distinct' : (names entries').Nodup := (h.map Prod.fst).nodup_iff.1 distinct
  refine Option.ext fun a => ⟨fun ha => ?_, fun ha => ?_⟩
  · exact get?_of_mem distinct' (h.mem_iff.1 (mem_of_get? ha))
  · exact get?_of_mem distinct (h.mem_iff.2 (mem_of_get? ha))

end Assoc

/-- Whether the encoder reads more of a value than its outline: it goes into it, or the value says
itself how it is encoded. -/
def Shape.reads : Shape → Value → Bool
  | .struct _ _, .record _ => true
  | .map _ _, .map _ => true
  | .slice _, .array _ => true
  | .array _ element, .array _ => !element.isSingleByte
  | .ptr _, .nil => false
  | .ptr _, _ => true
  | .base info, _ => info.kind == .interface || info.kind == .identifier
  | _, _ => false

/-- Two values in which the encoder reads the same. -/
inductive Alike (t : Table) : Shape → Value → Value → Prop where
  | same (s : Shape) (v : Value) : Alike t s v v
  /-- Values that are not gone into. -/
  | outline {s : Shape} {v v' : Value} (unread : s.reads v = false)
      (outline : v.outline = v'.outline) : Alike t s v v'
  /-- Records for a struct: what they hold under the name of a live field is alike. -/
  | record {info : StructInfo} {fields : List Field} {values values' : List (String × Value)}
      (held : ∀ f ∈ Format.liveFields fields,
        (Assoc.get? values f.info.name).isSome = (Assoc.get? values' f.info.name).isSome)
      (alike : ∀ f ∈ Format.liveFields fields, ∀ w w', Assoc.get? values f.info.name = some w →
        Assoc.get? values' f.info.name = some w' → Alike t f.value w w') :
      Alike t (.struct info fields) (.record values) (.record values')
  /-- Maps, entry by entry. Keys are never gone into. -/
  | entries {key : KeyKind} {value : Shape} {entries entries' : List (Value × Value)}
      (length : entries.length = entries'.length)
      (keys : ∀ x ∈ entries.zip entries', x.1.1.outline = x.2.1.outline)
      (alike : ∀ x ∈ entries.zip entries', Alike t value x.1.2 x.2.2) :
      Alike t (.map key value) (.map entries) (.map entries')
  /-- Slices, element by element. -/
  | elements {element : Shape} {items items' : List Value} (length : items.length = items'.length)
      (alike : ∀ x ∈ items.zip items', Alike t element x.1 x.2) :
      Alike t (.slice element) (.array items) (.array items')
  /-- Fixed arrays, element by element. -/
  | items {info : ArrayInfo} {element : Shape} {items items' : List Value}
      (wide : element.isSingleByte = false) (length : items.length = items'.length)
      (alike : ∀ x ∈ items.zip items', Alike t element x.1 x.2) :
      Alike t (.array info element) (.array items) (.array items')
  /-- Pointers that are not absent. -/
  | pointee {pointee : Shape} {v v' : Value} (present : v ≠ .nil) (present' : v' ≠ .nil)
      (alike : Alike t pointee v v') : Alike t (.ptr pointee) v v'
  /-- Values of the identity that an identifier names. -/
  | target {info : BaseInfo} {v v' : Value} (named : info.kind = .identifier)
      (alike : ∀ target, t.get? (info.typeName.getD "") = some target → Alike t target v v') :
      Alike t (.base info) v v'

theorem Shape.reads_outline (s : Shape) (v : Value) : s.reads v.outline = s.reads v := by
  cases s <;> cases v <;> rfl

namespace Planned

open Format (gather gather_congr)
open Encoder (heldFor)

variable {t : Table} {p : Protocol} {part : Shape → Value → Except Fault Bytes}

/-- A value that is not gone into is encoded, or fails, by its outline. -/
theorem node_outline {s : Shape} {v : Value} (h : s.reads v = false) :
    node t p part s v.outline = node t p part s v := by
  cases s with
  | struct info fields =>
    cases v with
    | record values => cases h
    | _ => rfl
  | map key value =>
    cases v with
    | map entries => cases h
    | _ => rfl
  | slice element =>
    cases v with
    | array items => cases h
    | _ => rfl
  | array info element =>
    show Format.arrayNode part info element v.outline = Format.arrayNode part info element v
    cases v with
    | array items =>
      have hnarrow : element.isSingleByte = true := by simpa [Shape.reads] using h
      simp only [Format.arrayNode, hnarrow, if_true, Value.byteArray_outline]
    | _ => rfl
  | ptr pointee =>
    cases v with
    | nil => rfl
    | _ => cases h
  | base info =>
    simp only [Shape.reads, Bool.or_eq_false_iff, beq_eq_false_iff_ne] at h
    simp only [node, Format.node, h.2, if_false]
    exact Value.scalar_outline h.1 v

theorem node_eq_of_outline {s : Shape} {v v' : Value} (h : s.reads v = false)
    (ho : v.outline = v'.outline) : node t p part s v = node t p part s v' := by
  have h' : s.reads v' = false := by rw [← Shape.reads_outline, ← ho, Shape.reads_outline, h]
  rw [← node_outline h, ho, node_outline h']

theorem gather_zip {α : Type} {f f' : α → Except Fault Bytes} {xs xs' : List α}
    (length : xs.length = xs'.length) (h : ∀ x ∈ xs.zip xs', f x.1 = f' x.2) :
    gather f xs = gather f' xs' := by
  induction xs generalizing xs' with
  | nil =>
    obtain rfl := List.eq_nil_of_length_eq_zero length.symm
    rfl
  | cons x rest ih =>
    cases xs' with
    | nil => cases length
    | cons x' rest' =>
      rw [List.zip_cons_cons, List.forall_mem_cons] at h
      rw [gather, gather, h.1, ih (Nat.succ.inj length) h.2]

/-- A slot with the value that a record holds for it, and whether it is left out. -/
def filled (values : List (String × Value)) (slot : Slot) : Slot × Value × Bool :=
  (slot, heldFor values slot.field,
    slot.conditional && (Emptiness.of slot.field.value).holds (heldFor values slot.field))

/-- Two records that hold values under the same names fill the slots or lack the same field. -/
theorem slotValues_or {values values' : List (String × Value)} {slots : List Slot}
    (h : ∀ slot ∈ slots, (Assoc.get? values slot.field.info.name).isSome =
      (Assoc.get? values' slot.field.info.name).isSome) (struct : String) :
    (∃ fault, Encoder.slotValues struct values slots = .error fault ∧
      Encoder.slotValues struct values' slots = .error fault) ∨
    (Encoder.slotValues struct values slots = .ok (slots.map (filled values)) ∧
      Encoder.slotValues struct values' slots = .ok (slots.map (filled values')) ∧
      ∀ slot ∈ slots, Assoc.get? values slot.field.info.name = some (heldFor values slot.field) ∧
        Assoc.get? values' slot.field.info.name = some (heldFor values' slot.field)) := by
  unfold Encoder.slotValues
  induction slots with
  | nil => exact .inr ⟨rfl, rfl, List.forall_mem_nil _⟩
  | cons slot rest ih =>
    rw [List.forall_mem_cons] at h
    rw [List.mapM_cons, List.mapM_cons]
    cases hget : Assoc.get? values slot.field.info.name with
    | none =>
      have hget' : Assoc.get? values' slot.field.info.name = none := by
        rw [hget] at h
        exact Option.isNone_iff_eq_none.1 (by rw [← Option.not_isSome, ← h.1]; rfl)
      rw [hget']
      exact .inl ⟨_, rfl, rfl⟩
    | some w =>
      obtain ⟨w', hget'⟩ : ∃ w', Assoc.get? values' slot.field.info.name = some w' := by
        rw [hget] at h
        exact Option.isSome_iff_exists.1 h.1.symm
      have hw : heldFor values slot.field = w := by rw [heldFor, hget]; rfl
      have hw' : heldFor values' slot.field = w' := by rw [heldFor, hget']; rfl
      rw [hget']
      rcases ih h.2 with ⟨fault, h₁, h₂⟩ | ⟨h₁, h₂, hrest⟩
      · rw [h₁, h₂]
        exact .inl ⟨fault, rfl, rfl⟩
      · rw [h₁, h₂, List.map_cons, List.map_cons, List.forall_mem_cons, filled, filled, hw, hw']
        exact .inr ⟨rfl, rfl, ⟨hget, hget'⟩, hrest⟩

theorem entry_congr {slot : Slot} {x x' : Value × Bool} (flag : x.2 = x'.2)
    (h : part slot.field.value x.1 = part slot.field.value x'.1) :
    entry part (slot, x) = entry part (slot, x') := by
  simp only [entry, flag, h]

/-- What a struct comes to depends on what the record holds under the names of live fields. -/
theorem structNode_alike {info : StructInfo} {fields : List Field}
    {values values' : List (String × Value)}
    (held : ∀ f ∈ Format.liveFields fields,
      (Assoc.get? values f.info.name).isSome = (Assoc.get? values' f.info.name).isSome)
    (empty : ∀ f ∈ Format.liveFields fields, ∀ w w', Assoc.get? values f.info.name = some w →
      Assoc.get? values' f.info.name = some w' →
        (Emptiness.of f.value).holds w = (Emptiness.of f.value).holds w')
    (h : ∀ f ∈ Format.liveFields fields, ∀ w w', Assoc.get? values f.info.name = some w →
      Assoc.get? values' f.info.name = some w' → part f.value w = part f.value w') :
    structNode p part info fields values = structNode p part info fields values' := by
  unfold structNode
  cases hplan : Layout.plan p info fields with
  | error fault => rfl
  | ok l =>
    have hlive (slot : Slot) (hslot : slot ∈ l.slots) := Layout.mem_liveFields_of_plan hplan hslot
    simp only [ok_bind]
    rcases slotValues_or (fun slot hslot => held _ (hlive slot hslot)) info.name with
      ⟨fault, h₁, h₂⟩ | ⟨h₁, h₂, hget⟩
    · rw [h₁, h₂]
    · have hflag : ∀ slot ∈ l.slots, (filled values slot).2.2 = (filled values' slot).2.2 := by
        intro slot hslot
        obtain ⟨hw, hw'⟩ := hget slot hslot
        simp only [filled, empty _ (hlive slot hslot) _ _ hw hw']
      have hcount : (l.slots.map (filled values)).countP (fun x => !x.2.2) =
          (l.slots.map (filled values')).countP fun x => !x.2.2 := by
        rw [List.countP_map, List.countP_map]
        exact List.countP_congr fun slot hslot => by
          rw [Function.comp_apply, Function.comp_apply, hflag slot hslot]
      have hentry : ∀ slot ∈ l.slots,
          entry part (filled values slot) = entry part (filled values' slot) := by
        intro slot hslot
        obtain ⟨hw, hw'⟩ := hget slot hslot
        exact entry_congr (hflag slot hslot) (h _ (hlive slot hslot) _ _ hw hw')
      rw [h₁, h₂, ok_bind, ok_bind, start, start, hcount, Encoder.gather_map, Encoder.gather_map,
        gather_congr hentry]

end Planned

namespace Alike

variable {t : Table} {s : Shape} {v v' : Value}

theorem isEmpty_congr {α : Type} {xs xs' : List α} (h : xs.length = xs'.length) :
    xs.isEmpty = xs'.isEmpty := by
  cases xs <;> cases xs' <;> simp_all

theorem holds_absent (h : v ≠ .nil) : Emptiness.absent.holds v = false := by
  cases v with
  | nil => exact absurd rfl h
  | _ => rfl

theorem holds_eq (h : Alike t s v v') :
    (Emptiness.of s).holds v = (Emptiness.of s).holds v' := by
  cases h with
  | same => rfl
  | outline unread outline => rw [← Value.holds_outline, outline, Value.holds_outline]
  | record => rfl
  | @entries key value entries entries' length =>
    show entries.isEmpty = entries'.isEmpty
    exact isEmpty_congr length
  | @elements element items items' length =>
    show items.isEmpty = items'.isEmpty
    exact isEmpty_congr length
  | items => rfl
  | pointee present present' =>
    show Emptiness.absent.holds v = Emptiness.absent.holds v'
    rw [holds_absent present, holds_absent present']
  | @target info _ _ named =>
    have hnever : Emptiness.of (.base info) = .never := by simp [Emptiness.of, named]
    rw [hnever]
    rfl

/-- Values in which the encoder reads the same are encoded alike, to any depth. -/
theorem bytes_eq (h : Alike t s v v') (p : Protocol) (depth : Nat) :
    Planned.bytes t p depth s v = Planned.bytes t p depth s v' := by
  induction depth generalizing s v v' with
  | zero => rfl
  | succ depth ih =>
    unfold Planned.bytes
    cases h with
    | same => rfl
    | outline unread outline => exact Planned.node_eq_of_outline unread outline
    | record held alike =>
      exact Planned.structNode_alike held
        (fun f hf w w' hw hw' => (alike f hf w w' hw hw').holds_eq)
        fun f hf w w' hw hw' => ih (alike f hf w w' hw hw')
    | entries length keys alike =>
      simp only [Planned.node, Format.node, length]
      rw [Planned.gather_zip length fun x hx => ?_]
      rw [← Value.mapKey_outline, keys x hx, Value.mapKey_outline, ih (alike x hx)]
    | elements length alike =>
      simp only [Planned.node, Format.node, length]
      rw [Planned.gather_zip length fun x hx => ih (alike x hx)]
    | items wide length alike =>
      simp only [Planned.node, Format.node, Format.arrayNode, wide, length, Bool.false_eq_true,
        if_false]
      rw [Planned.gather_zip length fun x hx => ih (alike x hx)]
    | pointee present present' alike =>
      show Format.node t p _ (.ptr _) v = Format.node t p _ (.ptr _) v'
      rw [Format.node_ptr present, Format.node_ptr present', ih alike]
    | @target info _ _ named alike =>
      simp only [Planned.node, Format.node, named, if_true]
      cases htarget : t.get? (info.typeName.getD "") with
      | none => rfl
      | some target => exact ih (alike target htarget)

/-- Whether an entry of a record is named by a live field. -/
def isNamed (fields : List Field) (e : String × Value) : Bool :=
  (Format.liveFields fields).any fun f => f.info.name == e.1

/-- Records that hold the same entries under the names of live fields, in any order and among any
others. -/
theorem of_perm {info : StructInfo} {fields : List Field} {values values' : List (String × Value)}
    (distinct : (Assoc.names values).Nodup)
    (perm : (values.filter (isNamed fields)).Perm (values'.filter (isNamed fields))) :
    Alike t (.struct info fields) (.record values) (.record values') := by
  have hget : ∀ f ∈ Format.liveFields fields,
      Assoc.get? values f.info.name = Assoc.get? values' f.info.name := by
    intro f hf
    have hnamed (v : Value) : isNamed fields (f.info.name, v) = true :=
      List.any_eq_true.2 ⟨f, hf, beq_self_eq_true _⟩
    rw [← Assoc.get?_filter hnamed values, ← Assoc.get?_filter hnamed values']
    exact Assoc.get?_of_perm (distinct.sublist (List.filter_sublist.map _)) perm _
  refine .record (fun f hf => by rw [hget f hf]) fun f hf w w' hw hw' => ?_
  rw [hget f hf, hw'] at hw
  obtain rfl := Option.some.inj hw
  exact .same _ _

end Alike

/-! ## The generators and the encoder -/

theorem CodeGenerator.render_of_masked {s s' : Shape} (h : s.masked = s'.masked)
    (g : CodeGenerator) (name : String) : (g.render name s).1 = (g.render name s').1 := by
  have hmasked (s : Shape) : g.method.render g.config name s.masked =
      g.method.render g.config name s := by
    cases g.method with
    | marshal => exact Marshal.render_masked g.config name s
    | msgsize => exact Msgsize.render_masked g.config name s
  obtain ⟨after, hrender, -⟩ := g.render_eq name s
  obtain ⟨after', hrender', -⟩ := g.render_eq name s'
  rw [hrender, hrender', ← hmasked s, h, hmasked s']

theorem Encoder.encodeShape_of_masked {e e' : Encoder} {s s' : Shape} {v v' : Value}
    (ht : e.table.masked = e'.table.masked) (hp : e.protocol = e'.protocol)
    (hs : s.masked = s'.masked) (hv : Alike e.table s v v') :
    e.encodeShape s v = e'.encodeShape s' v' := by
  refine encodeShape_congr fun depth => ?_
  calc Planned.bytes e.table e.protocol depth s v
      = Planned.bytes e.table e.protocol depth s v' := hv.bytes_eq _ depth
    _ = Planned.bytes e.table.masked e.protocol depth s.masked v' :=
        (Planned.bytes_masked _ _ depth s v').symm
    _ = Planned.bytes e'.table.masked e'.protocol depth s'.masked v' := by rw [ht, hp, hs]
    _ = Planned.bytes e'.table e'.protocol depth s' v' := Planned.bytes_masked _ _ depth s' v'

theorem Encoder.encode_of_masked {e e' : Encoder} {name : String} {v v' : Value}
    (ht : e.table.masked = e'.table.masked) (hp : e.protocol = e'.protocol)
    (hv : ∀ s, e.table.get? name = some s → Alike e.table s v v') :
    e.encode name v = e'.encode name v' := by
  have hget : (e.table.get? name).map Shape.masked = (e'.table.get? name).map Shape.masked := by
    rw [← Table.get?_masked, ← Table.get?_masked, ht]
  unfold encode
  cases h : e.table.get? name with
  | none =>
    rw [h] at hget
    rw [Option.map_eq_none_iff.1 hget.symm]
  | some s =>
    rw [h] at hget
    obtain ⟨s', h', hs⟩ := Option.map_eq_some_iff.1 hget.symm
    rw [h']
    exact encodeShape_of_masked ht hp hs.symm (hv s h)

/-- Skipped fields and unread entries are inert. A generator gives the same result for shapes that
are the same once masked. So does the encoder for tables and shapes that are, and for values that
are alike in what it reads: records may differ in all entries that no live field names, and in the
order of their entries. -/
theorem skipped_and_unread_are_inert :
    (∀ s s' : Shape, s.masked = s'.masked → ∀ (g : CodeGenerator) (name : String),
      (g.render name s).1 = (g.render name s').1) ∧
    (∀ e e' : Encoder, e.table.masked = e'.table.masked → e.protocol = e'.protocol →
      (∀ s s' v v', s.masked = s'.masked → Alike e.table s v v' →
        e.encodeShape s v = e'.encodeShape s' v') ∧
      ∀ name v v', (∀ s, e.table.get? name = some s → Alike e.table s v v') →
        e.encode name v = e'.encode name v') ∧
    ∀ t info fields values values', (Assoc.names values).Nodup →
      (values.filter (Alike.isNamed fields)).Perm (values'.filter (Alike.isNamed fields)) →
        Alike t (.struct info fields) (.record values) (.record values') := by
  refine ⟨fun s s' h g name => g.render_of_masked h name, fun e e' ht hp => ⟨?_, ?_⟩, ?_⟩
  · intro s s' v v' hs hv
    exact Encoder.encodeShape_of_masked ht hp hs hv
  · intro name v v' hv
    exact Encoder.encode_of_masked ht hp hv
  · intro t info fields values values' distinct perm
    exact .of_perm distinct perm

namespace Inert

/-- A field that is not encoded. -/
def cache : Field := .mk { name := "cache", skip := true } (.ofKind .bytes)

/-- Another one, with the name, the zid and the tag of live fields, and a shape that could not be
encoded. -/
def shadow : Field :=
  .mk { zid := 0, name := "deck", omitEmpty := true, skip := true }
    (.array ⟨"Nil", none⟩ (.ident "Nil"))

/-- Berths, with a field that is not encoded. -/
def berth (hidden : Field) : Shape := .struct { name := "Berth", skipCount := 1 } [
  hidden, .mk { zid := 0, name := "row" } (.ofKind .string)]

/-- Cabins with their berths, and a field that is not encoded. -/
def cabin (hidden : Field) : Shape :=
  .struct { name := "Cabin", skipCount := 1, hasOmitEmptyTags := true } [
    .mk { zid := 0, name := "berths", omitEmpty := true } (.slice (.ident "Berth")), hidden,
    .mk { zid := 1, name := "deck" } (.ofKind .int64)]

def plans (hidden : Field) : Table := .ofList [("Berth", berth hidden), ("Cabin", cabin hidden)]

def small : Value := .record [
  ("berths", .array [.record [("row", .str "A")]]), ("deck", .int 3)]

/-- The same cabin with more entries, in another order. -/
def large : Value := .record [
  ("deck", .int 3), ("cache", .bin [7]),
  ("berths", .array [.record [("crew", .record []), ("row", .str "A")]])]

theorem alike_cabin : Alike (plans cache) (cabin cache) small large := by
  have hberth : Alike (plans cache) (.ident "Berth") (.record [("row", .str "A")])
      (.record [("crew", .record []), ("row", .str "A")]) := by
    refine .target rfl fun target htarget => ?_
    obtain rfl : berth cache = target := Option.some.inj htarget
    exact .of_perm (by decide) (.refl _)
  refine .record (by simp [Format.liveFields, cache, Assoc.get?]) fun f hf w w' hw hw' => ?_
  have hlive : f ∈ [
      .mk { zid := 0, name := "berths", omitEmpty := true } (.slice (.ident "Berth")),
      .mk { zid := 1, name := "deck" } (.ofKind .int64)] := hf
  rcases List.mem_cons.1 hlive with rfl | hlive
  · obtain rfl := Option.some.inj hw
    obtain rfl := Option.some.inj hw'
    exact .elements rfl (List.forall_mem_singleton.2 hberth)
  · obtain rfl := List.mem_singleton.1 hlive
    obtain rfl := Option.some.inj hw
    obtain rfl := Option.some.inj hw'
    exact .same _ _

theorem cabin_inert :
    (plans cache).masked = (plans shadow).masked ∧ (cabin cache).masked = (cabin shadow).masked ∧
      Alike (plans cache) (cabin cache) small large ∧
      (∀ (g : CodeGenerator) (name : String),
        (g.render name (cabin cache)).1 = (g.render name (cabin shadow)).1) ∧
      ((Encoder.mk (plans cache) .msgp2 true).encodeShape (cabin cache) small).isOk = true ∧
      (Encoder.mk (plans cache) .msgp2 true).encodeShape (cabin cache) small =
        (Encoder.mk (plans shadow) .msgp2 false).encodeShape (cabin shadow) large := by
  have htables : (plans cache).masked = (plans shadow).masked := rfl
  have hcabins : (cabin cache).masked = (cabin shadow).masked := rfl
  exact ⟨htables, hcabins, alike_cabin, skipped_and_unread_are_inert.1 _ _ hcabins,
    by decide +kernel,
    (skipped_and_unread_are_inert.2.1 ⟨plans cache, .msgp2, true⟩ ⟨plans shadow, .msgp2, false⟩
      htables rfl).1 _ _ _ _ hcabins alike_cabin⟩

end Inert

end Packwright
