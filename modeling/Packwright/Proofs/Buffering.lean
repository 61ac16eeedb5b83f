import Packwright.Proofs.Depth
import Packwright.Proofs.Layout
import Packwright.Proofs.Leaves

/-
  The fusion buffer does not show. `Output.contents` is what an output comes to: the bytes written
  and then those held back. Every primitive of the encoder only adds to it, so a run of the encoder
  adds the bytes of the format or fails as the format does (`appends_shape`), whatever was held
  back before it and whether constants are fused or not.

  `encodeShape_iff_bytes`: over a finalized table the encoder gives exactly the results of the
  format. `encodeShape_eq_node` states the same as an equation of the encoder alone, without a
  depth: one level of the format over the encodings of the parts.
-/

namespace Packwright

namespace Output

/-- What an output comes to: the bytes written, then those held back. -/
def contents (o : Output) : Bytes := o.written.toList ++ o.fusion.pending

@[simp] theorem contents_empty : ({} : Output).contents = [] := rfl

theorem toList_written_flush (o : Output) : o.flush.written.toList = o.contents := by
  unfold flush contents Fusion.flush
  by_cases h : o.fusion.pending = []
  · simp [h]
  · simp [h]

theorem pending_flush (o : Output) : o.flush.fusion.pending = [] := by
  unfold flush Fusion.flush
  by_cases h : o.fusion.pending = []
  · simp [h]
  · simp [h, Fusion.empty]

@[simp] theorem contents_flush (o : Output) : o.flush.contents = o.contents := by
  rw [contents, toList_written_flush, pending_flush, List.append_nil]

@[simp] theorem contents_constant (o : Output) (fuse : Bool) (bytes : Bytes) :
    (o.constant fuse bytes).contents = o.contents ++ bytes := by
  have h : contents { o with fusion := o.fusion.append bytes } = o.contents ++ bytes := by
    simp [contents, Fusion.append]
  cases fuse with
  | true => exact h
  | false => exact (contents_flush _).trans h

@[simp] theorem contents_dynamic (o : Output) (bytes : Bytes) :
    (o.dynamic bytes).contents = o.contents ++ bytes := by
  simp [dynamic, contents, toList_written_flush, pending_flush]

end Output

namespace Encoder

open Format (gather)

/-- A run from an output does what a plain encoding says: it adds the same bytes, held back or
not, or fails with the same fault. -/
inductive Appends (o : Output) : Except Fault Output → Except Fault Bytes → Prop where
  | ok {o' : Output} {bytes : Bytes} (h : o'.contents = o.contents ++ bytes) :
      Appends o (.ok o') (.ok bytes)
  | error (fault : Fault) : Appends o (.error fault) (.error fault)

namespace Appends

/-- Bytes that are added first. -/
theorem prepend {o o' : Output} {bytes : Bytes} {run : Except Fault Output}
    {plain : Except Fault Bytes} (ho : o'.contents = o.contents ++ bytes)
    (h : Appends o' run plain) : Appends o run (do return bytes ++ (← plain)) := by
  cases h with
  | error fault => exact error fault
  | ok h => exact ok (by rw [h, ho, List.append_assoc])

theorem of_contents_eq {o o' : Output} {run : Except Fault Output} {plain : Except Fault Bytes}
    (ho : o'.contents = o.contents) (h : Appends o' run plain) : Appends o run plain := by
  cases h with
  | error fault => exact error fault
  | ok h => exact ok (by rw [h, ho])

theorem bind {o : Output} {run : Except Fault Output} {plain : Except Fault Bytes}
    {next : Output → Except Fault Output} {rest : Except Fault Bytes}
    (h : Appends o run plain) (hnext : ∀ o', Appends o' (next o') rest) :
    Appends o (run >>= next) (do return (← plain) ++ (← rest)) := by
  cases h with
  | error fault => exact error fault
  | ok h =>
    rename_i o' bytes
    exact prepend h (hnext o')

theorem foldlM {α : Type} {step : Output → α → Except Fault Output}
    {plain : α → Except Fault Bytes} {xs : List α}
    (h : ∀ x ∈ xs, ∀ o, Appends o (step o x) (plain x)) (o : Output) :
    Appends o (xs.foldlM step o) (gather plain xs) := by
  induction xs generalizing o with
  | nil => exact ok (by simp)
  | cons x rest ih =>
    rw [List.foldlM_cons, gather]
    exact bind (h x List.mem_cons_self o) (ih fun y hy => h y (List.mem_cons_of_mem _ hy))

end Appends

theorem gather_filter {α : Type} (q : α → Bool) (f : α → Except Fault Bytes) (xs : List α) :
    gather f (xs.filter q) = gather (fun x => if q x then f x else .ok []) xs := by
  induction xs with
  | nil => rfl
  | cons x rest ih =>
    cases hq : q x with
    | true => rw [List.filter_cons_of_pos hq, gather, gather, ih, hq]; rfl
    | false =>
      rw [List.filter_cons_of_neg (by simp [hq]), gather, ih, hq]
      show _ = (do return [] ++ (← _))
      simp

theorem mapM_eq_ok {α β : Type} {f : α → Except Fault β} {g : α → β} {xs : List α}
    (h : ∀ x ∈ xs, f x = .ok (g x)) : xs.mapM f = .ok (xs.map g) := by
  induction xs with
  | nil => rfl
  | cons x rest ih =>
    rw [List.mapM_cons, h x List.mem_cons_self, ih fun y hy => h y (List.mem_cons_of_mem _ hy)]
    rfl

/-- What a record holds under the name of a field. -/
def heldFor (values : List (String × Value)) (f : Field) : Value :=
  (Assoc.get? values f.info.name).getD .nil

/-- Slots are filled as the format fills their fields, and fail on the same one. -/
theorem slotValues_eq (struct : String) (values : List (String × Value)) (slots : List Slot) :
    (∃ fault, slotValues struct values slots = .error fault ∧
      (slots.map Slot.field).mapM (Format.fieldValue struct values) = .error fault) ∨
    (slotValues struct values slots = .ok (slots.map fun slot =>
        (slot, heldFor values slot.field,
          slot.conditional && (Emptiness.of slot.field.value).holds (heldFor values slot.field))) ∧
      (slots.map Slot.field).mapM (Format.fieldValue struct values) =
        .ok ((slots.map Slot.field).map fun f => (f, heldFor values f))) := by
  unfold slotValues
  induction slots with
  | nil => exact Or.inr ⟨rfl, rfl⟩
  | cons slot rest ih =>
    rw [List.mapM_cons, List.map_cons, List.mapM_cons]
    cases hget : Assoc.get? values slot.field.info.name with
    | none => exact Or.inl ⟨_, rfl, by rw [Format.fieldValue, hget]; rfl⟩
    | some v =>
      have hv : heldFor values slot.field = v := by rw [heldFor, hget]; rfl
      rcases ih with ⟨fault, h₁, h₂⟩ | ⟨h₁, h₂⟩
      · rw [h₁, h₂, Format.fieldValue, hget]
        exact Or.inl ⟨fault, rfl, rfl⟩
      · rw [h₁, h₂, Format.fieldValue, hget]
        refine Or.inr ⟨?_, ?_⟩
        · rw [List.map_cons, hv]; rfl
        · rw [List.map_cons, hv]; rfl

theorem gather_map {α β : Type} (f : β → Except Fault Bytes) (g : α → β) (xs : List α) :
    gather f (xs.map g) = gather (fun x => f (g x)) xs := by
  induction xs with
  | nil => rfl
  | cons x rest ih => rw [List.map_cons, gather, gather, ih]

theorem layout_slots_field (p : Protocol) (info : StructInfo) (fields : List Field) :
    (Format.layout p info fields).slots.map Slot.field = Format.liveFields fields := by
  rw [← Field.map_fst_live, Format.layout, List.map_map]
  rfl

/-- The slots of a final struct with their values, over its live fields. -/
def slotEntries (p : Protocol) (info : StructInfo) (fields : List Field)
    (values : List (String × Value)) : List (Slot × Value × Bool) :=
  (Format.layout p info fields).slots.map fun slot =>
    (slot, heldFor values slot.field,
      slot.conditional && (Emptiness.of slot.field.value).holds (heldFor values slot.field))

/-- The live fields of a struct with their values. -/
def heldFields (fields : List Field) (values : List (String × Value)) : List (Field × Value) :=
  (Format.liveFields fields).map fun f => (f, heldFor values f)

theorem slotEntries_map {p : Protocol} {info : StructInfo} {fields : List Field}
    (h : (Shape.struct info fields).IsFinalNode) (ht : info.asTuple = false)
    (values : List (String × Value)) :
    slotEntries p info fields values = (Field.live fields).map fun x =>
      (Layout.slotOf (Layout.modeOf info p) (Layout.usesIntKeys info (Layout.modeOf info p)) x.1
        x.2, heldFor values x.1, Format.omits p x.1 (heldFor values x.1)) := by
  rw [slotEntries, Format.layout, List.map_map]
  refine List.map_congr_left fun x hx => ?_
  rw [← Format.slotOf_omitted h ht (Field.mem_liveFields hx) x.2]
  rfl

theorem slotEntries_tuple {p : Protocol} {info : StructInfo} (fields : List Field)
    (ht : info.asTuple = true) (values : List (String × Value)) :
    slotEntries p info fields values = (Field.live fields).map fun x =>
      (⟨x.2, x.1, [], false⟩, heldFor values x.1, false) := by
  rw [slotEntries, Format.layout, List.map_map]
  refine List.map_congr_left fun x _ => ?_
  simp only [Function.comp_apply, Format.slotOf_tuple ht, Bool.false_and]

theorem heldFields_map (fields : List Field) (values : List (String × Value)) :
    heldFields fields values = (Field.live fields).map fun x => (x.1, heldFor values x.1) := by
  rw [heldFields, ← Field.map_fst_live, List.map_map]
  rfl

theorem countP_slotEntries {p : Protocol} {info : StructInfo} {fields : List Field}
    (h : (Shape.struct info fields).IsFinalNode) (ht : info.asTuple = false)
    (values : List (String × Value)) :
    (slotEntries p info fields values).countP (fun x => !x.2.2) =
      ((heldFields fields values).filter fun x => !Format.omits p x.1 x.2).length := by
  rw [← List.countP_eq_length_filter, slotEntries_map h ht, heldFields_map, List.countP_map,
    List.countP_map]
  rfl

/-- What stands before the values of a struct. -/
def structStart (p : Protocol) (info : StructInfo) (fields : List Field)
    (values : List (String × Value)) : Except Fault Bytes :=
  if info.asTuple then .ok (Wire.arrayHeader (UInt32.ofNat (Format.liveFields fields).length))
  else Format.mapStart p info
    ((heldFields fields values).filter fun x => !Format.omits p x.1 x.2).length

theorem ofNat_one_add (n : Nat) : UInt32.ofNat (1 + n) = UInt32.ofNat n + 1 := by
  rw [Nat.add_comm, UInt32.ofNat_add]
  rfl

/-- The start of a final struct, by the way it is written. -/
theorem structStart_eq {p : Protocol} {info : StructInfo} {fields : List Field}
    (h : (Shape.struct info fields).IsFinalNode) (values : List (String × Value)) :
    structStart p info fields values =
      let n := ((heldFields fields values).filter fun x => !Format.omits p x.1 x.2).length
      match Layout.modeOf info p with
      | .tuple => .ok (Wire.arrayHeader (UInt32.ofNat (Format.liveFields fields).length))
      | .static => .ok (Wire.mapHeader (UInt32.ofNat (Format.liveFields fields).length))
      | .omitEmpty => .ok (Wire.mapHeader (UInt32.ofNat n))
      | .fast =>
        if n % UInt32.size + 1 < UInt32.size then
          .ok (Wire.mapHeader (UInt32.ofNat n + 1) ++ Wire.fingerprint info.name)
        else .error .overflow := by
  unfold structStart
  cases ht : info.asTuple with
  | true => rw [(Format.modeOf_eq_tuple p info).2 ht]; rfl
  | false =>
    rw [if_neg (by simp)]
    cases p with
    | fast =>
      rw [show Layout.modeOf info .fast = .fast by simp [Layout.modeOf, ht]]
      simp only [Format.mapStart, ofNat_one_add]
      rfl
    | msgp2 =>
      cases ho : info.hasOmitEmptyTags with
      | true =>
        rw [show Layout.modeOf info .msgp2 = .omitEmpty by simp [Layout.modeOf, ht, ho]]
        rfl
      | false =>
        have hmode : Layout.modeOf info .msgp2 = .static := by simp [Layout.modeOf, ht, ho]
        -- nothing is tagged, so every live field is present
        have hall : ((heldFields fields values).filter fun x =>
            !Format.omits .msgp2 x.1 x.2).length = (Format.liveFields fields).length := by
          rw [List.filter_eq_self.2, heldFields, List.length_map]
          intro x hx
          obtain ⟨f, hf, rfl⟩ := List.mem_map.1 hx
          rw [← Format.slotOf_omitted h ht hf 0, hmode]
          rfl
        rw [hmode, Format.mapStart, hall]

theorem appends_structHeader (e : Encoder) {info : StructInfo} {fields : List Field}
    (h : (Shape.struct info fields).IsFinalNode) (values : List (String × Value)) (o : Output) :
    Appends o (e.structHeader (Format.layout e.protocol info fields)
      (slotEntries e.protocol info fields values) o)
      (structStart e.protocol info fields values) := by
  rw [structStart_eq h]
  have hcount : info.asTuple = false → (slotEntries e.protocol info fields values).countP
      (fun x => !x.2.2) = _ := fun ht => countP_slotEntries h ht values
  rw [← Bool.not_eq_true, ← Format.modeOf_eq_tuple e.protocol] at hcount
  unfold structHeader Format.layout Layout.entryCount
  generalize Layout.modeOf info e.protocol = mode at hcount ⊢
  cases mode with
  | tuple => exact .ok (Output.contents_constant _ _ _)
  | static => exact .ok (Output.contents_constant _ _ _)
  | omitEmpty =>
    rw [hcount (by simp)]
    exact .ok (Output.contents_dynamic _ _)
  | fast =>
    have hmod (n : Nat) : (UInt32.ofNat n).toNat = n % UInt32.size := UInt32.toNat_ofNat'
    simp only [hcount (by simp), hmod]
    split
    · refine .ok ?_
      rw [Output.contents_constant, Output.contents_dynamic, List.append_assoc]
    · exact .error _

/-- What a field adds to the encoding of a struct. -/
def fieldBytes (p : Protocol) (part : Shape → Value → Except Fault Bytes) (info : StructInfo)
    (x : Field × Value) : Except Fault Bytes :=
  if info.asTuple then part x.1.value x.2
  else if !Format.omits p x.1 x.2 then do return Format.key p info x.1 ++ (← part x.1.value x.2)
  else .ok []

theorem fieldBytes_tuple {info : StructInfo} (ht : info.asTuple = true) (p : Protocol)
    (part : Shape → Value → Except Fault Bytes) :
    fieldBytes p part info = fun x => part x.1.value x.2 := by
  funext x
  rw [fieldBytes, if_pos ht]

theorem fieldBytes_map {info : StructInfo} (ht : info.asTuple = false) (p : Protocol)
    (part : Shape → Value → Except Fault Bytes) :
    fieldBytes p part info = fun x => if !Format.omits p x.1 x.2 then do
      return Format.key p info x.1 ++ (← part x.1.value x.2) else .ok [] := by
  funext x
  rw [fieldBytes, if_neg (by simp [ht])]

/-- The live fields of a struct behind their start, over all of which the format goes at once. -/
theorem structNode_eq {p : Protocol} {part : Shape → Value → Except Fault Bytes}
    {info : StructInfo} {fields : List Field} {values : List (String × Value)}
    (hkeys : Format.checkKeys p info (Format.liveFields fields) = .ok ())
    (hheld : (Format.liveFields fields).mapM (Format.fieldValue info.name values) =
      .ok (heldFields fields values)) :
    Format.structNode p part info fields values = (do
      return (← structStart p info fields values) ++
        (← gather (fieldBytes p part info) (heldFields fields values))) := by
  simp only [Format.structNode, structStart, hkeys, hheld, ok_bind]
  cases ht : info.asTuple with
  | true => rw [fieldBytes_tuple ht]; rfl
  | false => rw [fieldBytes_map ht, ← gather_filter]; rfl

theorem appends_struct {e : Encoder} {depth : Nat} {info : StructInfo} {fields : List Field}
    (h : (Shape.struct info fields).IsFinal)
    (ih : ∀ s v o, s.IsFinal →
      Appends o (e.shape depth s v o) (Format.bytes e.table e.protocol depth s v))
    (values : List (String × Value)) (o : Output) :
    Appends o (e.shape (depth + 1) (.struct info fields) (.record values) o)
      (Format.structNode e.protocol (Format.bytes e.table e.protocol depth) info fields
        values) := by
  have hfield : ∀ x ∈ Field.live fields, x.1.value.IsFinal := fun x hx =>
    h.field (List.mem_filter.1 (Field.mem_liveFields hx)).1
  simp only [shape, Format.plan_eq h.here]
  cases hkeys : Format.checkKeys e.protocol info (Format.liveFields fields) with
  | error fault =>
    rw [Format.structNode, hkeys]
    exact .error fault
  | ok u =>
    have hslots := slotValues_eq info.name values (Format.layout e.protocol info fields).slots
    rw [layout_slots_field] at hslots
    rcases hslots with ⟨fault, h₁, h₂⟩ | ⟨h₁, h₂⟩
    · simp only [Format.structNode, hkeys, ok_bind, pure_bind, h₁, h₂]
      exact .error fault
    · rw [structNode_eq hkeys h₂]
      simp only [ok_bind, pure_bind, h₁]
      refine (appends_structHeader e h.here values o).bind fun o' => ?_
      change Appends o' ((slotEntries e.protocol info fields values).foldlM _ o') _
      cases ht : info.asTuple with
      | true =>
        rw [slotEntries_tuple fields ht, heldFields_map, List.foldlM_map, gather_map,
          fieldBytes_tuple ht]
        refine Appends.foldlM (fun x hx o => ?_) o'
        refine .of_contents_eq ?_ (ih x.1.value _ (o.constant e.fuse []) (hfield x hx))
        rw [Output.contents_constant, List.append_nil]
      | false =>
        rw [slotEntries_map h.here ht, heldFields_map, List.foldlM_map, gather_map,
          fieldBytes_map ht]
        refine Appends.foldlM (fun x hx o => ?_) o'
        dsimp only
        cases hom : Format.omits e.protocol x.1 (heldFor values x.1) with
        | true =>
          exact .ok (List.append_nil _).symm
        | false =>
          refine .prepend ?_ (ih x.1.value _ _ (hfield x hx))
          rw [Output.contents_constant, Format.slotOf_key ht]

theorem appends_array {e : Encoder} {depth : Nat} {part : Shape → Value → Except Fault Bytes}
    {info : ArrayInfo} {element : Shape} {v : Value}
    (ih : ∀ items, v = .array items → ∀ w ∈ items, ∀ o,
      Appends o (e.shape depth element w o) (part element w)) (o : Output) :
    Appends o (e.shape (depth + 1) (.array info element) v o)
      (Format.arrayNode part info element v) := by
  simp only [shape, Format.arrayNode]
  cases info.resolvedSize with
  | error fault => exact .error fault
  | ok size =>
    simp only [ok_bind]
    split
    · cases byteArray size v with
      | error fault => exact .error fault
      | ok data => exact .ok (Output.contents_dynamic _ _)
    · cases v with
      | array items =>
        simp only
        split
        · exact .prepend (Output.contents_constant _ _ _) (.foldlM (ih items rfl) _)
        · exact .error _
      | _ => exact .error _

/-- What is not a record for a struct adds one level of the format, if its parts add what they
should. -/
theorem appends_node {e : Encoder} {depth : Nat} {part : Shape → Value → Except Fault Bytes}
    {s : Shape} {v : Value}
    (hs : ∀ info fields values, s = .struct info fields → v ≠ .record values)
    (ih : ∀ s' v', Format.Child e.table s v s' v' → ∀ o,
      Appends o (e.shape depth s' v' o) (part s' v')) (o : Output) :
    Appends o (e.shape (depth + 1) s v o) (Format.node e.table e.protocol part s v) := by
  cases s with
  | struct info fields =>
    cases v with
    | record values => exact absurd rfl (hs info fields values rfl)
    | _ => exact .error _
  | map key value =>
    cases v with
    | map entries =>
      refine .prepend (Output.contents_dynamic _ _) (.foldlM (fun x hx o => ?_) _)
      simp only
      cases hk : mapKey key x.1 with
      | error fault => exact .error fault
      | ok bytes => exact .prepend (Output.contents_dynamic _ _) (ih value x.2 (.entry hx) _)
    | _ => exact .error _
  | slice element =>
    cases v with
    | array items =>
      exact .prepend (Output.contents_dynamic _ _)
        (.foldlM (fun x hx o => ih element x (.element hx) o) _)
    | _ => exact .error _
  | array info element =>
    refine appends_array (fun items hv w hw o => ?_) o
    subst hv
    exact ih element w (.item hw) o
  | ptr pointee =>
    cases v with
    | nil => exact .ok (Output.contents_constant _ _ _)
    | _ => exact ih _ _ (.pointee (by simp)) _
  | base info =>
    simp only [shape, Format.node]
    split
    · rename_i hnamed
      cases hget : e.table.get? (info.typeName.getD "") with
      | none => exact .error _
      | some target =>
        exact .of_contents_eq (Output.contents_flush o) (ih target v (.target hnamed hget) o.flush)
    · cases hsc : scalar info.kind v with
      | error fault => exact .error fault
      | ok bytes => exact .ok (Output.contents_dynamic _ _)

/-- What holds at every node of a shape and of a table holds at every node of a child. -/
theorem everywhere_child {Q : Shape → Prop} {t : Table}
    (ht : ∀ name s, t.get? name = some s → s.Everywhere Q) {s s' : Shape} {v v' : Value}
    (hs : s.Everywhere Q) (h : Format.Child t s v s' v') : s'.Everywhere Q := by
  cases h with
  | field hlive hheld => exact hs.field (List.mem_filter.1 hlive).1
  | entry hmem => exact hs.2
  | element hmem => exact hs.2
  | item hmem => exact hs.2
  | pointee hne => exact hs.2
  | target hkind hget => exact ht _ _ hget

theorem isFinal_child {t : Table} (ht : t.IsFinal) {s s' : Shape} {v v' : Value}
    (hs : s.IsFinal) (h : Format.Child t s v s' v') : s'.IsFinal :=
  everywhere_child (fun name s hget => (ht name s hget).1) hs h

/-- Whatever is held back, and whether constants are fused at all, a run adds the bytes of the
format or fails as the format does. -/
theorem appends_shape (e : Encoder) (ht : e.table.IsFinal) (depth : Nat) (s : Shape) (v : Value)
    (o : Output) (hs : s.IsFinal) :
    Appends o (e.shape depth s v o) (Format.bytes e.table e.protocol depth s v) := by
  induction depth generalizing s v o with
  | zero => exact .error _
  | succ depth ih =>
    by_cases hrecord : ∃ info fields values, s = .struct info fields ∧ v = .record values
    · obtain ⟨info, fields, values, rfl, rfl⟩ := hrecord
      exact appends_struct hs ih values o
    · refine appends_node (fun info fields values hstruct hvalue => ?_) (fun s' v' hc o => ?_) o
      · exact hrecord ⟨info, fields, values, hstruct, hvalue⟩
      · exact ih s' v' o (isFinal_child ht hs hc)

theorem encodeShape_eq_of_appends {e : Encoder} {s : Shape} {v : Value}
    {plain : Except Fault Bytes} (h : Appends {} (e.shape (e.depthBudget s v) s v {}) plain) :
    e.encodeShape s v = plain := by
  unfold encodeShape
  generalize e.shape (e.depthBudget s v) s v {} = run at h ⊢
  cases h with
  | error fault => rfl
  | ok h =>
    rw [ok_bind, Output.toList_written_flush, h]
    rfl

theorem encodeShape_eq_bytes (e : Encoder) (ht : e.table.IsFinal) {s : Shape} (hs : s.IsFinal)
    (v : Value) : e.encodeShape s v = Format.bytes e.table e.protocol (e.depthBudget s v) s v :=
  encodeShape_eq_of_appends (appends_shape e ht (e.depthBudget s v) s v {} hs)

theorem encodeShape_eq_of_bytes (e : Encoder) (ht : e.table.IsFinal) {s : Shape} (hs : s.IsFinal)
    {v : Value} {depth : Nat} (h : Format.bytes e.table e.protocol depth s v ≠ .error .tooDeep) :
    e.encodeShape s v = Format.bytes e.table e.protocol depth s v := by
  rw [encodeShape_eq_bytes e ht hs, Format.bytes_depthBudget h]

theorem depthBudget_child (e : Encoder) {s s' : Shape} {v v' : Value}
    (h : Format.Child e.table s v s' v') : e.depthBudget s' v' ≤ e.depthBudget s v := by
  have hle : v'.height ≤ v.height ∧ s'.height ≤ max s.height e.table.height := by
    rcases h.cases_height with ⟨hv, hs⟩ | ⟨rfl, rfl⟩ | ⟨rfl, name, -, hget⟩
    · omega
    · simp only [Shape.height]; omega
    · have := Format.height_of_get? hget
      omega
  unfold depthBudget
  refine Nat.succ_le_succ (Nat.mul_le_mul (by omega) (Nat.mul_le_mul (Nat.le_refl _) ?_))
  omega

/-- The recursive definition of the format, without a depth: the encoding of a value is one level
of the format over the encodings of its parts. -/
theorem encodeShape_eq_node (e : Encoder) (ht : e.table.IsFinal) {s : Shape} (hs : s.IsFinal)
    (v : Value) : e.encodeShape s v = Format.node e.table e.protocol e.encodeShape s v := by
  have hdeep : Format.bytes e.table e.protocol (e.depthBudget s v) s v =
      Format.bytes e.table e.protocol (e.depthBudget s v + 1) s v := by
    by_cases h : Format.bytes e.table e.protocol (e.depthBudget s v + 1) s v = .error .tooDeep
    · exact ((Format.unrolls_bytes _ _).below _ 1 s v).elim (fun h' => h'.trans h.symm) id
    · exact Format.bytes_depthBudget h
  rw [encodeShape_eq_bytes e ht hs, hdeep]
  refine Format.node_congr fun s' v' hc => ?_
  have hs' := isFinal_child ht hs hc
  by_cases h : Format.bytes e.table e.protocol (e.depthBudget s' v') s' v' = .error .tooDeep
  · rw [encodeShape_eq_bytes e ht hs', h]
    by_cases h' : Format.bytes e.table e.protocol (e.depthBudget s v) s' v' = .error .tooDeep
    · exact h'
    · rw [← Format.bytes_depthBudget h', h]
  · rw [encodeShape_eq_bytes e ht hs', Format.bytes_mono (depthBudget_child e hc) h]

theorem encode_eq_encodeShape (e : Encoder) {name : String} {s : Shape}
    (h : e.table.get? name = some s) (v : Value) : e.encode name v = e.encodeShape s v := by
  rw [encode, h]

/-- Over a finalized table the encoder gives the bytes of the format, or its error, with and
without fusion; it finds no end exactly where the format has none at any depth. The leaves of the
format are those of its tables: a scalar, a map key and the contents of a byte array have the bytes
that a row gives, and what is in no row is reported. -/
theorem encodeShape_iff_bytes (d : Directives) (t : Table) (p : Protocol) (fuse : Bool) (s : Shape)
    (hs : s.IsFinal) (v : Value) (r : Except Fault Bytes) (hr : r ≠ .error .tooDeep) :
    ((Encoder.mk ((Pipeline.standard d).finalizeAll t) p fuse).encodeShape s v = r ↔
      ∃ depth, Format.bytes ((Pipeline.standard d).finalizeAll t) p depth s v = r) ∧
    (∀ k w, (∀ b, scalar k w = .ok b ↔ Format.Leaf k w b) ∧
      ∀ fault, scalar k w = .error fault ↔
        (∀ b, ¬ Format.Leaf k w b) ∧ fault = wrongKind k.word w) ∧
    (∀ k w, (∀ b, mapKey k w = .ok b ↔ Format.KeyLeaf k w b) ∧
      ∀ fault, mapKey k w = .error fault ↔
        (∀ b, ¬ Format.KeyLeaf k w b) ∧ fault = wrongKind (Format.keyWord k) w) ∧
    ∀ size w, (∀ data, byteArray size w = .ok data ↔ Format.Given w data ∧ data.length = size) ∧
      ∀ fault, byteArray size w = .error fault ↔ Format.GivenFault size w fault := by
  let e := Encoder.mk ((Pipeline.standard d).finalizeAll t) p fuse
  have ht : e.table.IsFinal := Table.isFinal_finalizeAll d t
  refine ⟨⟨?_, ?_⟩, fun k w => ⟨fun b => scalar_eq_ok_iff, fun fault => scalar_eq_error_iff⟩,
    fun k w => ⟨fun b => mapKey_eq_ok_iff, fun fault => mapKey_eq_error_iff⟩,
    fun size w => ⟨fun data => byteArray_eq_ok_iff, fun fault => byteArray_eq_error_iff⟩⟩
  · rintro rfl
    exact ⟨e.depthBudget s v, (encodeShape_eq_bytes e ht hs v).symm⟩
  · rintro ⟨depth, rfl⟩
    exact encodeShape_eq_of_bytes e ht hs hr

/-- A list of numbers, linked by pointers to the identity itself. -/
def chainTable : Table := Table.ofList [("Chain",
  .struct { name := "Chain" } [
    .mk { zid := 0, name := "head" } (.ofKind .int64),
    .mk { name := "note", skip := true } (.ofKind .string),
    .mk { zid := 2, name := "tail" } (.ptr (.ident "Chain"))])]

/-- The second link holds a zero and ends the list, so both its fields are left out. -/
theorem encodeShape_chain : (Shape.ident "Chain").IsFinal ∧
    (Encoder.mk ((Pipeline.standard {}).finalizeAll chainTable) .fast true).encodeShape
      (.ident "Chain") (.record [("head", .int 7),
        ("tail", .record [("head", .int 0), ("tail", .nil)])]) =
    .ok [0x83, 0xff, 0xc4, 5, 67, 104, 97, 105, 110, 0, 7, 2,
      0x81, 0xff, 0xc4, 5, 67, 104, 97, 105, 110] :=
  ⟨trivial, (encodeShape_iff_bytes {} chainTable .fast true (.ident "Chain") trivial _ _
    (by simp)).1.2 ⟨5, rfl⟩⟩

end Encoder

end Packwright
