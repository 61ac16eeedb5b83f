import Packwright.Proofs.Buffering

/-
  The encoder as a plain recursion for any shape. The format of final shapes says what a struct is
  in terms of its fields; here a struct is what its layout says, so that what a struct records
  about its fields need not be right. `encodeShape_eq_bytes` is the encoder in these terms, with
  and without fusion, and `encodeShape_congr` compares two encodings depth by depth, although each
  has a budget of its own.
-/

namespace Packwright

namespace Encoder

theorem mem_of_slotValues {struct : String} {values : List (String × Value)} {slots : List Slot}
    {held : List (Slot × Value × Bool)} (h : slotValues struct values slots = .ok held)
    {x : Slot × Value × Bool} (hx : x ∈ held) :
    x.1 ∈ slots ∧ Assoc.get? values x.1.field.info.name = some x.2.1 := by
  obtain ⟨slot, hslot, hv⟩ := Format.mem_of_mapM_eq_ok h hx
  split at hv
  · obtain rfl := Except.ok.inj hv
    exact ⟨hslot, by assumption⟩
  · cases hv

end Encoder

namespace Planned

open Format (gather Below Child Unrolls)

/-- What stands before the entries of a struct, given its slots with their values. -/
def start (layout : Layout) (held : List (Slot × Value × Bool)) : Except Fault Bytes := do
  let header ← match layout.header with
    | some header => .ok header
    | none => Wire.mapHeader <$> layout.entryCount (UInt32.ofNat (held.countP fun x => !x.2.2))
  return header ++ layout.fingerprint.getD []

/-- What a slot adds: its key and its value, unless it is left out. -/
def entry (part : Shape → Value → Except Fault Bytes) (x : Slot × Value × Bool) :
    Except Fault Bytes :=
  if x.2.2 then .ok [] else do return x.1.key ++ (← part x.1.field.value x.2.1)

/-- A struct, by its layout. -/
def structNode (p : Protocol) (part : Shape → Value → Except Fault Bytes) (info : StructInfo)
    (fields : List Field) (values : List (String × Value)) : Except Fault Bytes := do
  let layout ← Layout.plan p info fields
  let held ← Encoder.slotValues info.name values layout.slots
  return (← start layout held) ++ (← gather (entry part) held)

/-- The encoding of a value as a shape, given the encodings of its parts. -/
def node (t : Table) (p : Protocol) (part : Shape → Value → Except Fault Bytes) :
    Shape → Value → Except Fault Bytes
  | .struct info fields, .record values => structNode p part info fields values
  | s, v => Format.node t p part s v

/-- The encoding of a value as a shape, to a given depth. -/
def bytes (t : Table) (p : Protocol) : Nat → Shape → Value → Except Fault Bytes
  | 0, _, _ => .error .tooDeep
  | depth + 1, s, v => node t p (bytes t p depth) s v

theorem node_eq_format {t : Table} {p : Protocol} {part : Shape → Value → Except Fault Bytes}
    {s : Shape} {v : Value}
    (h : ∀ info fields values, s = .struct info fields → v ≠ .record values) :
    node t p part s v = Format.node t p part s v := by
  cases s with
  | struct info fields =>
    cases v with
    | record values => exact absurd rfl (h info fields values rfl)
    | _ => rfl
  | _ => rfl

/-- A record for a struct has a case of its own; for the rest the layouts play no part. -/
theorem record_or (s : Shape) (v : Value) :
    (∃ info fields values, s = .struct info fields ∧ v = .record values) ∨
      ∀ info fields values, s = .struct info fields → v ≠ .record values := by
  by_cases h : ∃ info fields values, s = .struct info fields ∧ v = .record values
  · exact Or.inl h
  · exact Or.inr fun info fields values hs hv => h ⟨info, fields, values, hs, hv⟩

theorem structNode_below {t : Table} {p : Protocol}
    {part part' : Shape → Value → Except Fault Bytes} {info : StructInfo} {fields : List Field}
    {values : List (String × Value)}
    (h : ∀ s' v', Child t (.struct info fields) (.record values) s' v' →
      Below (part s' v') (part' s' v')) :
    Below (structNode p part info fields values) (structNode p part' info fields values) := by
  refine (Below.refl _).bind fun l hl => (Below.refl _).bind fun held hheld => ?_
  refine (Below.refl _).bind fun _ _ => (Below.gather fun x hx => ?_).bind fun _ _ => Below.refl _
  obtain ⟨hslot, hget⟩ := Encoder.mem_of_slotValues hheld hx
  unfold entry
  split
  · exact Below.refl _
  · exact (h _ _ (.field (Layout.mem_liveFields_of_plan hl hslot) hget)).bind fun _ _ =>
      Below.refl _

theorem unrolls_bytes (t : Table) (p : Protocol) : Unrolls t (bytes t p) where
  cut _ _ := rfl
  step {d d' s v} h := by
    rcases record_or s v with ⟨info, fields, values, rfl, rfl⟩ | hrecord
    · exact structNode_below h
    · rw [bytes, bytes, node_eq_format hrecord, node_eq_format hrecord]
      exact Format.node_below h

end Planned

namespace Encoder

open Planned (record_or)

theorem appends_start (e : Encoder) (layout : Layout) (held : List (Slot × Value × Bool))
    (o : Output) : Appends o (e.structHeader layout held o) (Planned.start layout held) := by
  unfold structHeader Planned.start
  cases layout.header with
  | some header =>
    cases layout.fingerprint with
    | some entry => exact .ok (by simp)
    | none => exact .ok (by simp)
  | none =>
    simp only
    cases layout.entryCount _ with
    | error fault => exact .error fault
    | ok count =>
      cases layout.fingerprint with
      | some entry => exact .ok (by simp)
      | none => exact .ok (by simp)

/-- Whatever is held back, and whether constants are fused at all, a run adds the planned bytes or
fails as they do. -/
theorem appends_planned (e : Encoder) (depth : Nat) (s : Shape) (v : Value) (o : Output) :
    Appends o (e.shape depth s v o) (Planned.bytes e.table e.protocol depth s v) := by
  induction depth generalizing s v o with
  | zero => exact .error _
  | succ depth ih =>
    rcases record_or s v with ⟨info, fields, values, rfl, rfl⟩ | hrecord
    · simp only [shape, Planned.bytes, Planned.node, Planned.structNode]
      cases Layout.plan e.protocol info fields with
      | error fault => exact .error fault
      | ok l =>
        simp only [ok_bind]
        cases slotValues info.name values l.slots with
        | error fault => exact .error fault
        | ok held =>
          refine (appends_start e l held o).bind fun o' => .foldlM (fun x _ o => ?_) o'
          dsimp only [Planned.entry]
          split
          · exact .ok (List.append_nil _).symm
          · exact .prepend (Output.contents_constant _ _ _) (ih _ _ _)
    · rw [Planned.bytes, Planned.node_eq_format hrecord]
      exact appends_node hrecord (fun s' v' _ o => ih s' v' o) o

theorem encodeShape_eq_planned (e : Encoder) (s : Shape) (v : Value) :
    e.encodeShape s v = Planned.bytes e.table e.protocol (e.depthBudget s v) s v :=
  encodeShape_eq_of_appends (appends_planned e _ s v {})

/-- Two encodings that agree at every depth agree, whatever their budgets are. -/
theorem encodeShape_congr {e e' : Encoder} {s s' : Shape} {v v' : Value}
    (h : ∀ depth, Planned.bytes e.table e.protocol depth s v =
      Planned.bytes e'.table e'.protocol depth s' v') :
    e.encodeShape s v = e'.encodeShape s' v' := by
  have hunrolls := Planned.unrolls_bytes e.table e.protocol
  have hunrolls' := Planned.unrolls_bytes e'.table e'.protocol
  rw [encodeShape_eq_planned, encodeShape_eq_planned]
  by_cases hd : Planned.bytes e.table e.protocol (e'.depthBudget s' v') s v = .error .tooDeep
  · rw [← h (e'.depthBudget s' v'), hd]
    -- the second budget is not enough, so no depth is, and neither is the first budget
    refine Classical.byContradiction fun hne => ?_
    rw [h] at hne hd
    exact hne ((hunrolls'.depthBudget hne).symm.trans hd)
  · rw [hunrolls.depthBudget hd, h]

end Encoder

end Packwright
