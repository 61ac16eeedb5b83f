import Packwright.Proofs.Finalized
import Packwright.Proofs.Format

/-
  Layouts of final structs. A final struct records the right number of skipped fields and whether
  a live field is tagged, so `Layout.plan` fails only on its keys (`plan_eq`), and the slots of the
  layout agree with the format: `slotOf_key` for the key of a field, `slotOf_omitted` for when it
  is left out.
-/

namespace Packwright

namespace Field

theorem map_fst_live (fields : List Field) :
    (live fields).map Prod.fst = Format.liveFields fields := by
  unfold live Format.liveFields
  suffices h : ∀ n, ((fields.zipIdx n).filter fun f => !f.1.info.skip).map Prod.fst =
      fields.filter fun f => !f.info.skip from h 0
  induction fields with
  | nil => intro n; rfl
  | cons f rest ih =>
    intro n
    rw [List.zipIdx_cons]
    by_cases hf : f.info.skip
    · simp [hf, ih]
    · simp [hf, ih]

theorem mem_liveFields {fields : List Field} {x : Field × Nat} (hx : x ∈ live fields) :
    x.1 ∈ Format.liveFields fields := by
  rw [← map_fst_live]
  exact List.mem_map.2 ⟨x, hx, rfl⟩

end Field

namespace Layout

variable {p : Protocol} {info : StructInfo} {fields : List Field} {l : Layout}

theorem of_plan (h : plan p info fields = .ok l) :
    l.name = info.name ∧ l.mode = modeOf info p ∧
      l.intKeys = usesIntKeys info (modeOf info p) ∧ l.slots = (Field.live fields).map fun f =>
        slotOf (modeOf info p) (usesIntKeys info (modeOf info p)) f.1 f.2 := by
  obtain ⟨live, -, h⟩ := bind_eq_ok h
  dsimp only at h
  split at h
  · split at h
    · rw [← Except.ok.inj h]
      exact ⟨rfl, rfl, rfl, rfl⟩
    · cases h
  · rw [← Except.ok.inj h]
    exact ⟨rfl, rfl, rfl, rfl⟩

/-- The slots of a layout are its live fields, in order of declaration. -/
theorem slots_of_plan (h : plan p info fields = .ok l) :
    l.slots = (Field.live fields).map fun f =>
      slotOf (modeOf info p) (usesIntKeys info (modeOf info p)) f.1 f.2 :=
  (of_plan h).2.2.2

theorem mem_liveFields_of_plan (h : plan p info fields = .ok l) {slot : Slot}
    (hslot : slot ∈ l.slots) : slot.field ∈ Format.liveFields fields := by
  rw [slots_of_plan h] at hslot
  obtain ⟨f, hf, rfl⟩ := List.mem_map.1 hslot
  exact Field.mem_liveFields hf

end Layout

namespace Format

theorem length_liveFields (fields : List Field) :
    (liveFields fields).length = fields.length - fields.countP fun f => f.info.skip := by
  rw [liveFields, ← List.countP_eq_length_filter,
    List.length_eq_countP_add_countP (fun f : Field => f.info.skip)]
  have h : (fun f : Field => decide ¬f.info.skip = true) = fun f : Field => !f.info.skip := by
    funext f; simp
  rw [h]; omega

/-- The layout of a struct whose recorded data agree with its fields. -/
def layout (p : Protocol) (info : StructInfo) (fields : List Field) : Layout where
  name := info.name
  mode := Layout.modeOf info p
  header := match Layout.modeOf info p with
    | .tuple => some (Wire.arrayHeader (UInt32.ofNat (liveFields fields).length))
    | .static => some (Wire.mapHeader (UInt32.ofNat (liveFields fields).length))
    | .fast | .omitEmpty => none
  fingerprint := match Layout.modeOf info p with
    | .fast => some (Wire.fingerprint info.name)
    | _ => none
  intKeys := Layout.usesIntKeys info (Layout.modeOf info p)
  declared := fields.length
  live := (liveFields fields).length
  slots := (Field.live fields).map fun f =>
    Layout.slotOf (Layout.modeOf info p) (Layout.usesIntKeys info (Layout.modeOf info p)) f.1 f.2

theorem usesIntKeys_eq (p : Protocol) (info : StructInfo) :
    Layout.usesIntKeys info (Layout.modeOf info p) = hasIntKeys p info := by
  unfold Layout.modeOf hasIntKeys
  cases ht : info.asTuple <;> cases p <;> cases ho : info.hasOmitEmptyTags <;>
    simp [Layout.usesIntKeys]

/-- A final struct counts its live fields. -/
theorem liveCount_eq {info : StructInfo} {fields : List Field}
    (h : (Shape.struct info fields).IsFinalNode) :
    info.liveCount fields = .ok (liveFields fields).length := by
  rw [StructInfo.liveCount, checkedSub, h.1, if_pos List.countP_le_length, length_liveFields]

/-- A final struct has a layout exactly when its keys can be told apart. -/
theorem plan_eq {p : Protocol} {info : StructInfo} {fields : List Field}
    (h : (Shape.struct info fields).IsFinalNode) :
    Layout.plan p info fields =
      (do checkKeys p info (liveFields fields); return layout p info fields) := by
  simp only [Layout.plan, checkKeys, liveCount_eq h, Field.map_fst_live, ← usesIntKeys_eq]
  cases hk : Layout.usesIntKeys info (Layout.modeOf info p) with
  | false => rw [layout, hk]; rfl
  | true =>
    cases hz : Layout.checkZids info.name [] (liveFields fields) with
    | ok u => rw [layout, hk]; rfl
    | error e => rfl

theorem checkKeys_of_plan {p : Protocol} {info : StructInfo} {fields : List Field} {l : Layout}
    (hs : (Shape.struct info fields).IsFinalNode) (h : Layout.plan p info fields = .ok l) :
    checkKeys p info (liveFields fields) = .ok () ∧ l = layout p info fields := by
  rw [plan_eq hs] at h
  cases hk : checkKeys p info (liveFields fields) with
  | error fault => rw [hk] at h; cases h
  | ok u => rw [hk] at h; exact ⟨rfl, (Except.ok.inj h).symm⟩

theorem modeOf_eq_tuple (p : Protocol) (info : StructInfo) :
    Layout.modeOf info p = .tuple ↔ info.asTuple = true := by
  unfold Layout.modeOf
  cases info.asTuple <;> cases p <;> cases info.hasOmitEmptyTags <;> simp

theorem slotOf_key {p : Protocol} {info : StructInfo} (ht : info.asTuple = false) (f : Field)
    (index : Nat) :
    (Layout.slotOf (Layout.modeOf info p) (Layout.usesIntKeys info (Layout.modeOf info p)) f
      index).key = key p info f := by
  unfold Layout.modeOf Layout.slotOf key
  cases p <;> cases ho : info.hasOmitEmptyTags <;> simp [ht, Layout.usesIntKeys]

theorem slotOf_omitted {p : Protocol} {info : StructInfo} {fields : List Field}
    (h : (Shape.struct info fields).IsFinalNode) (ht : info.asTuple = false) {f : Field}
    (hf : f ∈ liveFields fields) (index : Nat) (v : Value) :
    ((Layout.slotOf (Layout.modeOf info p) (Layout.usesIntKeys info (Layout.modeOf info p)) f
      index).conditional && (Emptiness.of f.value).holds v) = omits p f v := by
  unfold Layout.modeOf Layout.slotOf omits
  cases p with
  | fast => simp [ht]
  | msgp2 =>
    cases ho : info.hasOmitEmptyTags with
    | true => simp only [ht]; rfl
    | false =>
      -- no live field is tagged, so nothing is left out
      have hno := h.2.symm.trans ho
      obtain ⟨hmem, hlive⟩ := List.mem_filter.1 hf
      have htag : f.info.omitEmpty = false := by
        have := List.any_eq_false.1 hno f hmem
        simpa [hlive] using this
      simp [ht, htag]

theorem slotOf_tuple {p : Protocol} {info : StructInfo} (ht : info.asTuple = true) (f : Field)
    (index : Nat) :
    Layout.slotOf (Layout.modeOf info p) (Layout.usesIntKeys info (Layout.modeOf info p)) f index =
      ⟨index, f, [], false⟩ := by
  rw [(modeOf_eq_tuple p info).2 ht]
  rfl

end Format

end Packwright
