import Packwright.Proofs.Planned

/-
  Schema evolution under the fast protocol. What a struct that is not a tuple comes to depends on
  its name and on its present entries alone: the zid, shape and value of each live field that is
  not empty, in order of declaration (`fastNode`). So two versions of a struct give the same bytes
  for records with the same present entries, whatever else they differ in.

  `Evolves` names the edits that keep the present entries: a field is renamed or tagged, the keys
  are of another kind, a skipped field comes, goes or changes, and a new field holds an empty
  value. `evolves_iff` shows that these are all.
-/

namespace Packwright

namespace Evolution

open Format (gather liveFields mapStart)
open Encoder (heldFor heldFields)

/-- Whether a field counts as empty when it holds a value. -/
def isEmpty (x : Field × Value) : Bool := (Emptiness.of x.1.value).holds x.2

/-- The zid, shape and value of each live field that is not empty. -/
def presentEntries (fields : List Field) (values : List (String × Value)) :
    List (Int64 × Shape × Value) :=
  ((heldFields fields values).filter fun x => !isEmpty x).map fun x =>
    (x.1.info.zid, x.1.value, x.2)

/-- A struct under the fast protocol, from its name and its present entries. -/
def fastNode (part : Shape → Value → Except Fault Bytes) (name : String)
    (entries : List (Int64 × Shape × Value)) : Except Fault Bytes := do
  return (← mapStart .fast { name } entries.length) ++
    (← gather (fun x => do return Wire.int x.1 ++ (← part x.2.1 x.2.2)) entries)

/-- The slots of a struct under the fast protocol with their values. -/
def fastSlots (fields : List Field) (values : List (String × Value)) :
    List (Slot × Value × Bool) :=
  (Field.live fields).map fun x =>
    (⟨x.2, x.1, Wire.int x.1.info.zid, true⟩, heldFor values x.1,
      isEmpty (x.1, heldFor values x.1))

theorem plan_fast {info : StructInfo} {fields : List Field} {l : Layout}
    (ht : info.asTuple = false) (h : Layout.plan .fast info fields = .ok l) :
    l.mode = .fast ∧ l.header = none ∧ l.fingerprint = some (Wire.fingerprint info.name) := by
  have hmode : Layout.modeOf info .fast = .fast := by simp [Layout.modeOf, ht]
  obtain ⟨live, -, h⟩ := bind_eq_ok h
  simp only [hmode, Layout.usesIntKeys, if_true] at h
  split at h
  · obtain rfl := Except.ok.inj h
    exact ⟨rfl, rfl, rfl⟩
  · cases h

theorem slotValues_fast {info : StructInfo} {fields : List Field} {l : Layout}
    {values : List (String × Value)} (ht : info.asTuple = false)
    (h : Layout.plan .fast info fields = .ok l)
    (hheld : ∀ f ∈ liveFields fields, ∃ v, Assoc.get? values f.info.name = some v) :
    Encoder.slotValues info.name values l.slots = .ok (fastSlots fields values) := by
  have hmode : Layout.modeOf info .fast = .fast := by simp [Layout.modeOf, ht]
  rw [Layout.slots_of_plan h, hmode, Encoder.slotValues, List.mapM_map]
  refine Encoder.mapM_eq_ok fun x hx => ?_
  obtain ⟨v, hv⟩ := hheld x.1 (Field.mem_liveFields hx)
  have hfor : heldFor values x.1 = v := by rw [heldFor, hv]; rfl
  have hslot : Layout.slotOf .fast (Layout.usesIntKeys info .fast) x.1 x.2 =
      ⟨x.2, x.1, Wire.int x.1.info.zid, true⟩ := rfl
  rw [Function.comp_apply, hslot, hfor]
  simp only [hv]
  rfl

theorem countP_fastSlots (fields : List Field) (values : List (String × Value)) :
    (fastSlots fields values).countP (fun x => !x.2.2) =
      (presentEntries fields values).length := by
  rw [presentEntries, List.length_map, ← List.countP_eq_length_filter, Encoder.heldFields_map,
    fastSlots, List.countP_map, List.countP_map]
  rfl

theorem start_fast {info : StructInfo} {fields : List Field} {l : Layout}
    (ht : info.asTuple = false) (h : Layout.plan .fast info fields = .ok l)
    (values : List (String × Value)) :
    Planned.start l (fastSlots fields values) =
      mapStart .fast { name := info.name } (presentEntries fields values).length := by
  obtain ⟨hmode, hheader, hprint⟩ := plan_fast ht h
  have hmod (n : Nat) : (UInt32.ofNat n).toNat = n % UInt32.size := UInt32.toNat_ofNat'
  simp only [Planned.start, hheader, hprint, Layout.entryCount, hmode, countP_fastSlots, hmod,
    mapStart, Encoder.ofNat_one_add]
  split
  · rfl
  · rfl

theorem gather_fast (part : Shape → Value → Except Fault Bytes) (fields : List Field)
    (values : List (String × Value)) :
    gather (Planned.entry part) (fastSlots fields values) =
      gather (fun x => do return Wire.int x.1 ++ (← part x.2.1 x.2.2))
        (presentEntries fields values) := by
  rw [presentEntries, Encoder.gather_map, Encoder.gather_filter, Encoder.heldFields_map,
    Encoder.gather_map, fastSlots, Encoder.gather_map]
  congr 1
  funext x
  cases hx : isEmpty (x.1, heldFor values x.1) with
  | true => simp [Planned.entry]
  | false => simp [Planned.entry]

/-- A struct comes to what its name and its present entries say, if it has a layout and the record
holds its live fields. -/
theorem structNode_fast {info : StructInfo} {fields : List Field} {l : Layout}
    {values : List (String × Value)} (part : Shape → Value → Except Fault Bytes)
    (ht : info.asTuple = false) (h : Layout.plan .fast info fields = .ok l)
    (hheld : ∀ f ∈ liveFields fields, ∃ v, Assoc.get? values f.info.name = some v) :
    Planned.structNode .fast part info fields values =
      fastNode part info.name (presentEntries fields values) := by
  rw [Planned.structNode, h, ok_bind, slotValues_fast ht h hheld, ok_bind, start_fast ht h,
    gather_fast]
  rfl

/-! ## Edits -/

/-- One version of a struct and its record evolve into another. -/
inductive Evolves (values values' : List (String × Value)) :
    List Field → List Field → Prop where
  | nil : Evolves values values' [] []
  /-- A field under the same zid, of the same shape and with the same value. Its name and its
  tags are free. -/
  | keep {f f' : Field} {rest rest' : List Field} (live : f.info.skip = false)
      (live' : f'.info.skip = false) (zid : f.info.zid = f'.info.zid)
      (shape : f.value = f'.value) (held : heldFor values f = heldFor values' f')
      (h : Evolves values values' rest rest') : Evolves values values' (f :: rest) (f' :: rest')
  /-- A field of the first version that is skipped or holds an empty value. -/
  | removed {f : Field} {rest rest' : List Field}
      (absent : f.info.skip = true ∨ isEmpty (f, heldFor values f) = true)
      (h : Evolves values values' rest rest') : Evolves values values' (f :: rest) rest'
  /-- A field of the second version that is skipped or holds an empty value. -/
  | added {f' : Field} {rest rest' : List Field}
      (absent : f'.info.skip = true ∨ isEmpty (f', heldFor values' f') = true)
      (h : Evolves values values' rest rest') : Evolves values values' rest (f' :: rest')

theorem presentEntries_absent {f : Field} {values : List (String × Value)}
    (h : f.info.skip = true ∨ isEmpty (f, heldFor values f) = true) (rest : List Field) :
    presentEntries (f :: rest) values = presentEntries rest values := by
  rcases h with h | h
  · simp [presentEntries, heldFields, Format.liveFields_cons, h]
  · cases hskip : f.info.skip <;>
      simp [presentEntries, heldFields, Format.liveFields_cons, h, hskip]

theorem presentEntries_present {f : Field} {values : List (String × Value)}
    (hlive : f.info.skip = false) (h : isEmpty (f, heldFor values f) = false)
    (rest : List Field) :
    presentEntries (f :: rest) values =
      (f.info.zid, f.value, heldFor values f) :: presentEntries rest values := by
  simp [presentEntries, heldFields, Format.liveFields_cons, hlive, h]

theorem Evolves.presentEntries_eq {values values' : List (String × Value)}
    {fields fields' : List Field} (h : Evolves values values' fields fields') :
    presentEntries fields values = presentEntries fields' values' := by
  induction h with
  | nil => rfl
  | @keep f f' rest rest' live live' zid shape held h ih =>
    have hempty : isEmpty (f, heldFor values f) = isEmpty (f', heldFor values' f') := by
      simp only [isEmpty, shape, held]
    cases he : isEmpty (f', heldFor values' f') with
    | true =>
      rw [presentEntries_absent (.inr (hempty.trans he)), presentEntries_absent (.inr he), ih]
    | false =>
      rw [presentEntries_present live (hempty.trans he), presentEntries_present live' he, ih, zid,
        shape, held]
  | removed absent h ih => rw [presentEntries_absent absent, ih]
  | added absent h ih => rw [presentEntries_absent absent, ih]

theorem present_or (f : Field) (values : List (String × Value)) :
    (f.info.skip = true ∨ isEmpty (f, heldFor values f) = true) ∨
      (f.info.skip = false ∧ isEmpty (f, heldFor values f) = false) := by
  cases f.info.skip <;> cases isEmpty (f, heldFor values f) <;> simp

/-- The edits reach every version with the same present entries. -/
theorem evolves_of_presentEntries_eq {values values' : List (String × Value)}
    {fields fields' : List Field}
    (h : presentEntries fields values = presentEntries fields' values') :
    Evolves values values' fields fields' := by
  induction fields generalizing fields' with
  | nil =>
    induction fields' with
    | nil => exact .nil
    | cons f' rest' ih' =>
      rcases present_or f' values' with habsent | ⟨hlive, hpresent⟩
      · exact .added habsent (ih' (by rwa [presentEntries_absent habsent] at h))
      · rw [presentEntries_present hlive hpresent] at h
        cases h
  | cons f rest ih =>
    rcases present_or f values with habsent | ⟨hlive, hpresent⟩
    · exact .removed habsent (ih (by rwa [presentEntries_absent habsent] at h))
    · -- the first present field of the second version is the same entry
      induction fields' with
      | nil =>
        rw [presentEntries_present hlive hpresent] at h
        cases h
      | cons f' rest' ih' =>
        rcases present_or f' values' with habsent | ⟨hlive', hpresent'⟩
        · exact .added habsent (ih' (by rwa [presentEntries_absent habsent] at h))
        · rw [presentEntries_present hlive hpresent, presentEntries_present hlive' hpresent'] at h
          obtain ⟨hentry, hrest⟩ := List.cons.inj h
          simp only [Prod.mk.injEq] at hentry
          exact .keep hlive hlive' hentry.1 hentry.2.1 hentry.2.2 (ih hrest)

theorem evolves_iff {values values' : List (String × Value)} {fields fields' : List Field} :
    Evolves values values' fields fields' ↔
      presentEntries fields values = presentEntries fields' values' :=
  ⟨Evolves.presentEntries_eq, evolves_of_presentEntries_eq⟩

end Evolution

namespace Encoder

open Evolution
open Format (liveFields)

theorem encodeShape_eq_of_presentEntries (t : Table) (fuse : Bool) {info info' : StructInfo}
    {fields fields' : List Field} {values values' : List (String × Value)} {l l' : Layout}
    (hname : info.name = info'.name) (ht : info.asTuple = false) (ht' : info'.asTuple = false)
    (hplan : Layout.plan .fast info fields = .ok l)
    (hplan' : Layout.plan .fast info' fields' = .ok l')
    (hheld : ∀ f ∈ liveFields fields, ∃ v, Assoc.get? values f.info.name = some v)
    (hheld' : ∀ f ∈ liveFields fields', ∃ v, Assoc.get? values' f.info.name = some v)
    (h : presentEntries fields values = presentEntries fields' values') :
    (Encoder.mk t .fast fuse).encodeShape (.struct info fields) (.record values) =
      (Encoder.mk t .fast fuse).encodeShape (.struct info' fields') (.record values') := by
  refine encodeShape_congr fun depth => ?_
  cases depth with
  | zero => rfl
  | succ depth =>
    simp only [Planned.bytes, Planned.node]
    rw [structNode_fast _ ht hplan hheld, structNode_fast _ ht' hplan' hheld', h, hname]

/-- Under the fast protocol two versions of a struct give the same bytes, or fail alike, for
records with the same present entries; so they do when one version evolves into the other. -/
theorem encodeShape_fast_stable (t : Table) (fuse : Bool) (info info' : StructInfo)
    (fields fields' : List Field) (values values' : List (String × Value))
    (hname : info.name = info'.name) (ht : info.asTuple = false) (ht' : info'.asTuple = false)
    (hplan : ∃ l, Layout.plan .fast info fields = .ok l)
    (hplan' : ∃ l, Layout.plan .fast info' fields' = .ok l)
    (hheld : ∀ f ∈ liveFields fields, ∃ v, Assoc.get? values f.info.name = some v)
    (hheld' : ∀ f ∈ liveFields fields', ∃ v, Assoc.get? values' f.info.name = some v) :
    (presentEntries fields values = presentEntries fields' values' →
      (Encoder.mk t .fast fuse).encodeShape (.struct info fields) (.record values) =
        (Encoder.mk t .fast fuse).encodeShape (.struct info' fields') (.record values')) ∧
    (Evolves values values' fields fields' →
      (Encoder.mk t .fast fuse).encodeShape (.struct info fields) (.record values) =
        (Encoder.mk t .fast fuse).encodeShape (.struct info' fields') (.record values')) := by
  obtain ⟨l, hplan⟩ := hplan
  obtain ⟨l', hplan'⟩ := hplan'
  have hstable := encodeShape_eq_of_presentEntries t fuse hname ht ht' hplan hplan'
    hheld hheld'
  exact ⟨hstable, fun h => hstable (evolves_iff.1 h)⟩

/-- A struct of two fields and a skipped one. -/
def meterFields : List Field := [
  .mk { zid := 0, name := "reading" } (.ofKind .int64),
  .mk { name := "cache", skip := true } (.ofKind .bytes),
  .mk { zid := 2, name := "unit", omitEmpty := true } (.ofKind .string)]

/-- A later version: the reading has another name, the unit is not tagged, the skipped field is
gone, and there is a new field in between. -/
def meterFields' : List Field := [
  .mk { zid := 0, name := "value" } (.ofKind .int64),
  .mk { zid := 5, name := "parts" } (.slice (.ident "Meter")),
  .mk { zid := 2, name := "unit" } (.ofKind .string)]

def meterValues : List (String × Value) := [("reading", .int 7), ("unit", .str "kWh")]

def meterValues' : List (String × Value) :=
  [("parts", .array []), ("unit", .str "kWh"), ("value", .int 7)]

theorem encodeShape_fast_meter :
    Evolves meterValues meterValues' meterFields meterFields' ∧
      (Encoder.mk .empty .fast true).encodeShape
          (.struct { name := "Meter", skipCount := 1, hasOmitEmptyTags := true } meterFields)
          (.record meterValues) =
        (Encoder.mk .empty .fast true).encodeShape
          (.struct { name := "Meter", keyKind := .int64 } meterFields')
          (.record meterValues') := by
  have hedits : Evolves meterValues meterValues' meterFields meterFields' :=
    .keep rfl rfl rfl rfl rfl (.removed (.inl rfl) (.added (.inr rfl)
      (.keep rfl rfl rfl rfl rfl .nil)))
  refine ⟨hedits, (encodeShape_fast_stable .empty true _ _ _ _ _ _ rfl rfl rfl ⟨_, rfl⟩ ⟨_, rfl⟩
    ?_ ?_).2 hedits⟩
  · simp [meterFields, meterValues, liveFields, Assoc.get?]
  · simp [meterFields', meterValues', liveFields, Assoc.get?]

end Encoder

end Packwright
