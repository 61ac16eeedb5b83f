import Mathlib.Data.List.Forall2
import Packwright.Proofs.Documents
import Packwright.Proofs.Layout
import Packwright.Schema

/-
  Schema descriptors. A descriptor is read back from its text, whatever it holds
  (`read?_write`), and the descriptor of a table says what is on the wire: `forall₂_fills_of_plan`
  puts the fields it lists, the skipped ones aside, in step with the slots of every layout of the
  struct, and gives the key of a slot from the zid or the name that is listed. `extract_cases`
  tells the two outcomes of an export apart.
-/

namespace Packwright

namespace Schema

open Document

/-! ## Texts -/

theorem fieldOfJson?_fieldToJson (f : SchemaField) : fieldOfJson? (fieldToJson f) = some f := by
  obtain ⟨zid, name, omitEmpty, skip, type⟩ := f
  unfold fieldOfJson? fieldToJson
  by_cases htype : type = ""
  · rw [if_pos htype, members?_obj (by simp) (by simp)]
    simp [int64?_toInt, text?, flag?, htype]
  · rw [if_neg htype, members?_obj (by simp) (by simp)]
    simp [int64?_toInt, text?, flag?]

theorem structOfJson?_structToJson (s : SchemaStruct) :
    structOfJson? (structToJson s) = some s := by
  have hfields : list? fieldOfJson? (.arr (s.fields.map fieldToJson)) = some s.fields :=
    list?_map fun f _ => fieldOfJson?_fieldToJson f
  unfold structOfJson? structToJson
  rw [members?_obj (by simp) (by simp)]
  simp [text?, hfields]

theorem ofJson?_toJson (s : Schema) : ofJson? s.toJson = some s := by
  have hstructs : list? structOfJson? (.arr (s.structs.map structToJson)) = some s.structs :=
    list?_map fun st _ => structOfJson?_structToJson st
  obtain ⟨id, structs⟩ := s
  unfold ofJson? toJson
  cases id with
  | none =>
    rw [members?_obj (by simp) (by simp)]
    simp [hstructs]
  | some id =>
    rw [members?_obj (by simp) (by simp)]
    simp [nullable, int64?_toInt, hstructs]

theorem exact_fieldToJson (f : SchemaField) : (fieldToJson f).Exact := by
  unfold fieldToJson
  by_cases htype : f.type = ""
  · simp [htype, Json.exact_toInt]
  · simp [htype, Json.exact_toInt]

theorem exact_structToJson (s : SchemaStruct) : (structToJson s).Exact := by
  have hfields : (Json.arr (s.fields.map fieldToJson)).Exact := by
    refine .arr fun v hv => ?_
    obtain ⟨f, -, rfl⟩ := List.mem_map.1 hv
    exact exact_fieldToJson f
  simp [structToJson, hfields]

theorem exact_toJson (s : Schema) : s.toJson.Exact := by
  have hstructs : (Json.arr (s.structs.map structToJson)).Exact := by
    refine .arr fun v hv => ?_
    obtain ⟨st, -, rfl⟩ := List.mem_map.1 hv
    exact exact_structToJson st
  cases hid : s.id <;> simp [toJson, hid, hstructs, Json.exact_toInt]

theorem read?_write (s : Schema) : read? s.write = some s := by
  unfold read? write
  rw [Json.parse?_pretty (exact_toJson s)]
  exact ofJson?_toJson s

/-! ## Tables -/

/-- An identity that has a place in a schema. -/
def Exportable (e : String × Shape) : Prop := ∃ info fields, e.2 = .struct info fields

/-- What a schema says of an identity. -/
def Describes (e : String × Shape) (st : SchemaStruct) : Prop :=
  ∃ info fields, e.2 = .struct info fields ∧ st = ⟨info.name, fields.map ofField⟩

/-- The report of the first identity that has no place in a schema. -/
def Rejects (entries : List (String × Shape)) (e : UnsupportedShape) : Prop :=
  ∃ before s after, entries = before ++ (e.identity, s) :: after ∧ e.form = s.form ∧
    (∀ d ∈ before, Exportable d) ∧ ¬ Exportable (e.identity, s)

theorem ofIdentity_cases (e : String × Shape) :
    (∃ st, ofIdentity e = .ok st ∧ Describes e st) ∨
      ofIdentity e = .error ⟨e.1, e.2.form⟩ ∧ ¬ Exportable e := by
  obtain ⟨name, s⟩ := e
  cases s with
  | struct info fields => exact .inl ⟨_, rfl, info, fields, rfl, rfl⟩
  | _ => exact .inr ⟨rfl, fun ⟨_, _, h⟩ => nomatch h⟩

/-- An export describes every identity in order, or rejects the first that it cannot describe. -/
theorem mapM_ofIdentity_cases (entries : List (String × Shape)) :
    (∃ structs, entries.mapM ofIdentity = .ok structs ∧ List.Forall₂ Describes entries structs) ∨
      ∃ e, entries.mapM ofIdentity = .error e ∧ Rejects entries e := by
  induction entries with
  | nil => exact .inl ⟨[], rfl, .nil⟩
  | cons d rest ih =>
    rw [List.mapM_cons]
    rcases ofIdentity_cases d with ⟨st, hst, hd⟩ | ⟨herror, hd⟩
    · rcases ih with ⟨structs, hstructs, hrest⟩ | ⟨e, he, before, s, after, rfl, hform, hbefore, hs⟩
      · exact .inl ⟨st :: structs, by rw [hst, hstructs]; rfl, .cons hd hrest⟩
      · refine .inr ⟨e, by rw [hst, he]; rfl, d :: before, s, after, rfl, hform, ?_, hs⟩
        obtain ⟨info, fields, hshape, -⟩ := hd
        exact List.forall_mem_cons.2 ⟨⟨info, fields, hshape⟩, hbefore⟩
    · exact .inr ⟨⟨d.1, d.2.form⟩, by rw [herror]; rfl, [], d.2, rest, rfl, rfl, nofun, hd⟩

theorem exportable_of_describes {entries : List (String × Shape)} {structs : List SchemaStruct}
    (h : List.Forall₂ Describes entries structs) : ∀ e ∈ entries, Exportable e := by
  induction h with
  | nil => nofun
  | cons hd _ ih =>
    obtain ⟨info, fields, hshape, -⟩ := hd
    exact List.forall_mem_cons.2 ⟨⟨info, fields, hshape⟩, ih⟩

theorem extract_cases (t : Table) :
    (∃ structs, extract t = .ok ⟨none, structs⟩ ∧ List.Forall₂ Describes t.entries structs) ∨
      ∃ e, extract t = .error e ∧ Rejects t.entries e := by
  rcases mapM_ofIdentity_cases t.entries with ⟨structs, hmap, hall⟩ | ⟨e, hmap, he⟩
  · exact .inl ⟨structs, by rw [extract, hmap]; rfl, hall⟩
  · exact .inr ⟨e, by rw [extract, hmap]; rfl, he⟩

/-! ## The wire -/

/-- A field of a schema and the slot that it is written in. -/
structure Fills (l : Layout) (f : SchemaField) (slot : Slot) : Prop where
  field : f = ofField slot.field
  live : slot.field.info.skip = false
  intKey : l.intKeys = true → slot.key = Wire.int f.zid
  stringKey : l.intKeys = false → l.mode ≠ .tuple → slot.key = Wire.str f.name

theorem key_slotOf {mode : Mode} (h : mode ≠ .tuple) (intKeys : Bool) (f : Field) (index : Nat) :
    (Layout.slotOf mode intKeys f index).key =
      if intKeys then Wire.int f.info.zid else Wire.str f.info.name := by
  cases mode with
  | tuple => exact absurd rfl h
  | _ => rfl

/-- The fields that a schema lists as written are the slots of every layout of the struct. -/
theorem forall₂_fills_of_plan {p : Protocol} {info : StructInfo} {fields : List Field} {l : Layout}
    (h : Layout.plan p info fields = .ok l) :
    List.Forall₂ (Fills l) ((fields.map ofField).filter fun f => !f.skip) l.slots := by
  obtain ⟨-, hmode, hkeys, hslots⟩ := Layout.of_plan h
  have hlive : ((fields.map ofField).filter fun f => !f.skip) =
      (Field.live fields).map fun f => ofField f.1 := by
    change _ = (Field.live fields).map (ofField ∘ Prod.fst)
    rw [List.filter_map, ← List.map_map, Field.map_fst_live]
    rfl
  rw [hlive, hslots, List.forall₂_map_left_iff, List.forall₂_map_right_iff, List.forall₂_same]
  rintro ⟨f, index⟩ hf
  have hf : f.info.skip = false := by simpa using (List.mem_filter.1 hf).2
  rw [← hmode] at hkeys
  rw [← hmode, ← hkeys]
  refine ⟨rfl, hf, fun hint => ?_, fun hstring hmap => ?_⟩
  · have hmap : l.mode ≠ .tuple := by
      intro htuple
      rw [htuple, hint] at hkeys
      cases hkeys
    rw [key_slotOf hmap, if_pos hint]
    rfl
  · rw [key_slotOf hmap, hstring]
    rfl

/-- Every descriptor is read back from its text. A table has a descriptor exactly when all its
identities are structs, and the first that is none is reported otherwise. A descriptor has one
entry for each identity in order, and whenever a struct has a layout, the fields that its entry
lists as written are the slots of the layout in order, with the keys that the entry gives them. -/
theorem descriptor_describes_wire :
    (∀ s : Schema, read? s.write = some s) ∧
      ∀ t : Table,
        ((∃ s, extract t = .ok s) ↔ ∀ e ∈ t.entries, Exportable e) ∧
        (∀ error, extract t = .error error → Rejects t.entries error) ∧
        ∀ s, extract t = .ok s → s.id = none ∧
          List.Forall₂ (fun e st => ∃ info fields, e.2 = .struct info fields ∧
            st.name = info.name ∧ ∀ p l, Layout.plan p info fields = .ok l →
              List.Forall₂ (Fills l) (st.fields.filter fun f => !f.skip) l.slots)
            t.entries s.structs := by
  refine ⟨read?_write, fun t => ?_⟩
  rcases extract_cases t with ⟨structs, hok, hall⟩ | ⟨e, herror, hrejects⟩
  · refine ⟨⟨fun _ => exportable_of_describes hall, fun _ => ⟨_, hok⟩⟩, ?_, ?_⟩
    · intro error herror
      rw [hok] at herror
      cases herror
    · intro s hs
      obtain rfl := Except.ok.inj (hok.symm.trans hs)
      refine ⟨rfl, hall.imp fun e st hst => ?_⟩
      obtain ⟨info, fields, hshape, rfl⟩ := hst
      exact ⟨info, fields, hshape, rfl, fun p l hplan => forall₂_fills_of_plan hplan⟩
  · refine ⟨⟨?_, fun hall => ?_⟩, ?_, ?_⟩
    · rintro ⟨s, hs⟩
      rw [herror] at hs
      cases hs
    · obtain ⟨before, s, after, hentries, -, -, hnot⟩ := hrejects
      exact absurd (hall _ (by simp [hentries])) hnot
    · intro error herror'
      obtain rfl := Except.error.inj (herror.symm.trans herror')
      exact hrejects
    · intro s hs
      rw [herror] at hs
      cases hs

/-- A struct keyed by zid, with a skipped field before one that is written. -/
def account : Shape :=
  .struct { name := "Account", keyKind := .int64, skipCount := 1 }
    [.mk { name := "cache", skip := true } (.ofKind .bytes),
      .mk { zid := 4, name := "owner" } (.ofKind .string)]

/-- The only slot of an account is that of its second field, under the key 4; and a list of
accounts beside it is reported. -/
theorem descriptor_describes_account :
    (∃ s l, extract ⟨[("Account", account)], by decide⟩ = .ok s ∧ read? s.write = some s ∧
      s.structs = [⟨"Account",
        [⟨-1, "cache", false, true, ""⟩, ⟨4, "owner", false, false, "string"⟩]⟩] ∧
      List.Forall₂ (Fills l) [⟨4, "owner", false, false, "string"⟩] l.slots ∧
      l.slots.map Slot.key = [Wire.int 4]) ∧
    Rejects [("Account", account), ("Accounts", .slice account)] ⟨"Accounts", "slice"⟩ := by
  obtain ⟨hread, htable⟩ := descriptor_describes_wire
  refine ⟨?_, (htable ⟨[("Account", account), ("Accounts", .slice account)], by decide⟩).2.1 _ rfl⟩
  obtain ⟨-, -, hok⟩ := htable ⟨[("Account", account)], by decide⟩
  obtain ⟨-, hall⟩ := hok _ rfl
  obtain ⟨⟨info, fields, hshape, -, hslots⟩, -⟩ := List.forall₂_cons.1 hall
  obtain ⟨rfl, rfl⟩ := Shape.struct.inj hshape
  exact ⟨_, _, rfl, hread _, rfl, hslots .msgp2 _ rfl, rfl⟩

end Schema

end Packwright
