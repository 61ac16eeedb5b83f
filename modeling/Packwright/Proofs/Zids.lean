import Packwright.Proofs.Layout
import Packwright.Proofs.Reading

/-
  Zids as keys. The check of a struct goes through its live fields in order of declaration and
  stops at the first that has no zid or shares one with a field before it (`checkZids_cases`,
  `ZidFault`).

  `plan_accepts_sound_zids`: the layout of a final struct fails for no other reason. Where there is
  one, its slots are the live fields in their places (`Arranges`), and keys that are zids can be
  told apart from one another and from the key that identifies the type, also with anything behind
  them (`KeysApart`).
-/

namespace Packwright

/-! ## The check -/

namespace Layout

/-- Every field has a zid, and no two have the same. -/
def SoundZids (live : List Field) : Prop :=
  (∀ f ∈ live, 0 ≤ f.info.zid.toInt) ∧ live.Pairwise fun f g => f.info.zid ≠ g.info.zid

/-- The first field without a zid of its own, and what is wrong with it. -/
inductive ZidFault (struct : String) : List Field → Error → Prop where
  | missing {before after : List Field} {f : Field} (sound : SoundZids before)
      (negative : f.info.zid.toInt < 0) :
      ZidFault struct (before ++ f :: after) (.missingZid struct f.info.name)
  | duplicate {before between after : List Field} {f g : Field}
      (sound : SoundZids (before ++ f :: between)) (same : f.info.zid = g.info.zid) :
      ZidFault struct ((before ++ f :: between) ++ g :: after)
        (.duplicateZid struct f.info.zid f.info.name g.info.name)

/-- A field has no zid, or shares it with one of the fields before. -/
def Spoils (before : List Field) (f : Field) : Prop :=
  f.info.zid.toInt < 0 ∨ ∃ g ∈ before, g.info.zid = f.info.zid

theorem soundZids_nil : SoundZids [] := ⟨fun _ hf => absurd hf List.not_mem_nil, .nil⟩

theorem not_spoils {before after : List Field} {f : Field}
    (h : SoundZids (before ++ f :: after)) : ¬Spoils before f := by
  rintro (hneg | ⟨g, hg, hzid⟩)
  · have := h.1 f (List.mem_append_right _ List.mem_cons_self)
    omega
  · exact (List.pairwise_append.1 h.2).2.2 g hg f List.mem_cons_self hzid

theorem soundZids_concat {before : List Field} {f : Field} (hbefore : SoundZids before)
    (hf : ¬Spoils before f) : SoundZids (before ++ [f]) := by
  obtain ⟨hzid, hnew⟩ := not_or.1 hf
  refine ⟨fun g hg => ?_, List.pairwise_append.2 ⟨hbefore.2, List.pairwise_singleton _ _, ?_⟩⟩
  · rcases List.mem_append.1 hg with hg | hg
    · exact hbefore.1 g hg
    · obtain rfl := List.mem_singleton.1 hg
      omega
  · intro g hg f' hf' hsame
    obtain rfl := List.mem_singleton.1 hf'
    exact hnew ⟨g, hg, hsame⟩

/-- What the check remembers of the fields before. -/
def seenOf (fields : List Field) : List (Int64 × String) :=
  (fields.map fun f => (f.info.zid, f.info.name)).reverse

theorem not_spoils_of_find? {before : List Field} {f : Field} (hf : f.hasZid = true)
    (hnew : (seenOf before).find? (fun s => s.1 == f.info.zid) = none) : ¬Spoils before f := by
  rintro (hneg | ⟨g, hg, hzid⟩)
  · have := of_decide_eq_true hf
    omega
  · have hseen : (g.info.zid, g.info.name) ∈ seenOf before :=
      List.mem_reverse.2 (List.mem_map.2 ⟨g, hg, rfl⟩)
    exact List.find?_eq_none.1 hnew _ hseen (by simpa using hzid)

/-- The check passes sound zids, and otherwise reports the first field at fault. -/
theorem checkZids_cases (struct : String) {before : List Field} (hbefore : SoundZids before)
    (live : List Field) :
    (checkZids struct (seenOf before) live = .ok () ∧ SoundZids (before ++ live)) ∨
      ∃ e, checkZids struct (seenOf before) live = .error e ∧
        ZidFault struct (before ++ live) e := by
  induction live generalizing before with
  | nil => exact Or.inl ⟨rfl, by simpa using hbefore⟩
  | cons f rest ih =>
    unfold checkZids
    cases hf : f.hasZid with
    | false =>
      refine Or.inr ⟨_, rfl, .missing hbefore ?_⟩
      have := of_decide_eq_false hf
      omega
    | true =>
      cases hfind : (seenOf before).find? fun s => s.1 == f.info.zid with
      | some found =>
        -- the field that was found is one of those before
        obtain ⟨zid, first⟩ := found
        have hzid : zid = f.info.zid := by simpa using List.find?_some hfind
        have hmem := List.mem_reverse.1 (List.mem_of_find?_eq_some hfind)
        obtain ⟨g, hg, hgf⟩ := List.mem_map.1 hmem
        obtain ⟨rfl, rfl⟩ := Prod.mk.inj hgf
        obtain ⟨l, r, rfl⟩ := List.append_of_mem hg
        exact Or.inr ⟨_, rfl, .duplicate hbefore hzid⟩
      | none =>
        have hsound := soundZids_concat hbefore (not_spoils_of_find? hf hfind)
        have hseen : seenOf (before ++ [f]) = (f.info.zid, f.info.name) :: seenOf before := by
          simp [seenOf]
        have hrest := ih hsound
        rw [hseen, List.append_assoc, List.singleton_append] at hrest
        exact hrest

/-- The check of a whole struct, which starts with nothing seen. -/
theorem checkZids_nil_cases (struct : String) (live : List Field) :
    (checkZids struct [] live = .ok () ∧ SoundZids live) ∨
      ∃ e, checkZids struct [] live = .error e ∧ ZidFault struct live e :=
  checkZids_cases struct soundZids_nil live

/-- The field at fault spoils the keys of those before it. -/
theorem ZidFault.exists_spoils {struct : String} {live : List Field} {e : Error}
    (h : ZidFault struct live e) :
    ∃ before f after, live = before ++ f :: after ∧ Spoils before f := by
  cases h with
  | missing sound negative => exact ⟨_, _, _, rfl, Or.inl negative⟩
  | duplicate sound same =>
    exact ⟨_, _, _, rfl, Or.inr ⟨_, List.mem_append_right _ List.mem_cons_self, same⟩⟩

theorem ZidFault.not_soundZids {struct : String} {live : List Field} {e : Error}
    (h : ZidFault struct live e) : ¬SoundZids live := by
  obtain ⟨before, f, after, rfl, hspoils⟩ := h.exists_spoils
  exact fun hsound => not_spoils hsound hspoils

theorem soundZids_of_checkZids {struct : String} {live : List Field} {u : Unit}
    (h : checkZids struct [] live = .ok u) : SoundZids live := by
  rcases checkZids_nil_cases struct live with ⟨-, hsound⟩ | ⟨e, herror, -⟩
  · exact hsound
  · cases h.symm.trans herror

end Layout

/-! ## Keys on the wire -/

namespace Wire

/-- The bytes of an integer do not begin those of another. -/
theorem int_prefix_iff {a b : Int64} : int a <+: int b ↔ a = b := by
  constructor
  · rintro ⟨rest, h⟩
    have hread := readToken_int a rest
    rw [h, ← List.append_nil (int b), readToken_int] at hread
    obtain ⟨htoken, -⟩ := Prod.mk.inj (Option.some.inj hread)
    exact (Int64.toInt_inj.1 (Token.integer.inj htoken)).symm
  · rintro rfl
    exact List.prefix_rfl

theorem int_inj {a b : Int64} : int a = int b ↔ a = b :=
  ⟨fun h => int_prefix_iff.1 (h ▸ List.prefix_refl (int a)), congrArg int⟩

end Wire

/-! ## Layouts -/

namespace Field

theorem pairwise_live (fields : List Field) : (live fields).Pairwise fun x y => x.2 < y.2 := by
  refine List.Pairwise.filter _ (List.pairwise_map.1 ?_)
  rw [List.zipIdx_map_snd]
  exact List.pairwise_lt_range'

theorem mem_live {fields : List Field} {x : Field × Nat} :
    x ∈ live fields ↔ fields[x.2]? = some x.1 ∧ x.1.info.skip = false := by
  rw [live, List.mem_filter, List.mem_zipIdx_iff_getElem?, Bool.not_eq_true']

end Field

namespace Layout

open Format (liveFields)

/-- The slots of a layout are the live fields of a struct, in order of declaration and each with its
place. -/
structure Arranges (fields : List Field) (l : Layout) : Prop where
  declared : l.declared = fields.length
  live : l.slots.length = l.live
  inOrder : l.slots.map Slot.field = liveFields fields
  places : ∀ i f, (∃ slot ∈ l.slots, slot.index = i ∧ slot.field = f) ↔
    fields[i]? = some f ∧ f.info.skip = false
  below : ∀ slot ∈ l.slots, slot.index < l.declared
  increasing : l.slots.Pairwise fun a b => a.index < b.index

/-- No key is the beginning of another, and none is that of the entry which identifies the type. -/
structure KeysApart (l : Layout) : Prop where
  distinct : l.slots.Pairwise fun a b => a.key ≠ b.key
  unbegun : l.slots.Pairwise fun a b => ¬a.key <+: b.key ∧ ¬b.key <+: a.key
  own : ∀ slot ∈ l.slots, slot.key ≠ Wire.int (-1)

theorem arranges_layout (p : Protocol) (info : StructInfo) (fields : List Field) :
    Arranges fields (Format.layout p info fields) where
  declared := rfl
  live := by
    rw [Format.layout, List.length_map, ← Field.map_fst_live, List.length_map]
  inOrder := by
    rw [Format.layout, List.map_map, ← Field.map_fst_live]
    rfl
  places i f := by
    rw [Format.layout]
    constructor
    · rintro ⟨slot, hslot, rfl, rfl⟩
      obtain ⟨x, hx, rfl⟩ := List.mem_map.1 hslot
      exact Field.mem_live.1 hx
    · intro h
      exact ⟨_, List.mem_map.2 ⟨(f, i), Field.mem_live.2 h, rfl⟩, rfl, rfl⟩
  below slot hslot := by
    obtain ⟨x, hx, rfl⟩ := List.mem_map.1 hslot
    exact (List.getElem?_eq_some_iff.1 (Field.mem_live.1 hx).1).1
  increasing := List.pairwise_map.2 (Field.pairwise_live fields)

theorem key_slotOf {p : Protocol} {info : StructInfo}
    (h : usesIntKeys info (modeOf info p) = true) (f : Field) (i : Nat) :
    (slotOf (modeOf info p) (usesIntKeys info (modeOf info p)) f i).key = Wire.int f.info.zid := by
  cases hmode : modeOf info p with
  | tuple => rw [hmode] at h; cases h
  | _ => rw [hmode] at h; rw [h]; rfl

theorem keysApart_layout {p : Protocol} {info : StructInfo} {fields : List Field}
    (h : usesIntKeys info (modeOf info p) = true) (hsound : SoundZids (liveFields fields)) :
    KeysApart (Format.layout p info fields) := by
  have hzids : (Field.live fields).Pairwise fun x y => x.1.info.zid ≠ y.1.info.zid := by
    have hlive := hsound.2
    rwa [← Field.map_fst_live, List.pairwise_map] at hlive
  refine ⟨List.pairwise_map.2 (hzids.imp ?_), List.pairwise_map.2 (hzids.imp ?_), ?_⟩
  · intro x y hne hkey
    rw [key_slotOf h, key_slotOf h, Wire.int_inj] at hkey
    exact hne hkey
  · intro x y hne
    rw [key_slotOf h, key_slotOf h, Wire.int_prefix_iff, Wire.int_prefix_iff]
    exact ⟨hne, hne.symm⟩
  · intro slot hslot hkey
    obtain ⟨x, hx, rfl⟩ := List.mem_map.1 hslot
    rw [key_slotOf h, Wire.int_inj] at hkey
    have hnonneg := hsound.1 x.1 (Field.mem_liveFields hx)
    rw [hkey] at hnonneg
    exact absurd hnonneg (by decide)

/-- A final struct has a layout, unless its keys are zids that are not sound. -/
theorem plan_cases (p : Protocol) {info : StructInfo} {fields : List Field}
    (hs : (Shape.struct info fields).IsFinalNode) :
    (plan p info fields = .ok (Format.layout p info fields) ∧
      (usesIntKeys info (modeOf info p) = true → SoundZids (liveFields fields))) ∨
    ∃ e, plan p info fields = .error (.error e) ∧ usesIntKeys info (modeOf info p) = true ∧
      ZidFault info.name (liveFields fields) e := by
  rw [Format.plan_eq hs, Format.checkKeys, ← Format.usesIntKeys_eq]
  cases usesIntKeys info (modeOf info p) with
  | false => exact Or.inl ⟨rfl, fun h => by cases h⟩
  | true =>
    rcases checkZids_nil_cases info.name (liveFields fields) with
      ⟨hcheck, hsound⟩ | ⟨e, hcheck, hfault⟩
    · rw [hcheck]
      exact Or.inl ⟨rfl, fun _ => hsound⟩
    · rw [hcheck]
      exact Or.inr ⟨e, rfl, rfl, hfault⟩

/-- A final struct has no layout exactly when its keys are zids and a live field has none or that
of a live field before it; the error then is that of the first such field. Where there is a layout,
its slots are the live fields in their places, and keys that are zids can be told apart. -/
theorem plan_accepts_sound_zids (p : Protocol) (info : StructInfo) (fields : List Field)
    (hs : (Shape.struct info fields).IsFinalNode) :
    ((∃ fault, plan p info fields = .error fault) ↔ usesIntKeys info (modeOf info p) = true ∧
      ∃ before f after, liveFields fields = before ++ f :: after ∧ Spoils before f) ∧
    (∀ fault, plan p info fields = .error fault →
      ∃ e, fault = .error e ∧ ZidFault info.name (liveFields fields) e) ∧
    ∀ l, plan p info fields = .ok l → Arranges fields l ∧
      (usesIntKeys info (modeOf info p) = true → KeysApart l) := by
  rcases plan_cases p hs with ⟨hplan, hsound⟩ | ⟨e, hplan, hint, hfault⟩
  · rw [hplan]
    refine ⟨⟨?_, ?_⟩, ?_, ?_⟩
    · rintro ⟨fault, h⟩
      cases h
    · rintro ⟨hint, before, f, after, hlive, hspoils⟩
      exact absurd hspoils (not_spoils (hlive ▸ hsound hint))
    · intro fault h
      cases h
    · intro l h
      obtain rfl := Except.ok.inj h
      exact ⟨arranges_layout p info fields, fun hint => keysApart_layout hint (hsound hint)⟩
  · rw [hplan]
    refine ⟨⟨fun _ => ⟨hint, hfault.exists_spoils⟩, fun _ => ⟨_, rfl⟩⟩, ?_, ?_⟩
    · intro fault h
      exact ⟨e, (Except.error.inj h).symm, hfault⟩
    · intro l h
      cases h

def ferryInfo : StructInfo := { name := "Ferry", skipCount := 1 }

/-- A ferry. The first two live zids are the last that is one byte and the first that is not. -/
def ferry (zid : Int64) : List Field := [
  .mk { zid := 127, name := "from" } (.ofKind .string),
  .mk { zid := 127, name := "draft", skip := true } (.ofKind .string),
  .mk { zid := 128, name := "to" } (.ofKind .string),
  .mk { zid := zid, name := "cars" } (.ofKind .uint16)]

theorem plan_ferry : (Shape.struct ferryInfo (ferry 65536)).IsFinalNode ∧
    (∃ l, plan .fast ferryInfo (ferry 65536) = .ok l ∧ l.slots.map Slot.index = [0, 2, 3] ∧
      KeysApart l) ∧
    plan .fast ferryInfo (ferry 127) =
      .error (.error (.duplicateZid "Ferry" 127 "from" "cars")) ∧
    ZidFault "Ferry" (liveFields (ferry 127)) (.duplicateZid "Ferry" 127 "from" "cars") := by
  obtain ⟨-, -, hplanned⟩ := plan_accepts_sound_zids .fast ferryInfo (ferry 65536) ⟨rfl, rfl⟩
  obtain ⟨-, hfailed, -⟩ := plan_accepts_sound_zids .fast ferryInfo (ferry 127) ⟨rfl, rfl⟩
  obtain ⟨e, he, hfault⟩ := hfailed _ rfl
  obtain rfl := Fault.error.inj he
  exact ⟨⟨rfl, rfl⟩, ⟨_, rfl, rfl, (hplanned _ rfl).2 rfl⟩, rfl, hfault⟩

end Layout

end Packwright
