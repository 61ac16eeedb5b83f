import Packwright.Proofs.MarshalTally

/-
  Generated encoders append the bytes of the encoder. `Appends m c s w bytes`: code generated for a
  place of shape `s` that holds `w` appends `bytes`, wherever it stands and whatever is held back.
  One level of a shape appends the bytes of one level of the format if the code of its parts does
  (`appends_node`); the struct that a function is generated for is apart from nested ones, since
  its flags come from the companion function (`marshalMsg_node`).

  `marshalMsg_eq_encode`: on a conforming value the generated encoder of an identity appends what
  the encoder gives, and no trap is met on the way. The induction is on the depth of the format,
  which is also a depth of calls that suffices.
-/

namespace Packwright.Marshal

/-! ## Structs -/

section

variable {T : Table} {P : Protocol} {info : StructInfo} {fields : List Field}
  {values : List (String × Value)} {rt : Runtime}
  {call : String → Value → Bytes → Except Trap Bytes}
  {tally : Typed → List Bool → Except Trap (List Bool × Nat)} {env : Env} {c : Config} {v : Var}
  {p p' : Pending} {code : Body} {st : State} {t : Tally}

/-- The code of a shape appends the given bytes for a value, whatever variable holds it. -/
def Appends (m : Machine Line State) (c : Config) (s : Shape) (w : Value) (bytes : Bytes) : Prop :=
  ∀ v env p p' code st, shapeCode c s v p = .ok (code, p') → v.eval env = .ok ⟨s, w⟩ →
    Fresh p st → ∃ st', Runs m env (p.names.last + 1) p p' code bytes st st'

/-- A variable holds a conforming struct, and the code of each of its fields is right. -/
structure StructAt (m : Machine Line State) (T : Table) (c : Config)
    (part : Shape → Value → Except Fault Bytes) (info : StructInfo) (fields : List Field)
    (values : List (String × Value)) (env : Env) (v : Var) : Prop where
  final : (Shape.struct info fields).IsFinal
  conforms : Conforms T (.struct info fields) (.record values)
  eval : v.eval env = .ok ⟨.struct info fields, .record values⟩
  parts : ∀ f ∈ Format.liveFields fields, ∀ b,
    part f.value (Encoder.heldFor values f) = .ok b →
      Appends m c f.value (Encoder.heldFor values f) b

theorem runs_entryCode {layout : Layout} {slot : Slot} {value : Emit Body} {bytes : Bytes}
    (h : entryCode c layout slot value p = .ok (code, p')) (hst : Fresh p st)
    (hvalue : ∀ q q' body st, value q = .ok (body, q') → Fresh q st →
      ∃ st', Runs (machine rt call tally) env (q.names.last + 1) q q' body bytes st st') :
    ∃ st', Runs (machine rt call tally) env (p.names.last + 1) p p' code (slot.key ++ bytes)
      st st' := by
  obtain ⟨key, q, hkey, h⟩ := run_bind_eq_ok h
  obtain ⟨body, q', hbody, h⟩ := run_bind_eq_ok h
  obtain ⟨rfl, rfl⟩ := run_pure_eq_ok h
  obtain ⟨st₁, h₁⟩ := runs_constant hkey st
  obtain ⟨st₂, h₂⟩ := hvalue q p' body st₁ hbody (h₁.fresh hst)
  exact ⟨st₂, h₁.append h₂ (Nat.le_refl _)⟩

/-- The slot of a field in the layout of a struct. -/
def slotAt (P : Protocol) (info : StructInfo) (f : Field) (index : Nat) : Slot :=
  Layout.slotOf (Layout.modeOf info P) (Layout.usesIntKeys info (Layout.modeOf info P)) f index

variable {part : Shape → Value → Except Fault Bytes}

/-- The code of one field, given that of its value. -/
theorem runs_slotCode (hat : StructAt (machine rt call tally) T c part info fields values env v)
    {f : Field} (hf : f ∈ Format.liveFields fields) {index : Nat} {bytes : Bytes}
    (hflag : (slotAt c.protocol info f index).conditional = true →
      readFlag st t index = .ok (isEmptyIn values (slotAt c.protocol info f index)))
    (hbytes : Encoder.fieldBytes c.protocol part info (f, Encoder.heldFor values f) = .ok bytes)
    (h : slotCode c (Format.layout c.protocol info fields) t (slotAt c.protocol info f index)
      (shapeCode c f.value (v.field f.info.name)) p = .ok (code, p')) (hst : Fresh p st) :
    ∃ st', Runs (machine rt call tally) env (p.names.last + 1) p p' code bytes st st' := by
  have hv := (Var.eval_field_of_conforms hat.conforms hat.eval hf).1
  have hpart := hat.parts f hf
  cases ht : info.asTuple with
  | true =>
    rw [slotCode_tuple ((Format.modeOf_eq_tuple c.protocol info).2 ht)] at h
    rw [Encoder.fieldBytes_tuple ht] at hbytes
    exact hpart bytes hbytes _ env p p' code st h hv hst
  | false =>
    have hmode : (Format.layout c.protocol info fields).mode ≠ .tuple := fun hm => by
      simp [(Format.modeOf_eq_tuple c.protocol info).1 hm] at ht
    rw [slotCode_entry hmode] at h
    rw [Encoder.fieldBytes_map ht] at hbytes
    have homits : ((slotAt c.protocol info f index).conditional &&
        isEmptyIn values (slotAt c.protocol info f index)) =
          Format.omits c.protocol f (Encoder.heldFor values f) :=
      Format.slotOf_omitted hat.final.here ht hf index _
    have hkey : (slotAt c.protocol info f index).key = Format.key c.protocol info f :=
      Format.slotOf_key ht f index
    have hentry : ∀ b, part f.value (Encoder.heldFor values f) = .ok b →
        ∀ q q' body st, entryCode c (Format.layout c.protocol info fields)
          (slotAt c.protocol info f index) (shapeCode c f.value (v.field f.info.name)) q =
            .ok (body, q') → Fresh q st →
        ∃ st', Runs (machine rt call tally) env (q.names.last + 1) q q' body
          (Format.key c.protocol info f ++ b) st st' := by
      intro b hb q q' body st hbody hst
      rw [← hkey]
      exact runs_entryCode hbody hst fun q q' body st hbody hst =>
        hpart b hb _ env q q' body st hbody hv hst
    have hemits : Emits Pending.last True (entryCode c (Format.layout c.protocol info fields)
        (slotAt c.protocol info f index) (shapeCode c f.value (v.field f.info.name))) :=
      (emits_entryCode _ _ _ (emits_shapeCode (hat.final.field (List.mem_filter.1 hf).1) _)).mono
        fun _ => trivial
    cases hcond : (slotAt c.protocol info f index).conditional with
    | false =>
      rw [hcond, Bool.false_and] at homits
      rw [hcond, if_neg (by simp)] at h
      simp only [← homits] at hbytes
      obtain ⟨b, hb, hbytes⟩ := bind_eq_ok hbytes
      obtain rfl := Except.ok.inj hbytes
      exact hentry b hb p p' code st h hst
    | true =>
      have hread := hflag hcond
      rw [hcond, Bool.true_and] at homits
      rw [hcond, if_pos rfl] at h
      rw [homits] at hread
      refine runs_unlessFlag h hst hread hemits (fun hom => ?_) fun hom => ?_
      · simp only [hom] at hbytes
        exact (Except.ok.inj hbytes).symm
      · simp only [hom] at hbytes
        obtain ⟨b, hb, hbytes⟩ := bind_eq_ok hbytes
        obtain rfl := Except.ok.inj hbytes
        exact hentry b hb

/-- The code of the fields of a struct, from a given place in the declaration on. -/
theorem runs_fieldsCode
    (hat : StructAt (machine rt call tally) T c part info fields values env v)
    {rest : List Field} {index : Nat} {bytes : Bytes}
    (hsub : Format.liveFields rest ⊆ Format.liveFields fields)
    (hflag : ∀ x ∈ (rest.zipIdx index).filter (fun x => !x.1.info.skip),
      (slotAt c.protocol info x.1 x.2).conditional = true →
        readFlag st t x.2 = .ok (isEmptyIn values (slotAt c.protocol info x.1 x.2)))
    (hbytes : Format.gather (Encoder.fieldBytes c.protocol part info)
      (Encoder.heldFields rest values) = .ok bytes)
    (h : fieldsCode c (Format.layout c.protocol info fields) t v rest index p = .ok (code, p'))
    (hst : Fresh p st) (hlevel : t.level ≤ p.names.last) :
    ∃ st', Runs (machine rt call tally) env (p.names.last + 1) p p' code bytes st st' := by
  induction rest generalizing index bytes code p st with
  | nil =>
    obtain ⟨rfl, rfl⟩ := run_pure_eq_ok h
    obtain rfl := Except.ok.inj hbytes
    exact ⟨st, runs_nothing _ st⟩
  | cons f rest ih =>
    obtain ⟨finfo, value⟩ := f
    rw [Encoder.heldFields, Format.liveFields_cons, Field.info_mk] at hbytes
    rw [Format.liveFields_cons, Field.info_mk] at hsub
    rw [List.zipIdx_cons, List.filter_cons, Field.info_mk] at hflag
    unfold fieldsCode at h
    cases hskip : finfo.skip with
    | true =>
      simp only [hskip, if_true, Bool.not_true, Bool.false_eq_true, if_false] at h hbytes hsub hflag
      exact ih hsub hflag hbytes h hst hlevel
    | false =>
      simp only [hskip, if_true, Bool.not_false, Bool.false_eq_true, if_false, List.map_cons]
        at h hbytes hsub hflag
      obtain ⟨here, q, hhere, h⟩ := run_bind_eq_ok h
      obtain ⟨more, q', hmore, h⟩ := run_bind_eq_ok h
      obtain ⟨rfl, rfl⟩ := run_pure_eq_ok h
      obtain ⟨b, bs, hb, hbs, rfl⟩ := Format.gather_cons_eq_ok hbytes
      have hf := hsub List.mem_cons_self
      obtain ⟨st₁, h₁⟩ := runs_slotCode hat hf (hflag _ List.mem_cons_self) hb hhere hst
      have hsame : ∀ i, readFlag st₁ t i = readFlag st t i := fun i => by
        simp only [readFlag, State.flagsOf, (h₁.keeps t (Or.inl (by omega))).1]
      obtain ⟨st₂, h₂⟩ := ih (fun g hg => hsub (List.mem_cons_of_mem _ hg))
        (fun x hx hcond => (hsame x.2).trans (hflag x (List.mem_cons_of_mem _ hx) hcond)) hbs hmore
        (h₁.fresh hst) (Nat.le_trans hlevel h₁.names)
      exact ⟨st₂, h₁.append h₂ (Nat.le_refl _)⟩

theorem runs_structHeader (hrt : rt.Lawful) (identified : Bool)
    (hready : Ready P info fields values t p st)
    (hfit : inUse P fields values + 1 < UInt32.size) :
    ∃ st', Runs (machine rt call tally) env (p.names.last + 1) p p
      [.line (.structHeader t identified)]
      (Wire.mapHeader (UInt32.ofNat (inUse P fields values + if identified then 1 else 0)))
      st st' := by
  refine ⟨st.write (Wire.mapHeader (UInt32.ofNat (inUse P fields values +
    if identified then 1 else 0))), Wrote.runs ?_ ?_ hready.flushed (Nat.le_refl _)⟩
  · rw [hready.flushed]
    exact .write _ _
  · rw [Machine.execAll_singleton]
    change (do
      let n := (← st.countOf t) + (if identified then 1 else 0)
      if n < UInt32.size then return { st with buffer := rt.mapHeader (UInt32.ofNat n) st.buffer }
      else throw Trap.overflow) = _
    have hlt : inUse P fields values + (if identified then 1 else 0) < UInt32.size := by
      split <;> omega
    simp only [State.countOf, hready.count, ok_bind, if_pos hlt, hrt.mapHeader]
    rfl

theorem Ready.of_runs {bytes : Bytes} {st' : State} {m : Machine Line State}
    (h : Ready P info fields values t p st)
    (hrun : Runs m env (p.names.last + 1) p p' code bytes st st') :
    st'.flags t = some (finalFlags P info fields values) ∧ t.level ≤ p'.names.last := by
  rw [(hrun.keeps t (Or.inl (Nat.lt_succ_of_le h.drawn))).1]
  exact ⟨h.flags, Nat.le_trans h.drawn hrun.names⟩

/-- The flags that the fields of a struct read. -/
theorem readFlag_finalFlags (hflags : st.flags t = some (finalFlags P info fields values))
    {x : Field × Nat} (hx : x ∈ Field.live fields)
    (hcond : (slotAt P info x.1 x.2).conditional = true) :
    readFlag st t x.2 = .ok (isEmptyIn values (slotAt P info x.1 x.2)) := by
  have hslot : slotAt P info x.1 x.2 ∈ (Format.layout P info fields).slots :=
    List.mem_map.2 ⟨x, hx, rfl⟩
  exact readFlag_eq hflags (getElem?_finalFlags hslot hcond)

/-- A struct whose header is known beforehand, and so are its fields. -/
theorem runs_fixedStruct
    (hat : StructAt (machine rt call tally) T c part info fields values env v)
    (hmode : (Layout.modeOf info c.protocol).isDynamic = false) {note : Note} {start rest : Bytes}
    (hstart : (Format.layout c.protocol info fields).header.getD [] = start)
    (hrest : Format.gather (Encoder.fieldBytes c.protocol part info)
      (Encoder.heldFields fields values) = .ok rest)
    (h : (do
      let header ← constant c note ((Format.layout c.protocol info fields).header.getD [])
      return header ++ (← fieldsCode c (Format.layout c.protocol info fields) .outer v fields 0)
        : Emit Body) p = .ok (code, p')) (hst : Fresh p st) :
    ∃ st', Runs (machine rt call tally) env (p.names.last + 1) p p' code (start ++ rest)
      st st' := by
  obtain ⟨header, q, hheader, h⟩ := run_bind_eq_ok h
  obtain ⟨slots, q', hslots, h⟩ := run_bind_eq_ok h
  obtain ⟨rfl, rfl⟩ := run_pure_eq_ok h
  obtain ⟨st₁, h₁⟩ := runs_constant hheader st
  have hnever : ∀ f index, (slotAt c.protocol info f index).conditional = false := by
    intro f index
    unfold slotAt
    cases hm : Layout.modeOf info c.protocol <;> first | rfl | simp [hm, Mode.isDynamic] at hmode
  obtain ⟨st₂, h₂⟩ := runs_fieldsCode hat (List.Subset.refl _)
    (fun x _ hcond => by simp [hnever] at hcond) hrest hslots (h₁.fresh hst) (Nat.zero_le _)
  exact ⟨st₂, hstart ▸ h₁.append h₂ (Nat.le_refl _)⟩

theorem runs_identification {layout : Layout}
    (h : identification c layout p = .ok (code, p')) (st : State) :
    ∃ st', Runs (machine rt call tally) env (p.names.last + 1) p p' code
      (layout.fingerprint.getD []) st st' := by
  unfold identification at h
  cases hf : layout.fingerprint with
  | none =>
    rw [hf] at h
    obtain ⟨rfl, rfl⟩ := run_pure_eq_ok h
    exact ⟨st, runs_nothing _ st⟩
  | some bytes =>
    rw [hf] at h
    exact runs_constant h st

/-- A struct that leaves out empty fields, once flags and count are computed. -/
theorem runs_countedStruct (hrt : rt.Lawful)
    (hat : StructAt (machine rt call tally) T c part info fields values env v)
    (identified : Bool) (hready : Ready c.protocol info fields values t p st)
    (hfit : inUse c.protocol fields values + 1 < UInt32.size) {rest : Bytes}
    (hrest : Format.gather (Encoder.fieldBytes c.protocol part info)
      (Encoder.heldFields fields values) = .ok rest)
    {entry slots : Body} {q : Pending}
    (hentry : identification c (Format.layout c.protocol info fields) p = .ok (entry, q))
    (hslots : fieldsCode c (Format.layout c.protocol info fields) t v fields 0 q =
      .ok (slots, p')) (hst : Fresh p st) :
    ∃ st', Runs (machine rt call tally) env (p.names.last + 1) p p'
      ([.line (.structHeader t identified)] ++ entry ++ slots)
      (Wire.mapHeader (UInt32.ofNat (inUse c.protocol fields values +
        if identified then 1 else 0)) ++
          (Format.layout c.protocol info fields).fingerprint.getD [] ++ rest) st st' := by
  obtain ⟨st₁, h₁⟩ : ∃ st₁, Runs (machine rt call tally) env (p.names.last + 1) p p
    [.line (.structHeader t identified)] _ st st₁ := runs_structHeader hrt identified hready hfit
  obtain ⟨st₂, h₂⟩ := runs_identification hentry st₁
  have h₁₂ := h₁.append h₂ (Nat.le_refl _)
  obtain ⟨hflags, hdrawn⟩ := hready.of_runs h₁₂
  obtain ⟨st₃, h₃⟩ := runs_fieldsCode hat (List.Subset.refl _)
    (fun x hx hcond => readFlag_finalFlags hflags hx hcond) hrest hslots (h₁₂.fresh hst) hdrawn
  exact ⟨st₃, h₁₂.append h₃ (Nat.le_refl _)⟩

/-- A struct that leaves out empty fields. -/
theorem runs_dynamicStruct (hrt : rt.Lawful)
    (hat : StructAt (machine rt call (fieldsNotEmpty rt c)) T c part info fields values env v)
    (hkeys : Format.checkKeys c.protocol info (Format.liveFields fields) = .ok ())
    (hmode : (Layout.modeOf info c.protocol).isDynamic = true)
    (hfit : (Format.liveFields fields).length + 1 < UInt32.size) {isTop : Bool}
    (htop : isTop = true → env.self = ⟨.struct info fields, .record values⟩ ∧
      st.flags .outer = none ∧ st.count .outer = none)
    (identified : Bool) {rest : Bytes}
    (hrest : Format.gather (Encoder.fieldBytes c.protocol part info)
      (Encoder.heldFields fields values) = .ok rest)
    (h : (do
      let (t, tally) ← tallyCode (Format.layout c.protocol info fields) v isTop
      let entry ← identification c (Format.layout c.protocol info fields)
      return tally ++ [.line (.structHeader t identified)] ++ entry ++
        (← fieldsCode c (Format.layout c.protocol info fields) t v fields 0) : Emit Body) p =
      .ok (code, p')) (hst : Fresh p st) :
    ∃ st', Runs (machine rt call (fieldsNotEmpty rt c)) env
      (if isTop then 0 else p.names.last + 1) p p' code
      (Wire.mapHeader (UInt32.ofNat (inUse c.protocol fields values +
        if identified then 1 else 0)) ++
          (Format.layout c.protocol info fields).fingerprint.getD [] ++ rest) st st' := by
  obtain ⟨⟨t, tally⟩, q, htally, h⟩ := run_bind_eq_ok h
  obtain ⟨entry, q', hentry, h⟩ := run_bind_eq_ok h
  obtain ⟨slots, q'', hslots, h⟩ := run_bind_eq_ok h
  obtain ⟨rfl, rfl⟩ := run_pure_eq_ok h
  have ht : info.asTuple = false := by
    rw [← Bool.not_eq_true, ← Format.modeOf_eq_tuple c.protocol]
    intro hm
    simp [hm, Mode.isDynamic] at hmode
  have hle : inUse c.protocol fields values ≤ (Format.liveFields fields).length := by
    have hsum : inUse c.protocol fields values + _ = _ := inUse_add_countP hat.final.here ht
    omega
  obtain ⟨st₁, h₁, hready⟩ : ∃ st₁, Runs (machine rt call (fieldsNotEmpty rt c)) env
      (if isTop then 0 else p.names.last + 1) p q tally [] st st₁ ∧
        Ready c.protocol info fields values t q st₁ := by
    cases isTop with
    | false =>
      exact runs_tallyCode_nested hrt hat.final.here ht hat.conforms hat.eval (by omega) htally hst
    | true =>
      obtain ⟨hself, hnoflags, hnocount⟩ := htop rfl
      exact runs_tallyCode_outer hrt hat.final.here hkeys ht hmode hat.conforms hself (by omega)
        htally hnoflags hnocount
  obtain ⟨st₂, h₂⟩ := runs_countedStruct hrt hat identified hready (by omega) hrest hentry hslots
    (h₁.fresh hst)
  have h₁₂ := h₁.append h₂ (by split <;> omega)
  rw [← List.append_assoc, ← List.append_assoc] at h₁₂
  exact ⟨st₂, h₁₂⟩

/-- The code of a struct, whether it is the one a function is generated for or inside another. -/
theorem runs_structCode (hrt : rt.Lawful)
    (hat : StructAt (machine rt call (fieldsNotEmpty rt c)) T c part info fields values env v)
    (hfit : (Format.liveFields fields).length + 1 < UInt32.size) {isTop : Bool} {bytes : Bytes}
    (htop : isTop = true → env.self = ⟨.struct info fields, .record values⟩ ∧
      st.flags .outer = none ∧ st.count .outer = none)
    (hbytes : Format.structNode c.protocol part info fields values = .ok bytes)
    (h : structCode c info fields v isTop (fun layout t => fieldsCode c layout t v fields 0) p =
      .ok (code, p')) (hst : Fresh p st) :
    ∃ st', Runs (machine rt call (fieldsNotEmpty rt c)) env
      (if isTop then 0 else p.names.last + 1) p p' code bytes st st' := by
  obtain ⟨layout, q, hplan, h⟩ := run_bind_eq_ok h
  obtain ⟨hplan, hq⟩ := run_lift_eq_ok hplan
  obtain ⟨hkeys, hlayout⟩ := Format.checkKeys_of_plan hat.final.here hplan
  subst hq hlayout
  have hheld : ∀ f ∈ Format.liveFields fields, (Assoc.get? values f.info.name).isSome :=
    fun f hf => by rw [(Var.eval_field_of_conforms hat.conforms hat.eval hf).2.2]; rfl
  rw [Encoder.structNode_eq hkeys (Format.mapM_fieldValue hheld)] at hbytes
  obtain ⟨start, hstart, hbytes⟩ := bind_eq_ok hbytes
  obtain ⟨rest, hrest, hbytes⟩ := bind_eq_ok hbytes
  obtain rfl := Except.ok.inj hbytes
  have hkept : (if isTop then 0 else q.names.last + 1) ≤ q.names.last + 1 := by split <;> omega
  rw [Encoder.structStart_eq hat.final.here] at hstart
  have hm : (Format.layout c.protocol info fields).mode = Layout.modeOf info c.protocol := rfl
  rw [hm] at h
  cases hmode : Layout.modeOf info c.protocol with
  | tuple =>
    rw [hmode] at hstart h
    obtain rfl := Except.ok.inj hstart
    exact (runs_fixedStruct hat (by rw [hmode]; rfl) (by simp [Format.layout, hmode]) hrest h
      hst).imp fun _ h => h.weaken hkept
  | static =>
    rw [hmode] at hstart h
    obtain rfl := Except.ok.inj hstart
    exact (runs_fixedStruct hat (by rw [hmode]; rfl) (by simp [Format.layout, hmode]) hrest h
      hst).imp fun _ h => h.weaken hkept
  | omitEmpty =>
    rw [hmode] at hstart h
    have hrun := runs_dynamicStruct hrt hat hkeys (by rw [hmode]; rfl) hfit htop false hrest h hst
    obtain rfl := Except.ok.inj hstart
    simpa [Format.layout, hmode, inUse] using hrun
  | fast =>
    rw [hmode] at hstart h
    have hrun := runs_dynamicStruct hrt hat hkeys (by rw [hmode]; rfl) hfit htop true hrest h hst
    simp only at hstart
    split at hstart
    · obtain rfl := Except.ok.inj hstart
      simpa [Format.layout, hmode, inUse] using hrun
    · cases hstart

end

/-! ## Other shapes -/

section

variable {T : Table} {rt : Runtime} {call : String → Value → Bytes → Except Trap Bytes}
  {tally : Typed → List Bool → Except Trap (List Bool × Nat)} {env : Env} {c : Config}
  {p p' : Pending} {code : Body} {bytes : Bytes} {st : State}

/-- Drawing a name changes nothing at run time. -/
theorem runs_of_drawName {number : Nat} (h : drawName p = .ok (number, p'))
    {m : Machine Line State} {p'' : Pending} (hst : Fresh p st)
    (hrun : Fresh p' st →
      ∃ st', Runs m env (p'.names.last + 1) p' p'' code bytes st st') :
    ∃ st', Runs m env (p.names.last + 1) p p'' code bytes st st' := by
  obtain ⟨rfl, rfl⟩ := Prod.mk.inj (Except.ok.inj h)
  obtain ⟨st', h'⟩ := hrun fun t ht => hst t (Nat.lt_of_succ_lt ht)
  have hle : p.names.last + 1 ≤ p''.names.last := h'.names
  exact ⟨st', h'.exec, h'.buffer, by omega, fun t ht => h'.keeps t (by
    change t.level < p.names.last + 1 + 1 ∨ _
    omega)⟩

theorem appendAs_eq (hrt : rt.Lawful) {info : BaseInfo} {w : Value} (hw : OfKind info.kind w)
    (hb : Encoder.scalar info.kind w = .ok bytes) (st : State) :
    appendAs rt info.kind ⟨.base info, w⟩ st = .ok (st.write bytes) := by
  simp only [appendAs, if_true, hrt.append hw hb]
  rfl

theorem byteContents_of_given {w : Value} {data : Bytes}
    (h : w = .bin data ∨ w = .array (data.map fun b => .uint b.toUInt64)) :
    byteContents w = some data := by
  rcases h with rfl | rfl
  · rfl
  · simp only [byteContents, List.mapM_map]
    induction data with
    | nil => rfl
    | cons b rest ih =>
      have : b.toNat < 256 := b.toNat_lt
      rw [List.mapM_cons, ih]
      simp [this]

/-- The loop over the elements of a list, behind its header. -/
theorem runs_items {element : Shape} {v : Var} {s : Shape} {items : List Value} {item : Local}
    {part : Shape → Value → Except Fault Bytes} (hs : element.IsFinal)
    (hv : v.eval env = .ok ⟨s, .array items⟩)
    (hitems : (Typed.mk s (.array items)).items = .ok (items.map (Typed.mk element)))
    (hpart : ∀ w ∈ items, ∀ b, part element w = .ok b →
      Appends (machine rt call tally) c element w b)
    (hbytes : Format.gather (part element) items = .ok bytes)
    (h : block (.items item v.place) (shapeCode c element (.ofLocal item)) p = .ok (code, p'))
    (hst : Fresh p st) :
    ∃ st', Runs (machine rt call tally) env (p.names.last + 1) p p' code bytes st st' := by
  refine runs_block (fun w => env.bind item ⟨element, w⟩) (part element) items h hst ?_ hbytes
    ((emits_shapeCode hs _).mono fun _ => trivial) fun w hw b hb q q' body st hbody hst =>
      hpart w hw b hb _ _ q q' body st hbody (Var.eval_ofLocal _ _ _) hst
  simp only [Head.rounds, Var.eval_place hv, ok_bind, hitems, List.map_map]
  rfl

theorem appends_slice {element : Shape} {items : List Value}
    {part : Shape → Value → Except Fault Bytes} (hrt : rt.Lawful) (hs : element.IsFinal)
    (hpart : ∀ w ∈ items, ∀ b, part element w = .ok b →
      Appends (machine rt call tally) c element w b)
    (hbytes : Format.gather (part element) items = .ok bytes) :
    Appends (machine rt call tally) c (.slice element) (.array items)
      (Wire.arrayHeader (UInt32.ofNat items.length) ++ bytes) := by
  intro v env p p' code st h hv hst
  obtain ⟨number, q, hnumber, h⟩ := run_bind_eq_ok h
  obtain ⟨header, q', hheader, h⟩ := run_bind_eq_ok h
  obtain ⟨loop, q'', hloop, h⟩ := run_bind_eq_ok h
  obtain ⟨rfl, rfl⟩ := run_pure_eq_ok h
  refine runs_of_drawName hnumber hst fun hst => ?_
  have hline : ∀ st, (Line.arrayHeader v.place).exec rt call tally env st =
      .ok (st.write (Wire.arrayHeader (UInt32.ofNat items.length))) := by
    intro st
    simp only [Line.exec, Var.eval_place hv, ok_bind, Typed.items, List.length_map,
      hrt.arrayHeader]
    rfl
  obtain ⟨st₁, h₁⟩ := runs_dynamic hheader st (hline _)
  obtain ⟨st₂, h₂⟩ := runs_items hs hv rfl hpart hbytes hloop (h₁.fresh hst)
  exact ⟨st₂, h₁.append h₂ (Nat.le_refl _)⟩

theorem appends_array {info : ArrayInfo} {element : Shape} {items : List Value}
    {part : Shape → Value → Except Fault Bytes} (hs : element.IsFinal)
    (hwide : element.isSingleByte = false) (hsize : info.resolved = some items.length)
    (hpart : ∀ w ∈ items, ∀ b, part element w = .ok b →
      Appends (machine rt call tally) c element w b)
    (hbytes : Format.gather (part element) items = .ok bytes) :
    Appends (machine rt call tally) c (.array info element) (.array items)
      (Wire.arrayHeader (UInt32.ofNat items.length) ++ bytes) := by
  intro v env p p' code st h hv hst
  obtain ⟨size, q₀, hlift, hrest⟩ := run_bind_eq_ok h
  obtain ⟨hresolved, rfl⟩ := run_lift_eq_ok hlift
  rw [ArrayInfo.resolvedSize, hsize] at hresolved
  obtain rfl := Except.ok.inj hresolved
  rw [hwide] at hrest
  obtain ⟨header, q, hheader, h⟩ := run_bind_eq_ok hrest
  obtain ⟨number, q', hnumber, h⟩ := run_bind_eq_ok h
  obtain ⟨loop, q'', hloop, h⟩ := run_bind_eq_ok h
  obtain ⟨rfl, rfl⟩ := run_pure_eq_ok h
  obtain ⟨st₁, h₁⟩ := runs_constant hheader st
  obtain ⟨st₂, h₂⟩ := runs_of_drawName hnumber (h₁.fresh hst) fun hst =>
    runs_items hs hv rfl hpart hbytes hloop hst
  exact ⟨st₂, h₁.append h₂ (Nat.le_refl _)⟩

theorem appends_byteArray {info : ArrayInfo} {element : Shape} {w : Value} {data : Bytes}
    (hrt : rt.Lawful) (hnarrow : element.isSingleByte = true)
    (hgiven : w = .bin data ∨ w = .array (data.map fun b => .uint b.toUInt64)) :
    Appends (machine rt call tally) c (.array info element) w (Wire.bin data) := by
  intro v env p p' code st h hv hst
  obtain ⟨size, q, hlift, hrest⟩ := run_bind_eq_ok h
  obtain ⟨-, rfl⟩ := run_lift_eq_ok hlift
  rw [hnarrow] at hrest
  have hline : ∀ st, (Line.byteArray v.place).exec rt call tally env st =
      .ok (st.write (Wire.bin data)) := by
    intro st
    simp only [Line.exec, Var.eval_place hv, ok_bind, byteContents_of_given hgiven]
    exact appendAs_eq hrt (OfKind.bytes data : OfKind (BaseInfo.mk .bytes none false).kind _) rfl st
  exact runs_dynamic hrest st (hline _)

/-- A map key is appended by the primitive of its kind. -/
theorem exec_mapKey (hrt : rt.Lawful) {key : KeyKind} {k : Local} {w : Value}
    (hw : OfKeyKind key w) (hb : Encoder.mapKey key w = .ok bytes)
    (hk : (Place.bound k).eval env = .ok ⟨.ofKind key.kind, w⟩) (st : State) :
    (Line.mapKey key k).exec rt call tally env st = .ok (st.write bytes) := by
  have hkind : OfKind (BaseInfo.mk key.kind none false).kind w := by
    cases hw with
    | string s => exact .string s
    | int64 n => exact .signed rfl trivial
  have hscalar : Encoder.scalar key.kind w = .ok bytes := by
    cases hw <;> exact hb
  simp only [Line.exec, hk, ok_bind]
  exact appendAs_eq hrt hkind hscalar st

theorem appends_map {key : KeyKind} {value : Shape} {entries : List (Value × Value)}
    {part : Shape → Value → Except Fault Bytes} (hrt : rt.Lawful) (hs : value.IsFinal)
    (hkeys : ∀ e ∈ entries, OfKeyKind key e.1)
    (hpart : ∀ e ∈ entries, ∀ b, part value e.2 = .ok b →
      Appends (machine rt call tally) c value e.2 b)
    (hbytes : Format.gather (fun e => do
      return (← Encoder.mapKey key e.1) ++ (← part value e.2)) entries = .ok bytes) :
    Appends (machine rt call tally) c (.map key value) (.map entries)
      (Wire.mapHeader (UInt32.ofNat entries.length) ++ bytes) := by
  intro v env p p' code st h hv hst
  obtain ⟨number, q, hnumber, h⟩ := run_bind_eq_ok h
  obtain ⟨header, q', hheader, h⟩ := run_bind_eq_ok h
  obtain ⟨loop, q'', hloop, h⟩ := run_bind_eq_ok h
  obtain ⟨rfl, rfl⟩ := run_pure_eq_ok h
  refine runs_of_drawName hnumber hst fun hst => ?_
  have hline : ∀ st, (Line.mapHeader v.place).exec rt call tally env st =
      .ok (st.write (Wire.mapHeader (UInt32.ofNat entries.length))) := by
    intro st
    simp only [Line.exec, Var.eval_place hv, ok_bind, Typed.entries, List.length_map,
      hrt.mapHeader]
    rfl
  obtain ⟨st₁, h₁⟩ := runs_dynamic hheader st (hline _)
  let toEnv (e : Value × Value) : Env :=
    (env.bind (keyLocal number) ⟨.ofKind key.kind, e.1⟩).bind (valueLocal number) ⟨value, e.2⟩
  have hrounds : (Head.entries number v.place).rounds env (readFlag st₁) =
      .ok (entries.map toEnv) := by
    simp only [Head.rounds, Var.eval_place hv, ok_bind, Typed.entries, List.map_map]
    rfl
  have hbody : Emits Pending.last True (do
      let code ← dynamic (.mapKey key (keyLocal number))
      return code ++ (← shapeCode c value (.ofLocal (valueLocal number)))) :=
    (emits_dynamic _).bind fun _ =>
      ((emits_shapeCode hs _).mono fun _ => trivial).bindLeft fun _ => .pure _
  obtain ⟨st₂, h₂⟩ := runs_block toEnv _ entries hloop (h₁.fresh hst) hrounds hbytes hbody (by
    intro e he b hb q q' body st hgen hst
    obtain ⟨kb, hkb, hb⟩ := bind_eq_ok hb
    obtain ⟨vb, hvb, hb⟩ := bind_eq_ok hb
    obtain rfl := Except.ok.inj hb
    obtain ⟨keyCode, r, hkeyCode, hgen⟩ := run_bind_eq_ok hgen
    obtain ⟨valueCode, r', hvalueCode, hgen⟩ := run_bind_eq_ok hgen
    obtain ⟨rfl, rfl⟩ := run_pure_eq_ok hgen
    have hlocal : (Place.bound (keyLocal number)).eval (toEnv e) = .ok ⟨.ofKind key.kind, e.1⟩ := by
      simp [Place.eval, toEnv, Env.bind, keyLocal, valueLocal]
    obtain ⟨st₁, h₁⟩ := runs_dynamic hkeyCode st (exec_mapKey hrt (hkeys e he) hkb hlocal _)
    obtain ⟨st₂, h₂⟩ := hpart e he vb hvb _ _ r q' valueCode st₁ hvalueCode
      (Var.eval_ofLocal _ _ _) (h₁.fresh hst)
    exact ⟨st₂, h₁.append h₂ (Nat.le_refl _)⟩)
  exact ⟨st₂, h₁.append h₂ (Nat.le_refl _)⟩

theorem appends_scalar {info : BaseInfo} {w : Value} (hrt : rt.Lawful)
    (hplain : info.kind ≠ .identifier) (hw : OfKind info.kind w)
    (hb : Encoder.scalar info.kind w = .ok bytes) :
    Appends (machine rt call tally) c (.base info) w bytes := by
  intro v env p p' code st h hv hst
  have hline : ∀ arg : Arg, arg.eval rt.conversions env = .ok ⟨.base info, w⟩ → ∀ st,
      (Line.scalar info.kind arg).exec rt call tally env st = .ok (st.write bytes) := by
    intro arg harg st
    simp only [Line.exec, harg, ok_bind]
    exact appendAs_eq hrt hw hb st
  obtain ⟨arg, hcode, harg⟩ : ∃ arg : Arg,
      shapeCode c (.base info) v = dynamic (.scalar info.kind arg) ∧
        arg.eval rt.conversions env = .ok ⟨.base info, w⟩ := by
    unfold shapeCode scalarCode
    cases hk : info.kind with
    | identifier => exact absurd hk hplain
    | interface => exact ⟨.reference v, rfl, hv⟩
    | extension => exact ⟨.reference v, rfl, hv⟩
    | _ => exact ⟨info.arg v, rfl, Arg.eval_arg hrt.conversions hv info⟩
  rw [hcode] at h
  exact runs_dynamic h st (hline arg harg _)

theorem appends_identity {info : BaseInfo} {w : Value} (hnamed : info.kind = .identifier)
    (hcall : ∀ buffer, call (info.typeName.getD "") w buffer = .ok (buffer ++ bytes)) :
    Appends (machine rt call tally) c (.base info) w bytes := by
  intro v env p p' code st h hv hst
  have hline : ∀ st, (Line.delegate v.place).exec rt call tally env st =
      .ok (st.write bytes) := by
    intro st
    simp only [Line.exec, Var.eval_place hv, ok_bind, hnamed, if_true, hcall]
    rfl
  simp only [shapeCode, scalarCode, hnamed] at h
  exact runs_dynamic h st (hline _)

/-- A pointer: the code of what it points to, or nil. -/
theorem appends_ptr {pointee : Shape} {w : Value} (hs : pointee.IsFinal)
    (hnil : w = .nil → bytes = Wire.nil)
    (hpart : w ≠ .nil → Appends (machine rt call tally) c pointee w bytes) :
    Appends (machine rt call tally) c (.ptr pointee) w bytes := by
  intro v env p p' code st h hv hst
  obtain ⟨number, q, hnumber, h⟩ := run_bind_eq_ok h
  obtain ⟨before, q₁, hbefore, h⟩ := run_bind_eq_ok h
  obtain ⟨value, q₂, hvalue, h⟩ := run_bind_eq_ok h
  obtain ⟨after, q₃, hafter, h⟩ := run_bind_eq_ok h
  obtain ⟨absent, q₄, habsent, h⟩ := run_bind_eq_ok h
  obtain ⟨after', q₅, hafter', h⟩ := run_bind_eq_ok h
  obtain ⟨rfl, rfl⟩ := run_pure_eq_ok h
  refine runs_of_drawName hnumber hst fun hst => ?_
  obtain ⟨hexec, rfl⟩ := execAll_flush rt call tally env hbefore st
  have hwrote := Wrote.write st q.fusion.pending
  have hq₃ := (execAll_flush rt call tally env hafter st).2
  have hp' := (execAll_flush rt call tally env hafter' st).2
  have hnames : q.names.last ≤ q₃.names.last := by
    rw [hq₃]
    exact (emits_shapeCode hs _ _ _ _ hvalue).2
  have hnames' : q₃.names.last ≤ p'.names.last :=
    Nat.le_trans (emits_constant _ _ _ _ _ _ habsent).2 (emits_flush _ _ _ hafter').2
  -- one of the arms is run, from the same state
  obtain ⟨st', harm, hwrote'⟩ : ∃ st', (machine rt call tally).exec
      (.optional ⟨"zp", number⟩ v (value ++ after) (absent ++ after')) env
      (st.write q.fusion.pending) = .ok st' ∧ Wrote bytes (st.write q.fusion.pending) st' := by
    simp only [Machine.exec, hv, ok_bind]
    by_cases hne : w = .nil
    · subst hne
      obtain rfl := hnil rfl
      have hfresh : Fresh q₃ (st.write q.fusion.pending) := fun t ht =>
        hwrote.fresh hst t (Nat.lt_of_le_of_lt hnames ht)
      obtain ⟨st₁, h₁⟩ : ∃ st₁, Runs (machine rt call tally) env (q₃.names.last + 1) q₃ q₄ absent
        Wire.nil (st.write q.fusion.pending) st₁ := runs_constant habsent _
      obtain ⟨st₂, hexec, h₂⟩ := wrote_of_block hfresh (by rw [hq₃]; rfl) h₁ hafter'
      refine ⟨_, ?_, h₂⟩
      simp only [Typed.pointee?, ok_bind, hexec]
      rfl
    · obtain ⟨st₁, h₁⟩ := hpart hne _ _ _ q₂ value (st.write q.fusion.pending) hvalue
        (Var.eval_ofLocal env _ _) (hwrote.fresh hst)
      have hfresh : Fresh ⟨.empty, [], q.names⟩ (st.write q.fusion.pending) := hwrote.fresh hst
      obtain ⟨st₂, hexec, h₂⟩ := wrote_of_block hfresh rfl h₁ hafter
      refine ⟨_, ?_, h₂⟩
      simp only [Typed.pointee?_present hne, ok_bind, hexec]
      rfl
  refine ⟨st', (hwrote.trans hwrote').runs ?_ (by rw [hp']; rfl) (Nat.le_trans hnames hnames')⟩
  rw [Machine.execAll_append, hexec, ok_bind, Machine.execAll_singleton]
  exact harm

end

/-! ## Whole encoders -/

section

variable {T : Table} {rt : Runtime} {c : Config}

theorem fresh_start (buffer : Bytes) : Fresh {} { buffer } := fun _ _ => ⟨rfl, rfl⟩

/-- The encoder of an identity: the code of its shape, then what is still held back. -/
theorem marshalMsg_of_runs (hrt : rt.Lawful) {depth : Nat} {name : String} {s : Shape} {w : Value}
    {buffer bytes : Bytes} {code rest : Body} {q q' : Pending} {st : State}
    (hget : T.get? name = some s) (hcode : code? c s = some (code ++ rest))
    (hrun : Runs (machine rt (marshalMsg rt T c depth) (fieldsNotEmpty rt c))
      ⟨⟨s, w⟩, fun _ => none⟩ 0 {} q code bytes { buffer } st)
    (hrest : flush q = .ok (rest, q')) :
    marshalMsg rt T c (depth + 1) name w buffer = .ok (buffer ++ bytes) := by
  have h := (hrun.append (runs_flush hrest st) (Nat.zero_le _))
  obtain ⟨-, rfl⟩ := execAll_flush rt (marshalMsg rt T c depth) (fieldsNotEmpty rt c)
    ⟨⟨s, w⟩, fun _ => none⟩ hrest st
  have hbuffer : (st.write q.fusion.pending).buffer = buffer ++ bytes := by
    simpa [Fusion.empty] using h.buffer
  simp only [marshalMsg, hget, hcode, hrt.require, h.exec, ok_bind, hbuffer]
  rfl

/-- Everything below a position is right: the code of its parts, and the call of the identity that
it names. -/
structure PartsRight (rt : Runtime) (T : Table) (c : Config) (depth : Nat)
    (part : Shape → Value → Except Fault Bytes) (s : Shape) (w : Value) : Prop where
  code : ∀ s' w', Format.Child T s w s' w' → ∀ b, part s' w' = .ok b →
    Appends (machine rt (marshalMsg rt T c depth) (fieldsNotEmpty rt c)) c s' w' b
  call : ∀ info target, s = .base info → info.kind = .identifier →
    T.get? (info.typeName.getD "") = some target → ∀ b, part target w = .ok b →
      ∀ buffer, marshalMsg rt T c depth (info.typeName.getD "") w buffer = .ok (buffer ++ b)

variable {depth : Nat} {part : Shape → Value → Except Fault Bytes} {s : Shape} {w : Value}
  {bytes : Bytes}

theorem PartsRight.structAt {info : StructInfo} {fields : List Field}
    {values : List (String × Value)} {env : Env} {v : Var}
    (h : PartsRight rt T c depth part (.struct info fields) (.record values))
    (hw : Conforms T (.struct info fields) (.record values))
    (hs : (Shape.struct info fields).IsFinal)
    (hv : v.eval env = .ok ⟨.struct info fields, .record values⟩) :
    StructAt (machine rt (marshalMsg rt T c depth) (fieldsNotEmpty rt c)) T c part info fields
      values env v where
  final := hs
  conforms := hw
  eval := hv
  parts _ hf b hb := h.code _ _ (.field hf (Var.eval_field_of_conforms hw hv hf).2.2) b hb

/-- One level of a shape: if its parts are right then so is its code. -/
theorem appends_node (hrt : rt.Lawful) (h : PartsRight rt T c depth part s w)
    (hbytes : Format.node T c.protocol part s w = .ok bytes) (hw : Conforms T s w)
    (hs : s.IsFinal) (hfit : ¬Format.Crowded T s w) :
    Appends (machine rt (marshalMsg rt T c depth) (fieldsNotEmpty rt c)) c s w bytes := by
  cases hw with
  | @struct info fields values hnodup hheld heach =>
    intro v env p p' code st hcode hv hst
    have hfew : (Format.liveFields fields).length + 1 < UInt32.size :=
      Nat.lt_of_not_le fun hle => hfit ⟨info, fields, _, .here, hle⟩
    exact runs_structCode hrt (h.structAt (.struct hnodup hheld heach) hs hv) hfew
      (by simp) hbytes hcode hst
  | map hkeys heach =>
    obtain ⟨rest, hrest, hbytes⟩ := bind_eq_ok hbytes
    obtain rfl := Except.ok.inj hbytes
    exact appends_map hrt hs.2 hkeys (fun e he b hb => h.code _ _ (.entry he) b hb) hrest
  | slice heach =>
    obtain ⟨rest, hrest, hbytes⟩ := bind_eq_ok hbytes
    obtain rfl := Except.ok.inj hbytes
    exact appends_slice hrt hs.2 (fun x hx b hb => h.code _ _ (.element hx) b hb) hrest
  | array hwide hsize heach =>
    rw [Format.node_array hwide hsize] at hbytes
    obtain ⟨rest, hrest, hbytes⟩ := bind_eq_ok hbytes
    obtain rfl := Except.ok.inj hbytes
    exact appends_array hs.2 hwide hsize (fun x hx b hb => h.code _ _ (.item hx) b hb) hrest
  | byteArray hnarrow hsize hgiven =>
    rw [Format.node_byteArray hnarrow hsize hgiven] at hbytes
    obtain rfl := Except.ok.inj hbytes
    exact appends_byteArray hrt hnarrow hgiven
  | absent =>
    obtain rfl := Except.ok.inj hbytes
    exact appends_ptr hs.2 (fun _ => rfl) fun hne => absurd rfl hne
  | present hne there =>
    rw [Format.node_ptr hne] at hbytes
    exact appends_ptr hs.2 (fun hnil => absurd hnil hne)
      fun _ => h.code _ _ (.pointee hne) bytes hbytes
  | identity hnamed hfound there =>
    simp only [Format.node, if_pos hnamed, hfound] at hbytes
    exact appends_identity hnamed (h.call _ _ rfl hnamed hfound bytes hbytes)
  | scalar hplain hholds =>
    simp only [Format.node, if_neg hplain] at hbytes
    exact appends_scalar hrt hplain hholds hbytes

/-- The encoder of an identity of a shape whose parts are right. -/
theorem marshalMsg_node (hrt : rt.Lawful) (h : PartsRight rt T c depth part s w)
    (hbytes : Format.node T c.protocol part s w = .ok bytes) (hw : Conforms T s w)
    (hs : s.IsFinal) (hfit : ¬Format.Crowded T s w) {code : Body} (hcode : code? c s = some code)
    {name : String} (hget : T.get? name = some s) (buffer : Bytes) :
    marshalMsg rt T c (depth + 1) name w buffer = .ok (buffer ++ bytes) := by
  obtain ⟨p, hp⟩ := exists_of_run' (eq_ok_of_toOption hcode)
  by_cases hwrapped : ∀ info fields, s ≠ .struct info fields
  · rw [identityCode_wrapped c hwrapped] at hp
    obtain ⟨code, q, hq, hp⟩ := run_bind_eq_ok hp
    obtain ⟨rest, q', hrest, hp⟩ := run_bind_eq_ok hp
    obtain ⟨rfl, rfl⟩ := run_pure_eq_ok hp
    obtain ⟨st, hrun⟩ := appends_node hrt h hbytes hw hs hfit _ _ {} q code { buffer } hq
      (Var.eval_receiver ⟨s, w⟩) (fresh_start buffer)
    exact marshalMsg_of_runs hrt hget hcode (hrun.weaken (Nat.zero_le _)) hrest
  · simp only [Classical.not_forall, Classical.not_not] at hwrapped
    obtain ⟨info, fields, rfl⟩ := hwrapped
    rw [identityCode_struct] at hp
    obtain ⟨code, q, hq, hp⟩ := run_bind_eq_ok hp
    obtain ⟨rest, q', hrest, hp⟩ := run_bind_eq_ok hp
    obtain ⟨rfl, rfl⟩ := run_pure_eq_ok hp
    have hfew : (Format.liveFields fields).length + 1 < UInt32.size :=
      Nat.lt_of_not_le fun hle => hfit ⟨info, fields, _, .here, hle⟩
    cases hw with
    | @struct _ _ values hnodup hheld heach =>
      have hself : (Var.mk .self false).eval
          ⟨⟨.struct info fields, .record values⟩, fun _ => none⟩ =
            .ok ⟨.struct info fields, .record values⟩ := rfl
      obtain ⟨st, hrun⟩ := runs_structCode hrt (h.structAt (.struct hnodup hheld heach) hs hself)
        hfew (fun _ => ⟨rfl, rfl, rfl⟩) hbytes hq (fresh_start buffer)
      exact marshalMsg_of_runs hrt hget hcode hrun hrest

/-- Code was generated for every identity. -/
def Generated (T : Table) (c : Config) : Prop :=
  ∀ name s, T.get? name = some s → ∃ code, code? c s = some code

/-- To the depth of the format, the code of a shape appends the bytes of the format, and so do the
encoders of the identities of that shape. -/
theorem marshal_of_bytes (hrt : rt.Lawful) (hT : T.IsFinal) (hcode : Generated T c) {d : Nat}
    (hbytes : Format.bytes T c.protocol d s w = .ok bytes)
    (hw : Conforms T s w) (hs : s.IsFinal) (hfit : ¬Format.Crowded T s w)
    (hdepth : d ≤ depth) :
    Appends (machine rt (marshalMsg rt T c depth) (fieldsNotEmpty rt c)) c s w bytes ∧
      ∀ name buffer, T.get? name = some s →
        marshalMsg rt T c (depth + 1) name w buffer = .ok (buffer ++ bytes) := by
  induction d generalizing s w bytes depth with
  | zero => cases hbytes
  | succ d ih =>
    have hright : PartsRight rt T c depth (Format.bytes T c.protocol d) s w := by
      have hchild : ∀ s' w', Format.Child T s w s' w' → ∀ b,
          Format.bytes T c.protocol d s' w' = .ok b → ∀ depth', d ≤ depth' → _ :=
        fun s' w' hc b hb depth' hd => ih hb (hw.child hc) (Encoder.isFinal_child hT hs hc)
          (fun h => hfit (h.of_child hc)) hd
      refine ⟨fun s' w' hc b hb => (hchild s' w' hc b hb depth (by omega)).1, ?_⟩
      rintro info target rfl hnamed hfound b hb buffer
      -- the call is one of the calls that the depth allows
      obtain ⟨k, rfl⟩ : ∃ k, depth = k + 1 := ⟨depth - 1, by omega⟩
      exact (hchild target w (.target hnamed hfound) b hb k (by omega)).2 _ buffer hfound
    refine ⟨appends_node hrt hright hbytes hw hs hfit, fun name buffer hget => ?_⟩
    obtain ⟨code, hc⟩ := hcode name s hget
    exact marshalMsg_node hrt hright hbytes hw hs hfit hc hget buffer

end

/-- Over a finalized table for which every encoder can be rendered, the generated encoder of an
identity appends to an empty buffer exactly the bytes that the encoder gives. The run needs finitely
many calls inside each other and ends in no trap, so no count goes below zero on the way. -/
theorem marshalMsg_eq_encode (rt : Runtime) (hrt : rt.Lawful) (d : Directives) (t : Table)
    (c : Config)
    (hrender : ∀ name s, ((Pipeline.standard d).finalizeAll t).get? name = some s →
      ∃ text, render c name s = .ok text)
    (name : String) (s : Shape) (hget : ((Pipeline.standard d).finalizeAll t).get? name = some s)
    (v : Value) (hv : Conforms ((Pipeline.standard d).finalizeAll t) s v)
    (hlen : ∀ info fields w,
      Format.Reach ((Pipeline.standard d).finalizeAll t) s v (.struct info fields) w →
        (Format.liveFields fields).length + 1 < UInt32.size) :
    ∃ bytes, (Encoder.mk ((Pipeline.standard d).finalizeAll t) c.protocol c.fuse).encode name v =
        .ok bytes ∧
      ∃ n, ∀ depth ≥ n,
        marshalMsg rt ((Pipeline.standard d).finalizeAll t) c depth name v [] = .ok bytes := by
  let e := Encoder.mk ((Pipeline.standard d).finalizeAll t) c.protocol c.fuse
  have ht : e.table.IsFinal := Table.isFinal_finalizeAll d t
  have hbody : ∀ name s, e.table.get? name = some s → ∃ code, body c s = .ok code := by
    intro name s hs
    exact exists_of_isOk ((exists_render (ht name s hs).2).1 (hrender name s hs)).1
  have hkeyed : e.table.Keyed e.protocol := fun name s hs =>
    let ⟨_, hcode⟩ := hbody name s hs
    keyed_of_body (ht name s hs).1 hcode
  have hgenerated : Generated e.table c := fun name s hs =>
    let ⟨code, hcode⟩ := hbody name s hs
    ⟨code, by simp [code?, (ht name s hs).2, hcode, Except.toOption]⟩
  have hfit : ¬Format.Crowded e.table s v := fun ⟨info, fields, w, hreach, hcrowd⟩ =>
    Nat.not_lt.2 hcrowd (hlen info fields w hreach)
  have hfinal := (ht name s hget).1
  obtain ⟨hcrowd, -⟩ | ⟨bytes, hbytes⟩ :=
    Encoder.encodeShape_of_conforms e ht hkeyed hv hfinal (hkeyed name s hget)
  · exact absurd hcrowd hfit
  · refine ⟨bytes, ?_, e.depthBudget s v + 1, fun depth hdepth => ?_⟩
    · rw [← hbytes]
      exact e.encode_eq_encodeShape hget v
    · rw [Encoder.encodeShape_eq_bytes e ht hfinal] at hbytes
      obtain ⟨k, rfl⟩ : ∃ k, depth = k + 1 := ⟨depth - 1, by omega⟩
      exact (marshal_of_bytes hrt ht hgenerated hbytes hv hfinal hfit (by omega)).2 name [] hget

/-- A runtime whose primitives are those of the encoder. It makes no room in advance. -/
def wireRuntime : Runtime where
  append k v o := (Encoder.scalar k v).toOption.map (o ++ ·)
  mapHeader n o := o ++ Wire.mapHeader n
  arrayHeader n o := o ++ Wire.arrayHeader n
  isZeroTime v := Emptiness.zeroTime.holds v
  require buffer _ := buffer
  msgsize _ _ := 0
  conversions := .trivial

theorem lawful_wireRuntime : wireRuntime.Lawful where
  bool _ _ := rfl
  string _ _ := rfl
  bytes _ _ := rfl
  float32 _ _ := rfl
  float64 _ _ := rfl
  time _ _ _ := rfl
  extension _ _ _ := rfl
  interface _ _ := rfl
  signed k n o hs _ := by cases k <;> first | rfl | simp [Kind.isSigned] at hs
  unsigned k n o hs _ := by cases k <;> first | rfl | simp [Kind.isUnsigned] at hs
  mapHeader _ _ := rfl
  arrayHeader _ _ := rfl
  isZeroTime _ _ := rfl
  require _ _ := rfl
  conversions := Conversions.lawful_trivial

/-- The lines of a ledger, as structs inside it. -/
def ledgerLine : Shape := .struct { name := "Line" } [
  .mk { zid := 0, name := "text" } (.ofKind .string),
  .mk { zid := 1, name := "amount" } (.ofKind .int64)]

/-- A ledger and those before it. -/
def ledger : Shape := .struct { name := "Ledger", skipCount := 1 } [
  .mk { zid := 0, name := "lines" } (.slice ledgerLine),
  .mk { name := "cache", skip := true } (.ofKind .bytes),
  .mk { zid := 2, name := "previous" } (.ptr (.ident "Ledger"))]

def ledgerTable : Table := Table.ofList [("Ledger", ledger)]

/-- The second line has no amount, and the ledger before is empty. -/
def ledgerValue : Value := .record [
  ("lines", .array [.record [("text", .str "a"), ("amount", .int 7)],
    .record [("text", .str "b"), ("amount", .int 0)]]),
  ("previous", .record [("lines", .array []), ("previous", .nil)])]

theorem conforms_ledgerValue : Conforms ledgerTable ledger ledgerValue := by
  have hline (text : String) (amount : Int64) : Conforms ledgerTable ledgerLine
      (.record [("text", .str text), ("amount", .int amount)]) :=
    .ofFields (by decide) (List.forall_mem_cons.2 ⟨⟨_, rfl, .scalar (by decide) (.string text)⟩,
      List.forall_mem_singleton.2 ⟨_, rfl, .scalar (by decide) (.signed rfl trivial)⟩⟩)
  have hledger (lines : List Value) (previous : Value)
      (hlines : ∀ v ∈ lines, Conforms ledgerTable ledgerLine v)
      (hprevious : Conforms ledgerTable (.ptr (.ident "Ledger")) previous) :
      Conforms ledgerTable ledger (.record [("lines", .array lines), ("previous", previous)]) :=
    .ofFields (by decide) (List.forall_mem_cons.2 ⟨⟨_, rfl, .slice hlines⟩,
      List.forall_mem_singleton.2 ⟨_, rfl, hprevious⟩⟩)
  refine hledger _ _ (by simp [hline]) (.present (by simp) (.identity rfl rfl ?_))
  exact hledger _ _ (by simp) .absent

/-- The second line has no entry for its amount, and the ledger before has no entries of its own. -/
theorem marshalMsg_ledger : Conforms ledgerTable ledger ledgerValue ∧
    ∃ n, ∀ depth ≥ n, marshalMsg wireRuntime ((Pipeline.standard {}).finalizeAll ledgerTable) {}
      depth "Ledger" ledgerValue [] = .ok [0x83, 0xff, 0xc4, 6, 76, 101, 100, 103, 101, 114,
        0, 0x92, 0x83, 0xff, 0xc4, 4, 76, 105, 110, 101, 0, 0xa1, 97, 1, 7,
        0x82, 0xff, 0xc4, 4, 76, 105, 110, 101, 0, 0xa1, 98,
        2, 0x81, 0xff, 0xc4, 6, 76, 101, 100, 103, 101, 114] := by
  have hget : ∀ name s, ledgerTable.get? name = some s → s = ledger := by
    intro name s hs
    change (if "Ledger" = name then some ledger else none) = some s at hs
    split at hs
    · exact (Option.some.inj hs).symm
    · cases hs
  have hrender : ∀ name s, ledgerTable.get? name = some s →
      ∃ text, render {} name s = .ok text := by
    intro name s hs
    obtain rfl := hget name s hs
    exact (exists_render rfl).2 ⟨by decide +kernel, by decide +kernel⟩
  let Few (s : Shape) : Prop := ∀ info fields, s = .struct info fields →
    (Format.liveFields fields).length + 1 < UInt32.size
  have hline : ledgerLine.Everywhere Few := by
    refine ⟨?_, ?_, ?_, trivial⟩ <;> rintro info fields ⟨⟩
    decide
  have hfew : ledger.Everywhere Few := by
    refine ⟨?_, ⟨?_, hline⟩, ?_, ⟨?_, ?_⟩, trivial⟩ <;> rintro info fields ⟨⟩
    decide
  have hreach : ∀ info fields w,
      Format.Reach ledgerTable ledger ledgerValue (.struct info fields) w →
        (Format.liveFields fields).length + 1 < UInt32.size := fun info fields w hr =>
    hr.everywhere (Q := Few) (fun name s hs => hget name s hs ▸ hfew) hfew info fields rfl
  obtain ⟨bytes, hencode, hrun⟩ := marshalMsg_eq_encode wireRuntime lawful_wireRuntime {}
    ledgerTable {} hrender "Ledger" ledger rfl ledgerValue conforms_ledgerValue hreach
  refine ⟨conforms_ledgerValue, ?_⟩
  have hbytes : (Encoder.mk ledgerTable .fast true).encode "Ledger" ledgerValue = .ok _ := rfl
  obtain rfl := Except.ok.inj (hbytes.symm.trans hencode)
  exact hrun

end Packwright.Marshal
