import Packwright.Proofs.MarshalSteps

/-
  The flags and the count of a struct that leaves out empty fields. The tests set the flag of each
  field that may be left out and take the empty ones off the count, so that in the end the count is
  the number of fields that the format writes (`inUse_add_countP`) and never went below zero. The
  struct that a function is generated for has the same tests in a companion function.
-/

namespace Packwright.Marshal

/-! ## Flags and counts -/

/-- A state after another, with nothing changed but the flags and the count of one struct. -/
structure Tallied (t : Tally) (flags : List Bool) (n : Nat) (st st' : State) : Prop where
  flags : st'.flags t = some flags
  count : st'.count t = some n
  buffer : st'.buffer = st.buffer
  others : ∀ t', t' ≠ t → st'.flags t' = st.flags t' ∧ st'.count t' = st.count t'

theorem Tallied.trans {t : Tally} {flags flags' : List Bool} {n n' : Nat} {st st' st'' : State}
    (h : Tallied t flags n st st') (h' : Tallied t flags' n' st' st'') :
    Tallied t flags' n' st st'' where
  flags := h'.flags
  count := h'.count
  buffer := h'.buffer.trans h.buffer
  others t' ht :=
    ⟨(h'.others t' ht).1.trans (h.others t' ht).1, (h'.others t' ht).2.trans (h.others t' ht).2⟩

/-- Whether the value that a record holds for the field of a slot is empty. -/
def isEmptyIn (values : List (String × Value)) (slot : Slot) : Bool :=
  (Emptiness.of slot.field.value).holds (Encoder.heldFor values slot.field)

/-- Flags after the tests of slots. -/
def mark (values : List (String × Value)) (flags : List Bool) (slots : List Slot) : List Bool :=
  slots.foldl (fun flags slot => flags.set slot.index (isEmptyIn values slot)) flags

theorem mark_cons (values : List (String × Value)) (flags : List Bool) (slot : Slot)
    (rest : List Slot) :
    mark values flags (slot :: rest) =
      mark values (flags.set slot.index (isEmptyIn values slot)) rest := rfl

theorem getElem?_mark_of_ne {values : List (String × Value)} {flags : List Bool}
    {slots : List Slot} {i : Nat} (h : ∀ slot ∈ slots, slot.index ≠ i) :
    (mark values flags slots)[i]? = flags[i]? := by
  induction slots generalizing flags with
  | nil => rfl
  | cons slot rest ih =>
    rw [mark_cons, ih fun s hs => h s (List.mem_cons_of_mem _ hs)]
    exact List.getElem?_set_ne (h slot List.mem_cons_self)

theorem getElem?_mark {values : List (String × Value)} {flags : List Bool} {slots : List Slot}
    (hnodup : (slots.map Slot.index).Nodup) (hlt : ∀ slot ∈ slots, slot.index < flags.length)
    {slot : Slot} (hslot : slot ∈ slots) :
    (mark values flags slots)[slot.index]? = some (isEmptyIn values slot) := by
  induction slots generalizing flags with
  | nil => simp at hslot
  | cons s rest ih =>
    rw [List.map_cons, List.nodup_cons] at hnodup
    rw [mark_cons]
    rcases List.mem_cons.1 hslot with rfl | hmem
    · have hother : ∀ r ∈ rest, r.index ≠ slot.index := fun r hr he =>
        hnodup.1 (he ▸ List.mem_map.2 ⟨r, hr, rfl⟩)
      rw [getElem?_mark_of_ne hother]
      exact List.getElem?_set_self (hlt slot List.mem_cons_self)
    · refine ih hnodup.2 (fun r hr => ?_) hmem
      rw [List.length_set]
      exact hlt r (List.mem_cons_of_mem _ hr)

/-- The test of one field. -/
def checkCode (v : Var) (t : Tally) (slot : Slot) : Body :=
  match Condition.of? slot.field.value (v.field slot.field.info.name) with
  | some test =>
    [.line (.setFlag t slot.index (some test)),
      .block (.ifFlag t slot.index) [.line (.decrement t)]]
  | none => [.line (.setFlag t slot.index none)]

section

variable {rt : Runtime} {call : String → Value → Bytes → Except Trap Bytes}
  {tally : Typed → List Bool → Except Trap (List Bool × Nat)} {env : Env} {st : State}

variable (rt call tally env) in
theorem exec_setFlag {t : Tally} {flags : List Bool} {n index : Nat}
    (test : Option Condition) {b : Bool} (hflags : st.flags t = some flags)
    (hcount : st.count t = some n) (hindex : index < flags.length)
    (htest : (match test with
      | some test => test.eval rt env
      | none => .ok false) = .ok b) :
    ∃ st', (Line.setFlag t index test).exec rt call tally env st = .ok st' ∧
      Tallied t (flags.set index b) n st st' := by
  refine ⟨st.setFlags t (flags.set index b), ?_, ?_⟩
  · simp only [Line.exec, State.flagsOf, hflags, ok_bind]
    cases test with
    | none =>
      obtain rfl := Except.ok.inj htest
      simp only [pure_bind, if_pos hindex]
      rfl
    | some test =>
      simp only at htest
      simp only [htest, ok_bind, if_pos hindex]
      rfl
  · exact ⟨by simp [State.setFlags], hcount, rfl, fun t' ht => by simp [State.setFlags, ht]⟩

variable (rt call tally env) in
theorem exec_decrement {t : Tally} {flags : List Bool} {n : Nat}
    (hflags : st.flags t = some flags) (hcount : st.count t = some (n + 1)) :
    ∃ st', (Line.decrement t).exec rt call tally env st = .ok st' ∧ Tallied t flags n st st' := by
  refine ⟨st.setCount t n, ?_, ?_⟩
  · simp only [Line.exec, State.countOf, hcount, ok_bind]
    rfl
  · exact ⟨hflags, by simp [State.setCount], rfl, fun t' ht => by simp [State.setCount, ht]⟩

theorem readFlag_eq {t : Tally} {flags : List Bool} {index : Nat} {b : Bool}
    (hflags : st.flags t = some flags) (hb : flags[index]? = some b) :
    readFlag st t index = .ok b := by
  simp only [readFlag, State.flagsOf, hflags, ok_bind, hb]
  rfl

theorem Tallied.leave {t : Tally} {flags flags' : List Bool} {n n' : Nat} {st st' : State}
    (hflags : st.flags t = some flags) (hcount : st.count t = some n)
    (h : Tallied t flags' n' st st') : Tallied t flags' n' st (st.leave st') where
  flags := by simp [State.leave, hflags, h.flags]
  count := by simp [State.leave, hcount, h.count]
  buffer := h.buffer
  others t' ht := by
    simp only [State.leave, (h.others t' ht).1, (h.others t' ht).2]
    cases st.flags t' <;> cases st.count t' <;> exact ⟨rfl, rfl⟩

/-- The test of a field sets its flag, and takes it off the count if it is empty. -/
theorem execAll_checkCode {T : Table} (hrt : rt.Lawful) {values : List (String × Value)} {v : Var}
    {t : Tally} {slot : Slot} {flags : List Bool} {n : Nat}
    (hv : (v.field slot.field.info.name).eval env =
      .ok ⟨slot.field.value, Encoder.heldFor values slot.field⟩)
    (hw : Conforms T slot.field.value (Encoder.heldFor values slot.field))
    (hflags : st.flags t = some flags)
    (hcount : st.count t = some (n + (isEmptyIn values slot).toNat))
    (hindex : slot.index < flags.length) :
    ∃ st', (machine rt call tally).execAll (checkCode v t slot) env st = .ok st' ∧
      Tallied t (flags.set slot.index (isEmptyIn values slot)) n st st' := by
  have htest := Condition.eval_of? hrt hw hv
  unfold checkCode
  cases hof : Condition.of? slot.field.value (v.field slot.field.info.name) with
  | none =>
    simp only [hof] at htest
    have hb : isEmptyIn values slot = false := htest
    rw [hb] at hcount ⊢
    obtain ⟨st', hexec, h⟩ := 
      exec_setFlag rt call tally env none hflags hcount hindex rfl
    exact ⟨st', by rw [Machine.execAll_singleton]; exact hexec, h⟩
  | some test =>
    simp only [hof] at htest
    change test.eval rt env = .ok (isEmptyIn values slot) at htest
    generalize isEmptyIn values slot = b at hcount htest ⊢
    obtain ⟨st₁, hexec, h₁⟩ := exec_setFlag rt call tally env (some test) hflags hcount hindex htest
    have hread : readFlag st₁ t slot.index = .ok b :=
      readFlag_eq h₁.flags (List.getElem?_set_self hindex)
    have hline : (machine rt call tally).exec (.line (.setFlag t slot.index (some test))) env st =
      .ok st₁ := hexec
    rw [Machine.execAll, hline, ok_bind, Machine.execAll_singleton, Machine.exec]
    simp only [Head.rounds]
    change ∃ st', ((do return if ← readFlag st₁ t slot.index then [env] else []) >>= _) = _ ∧ _
    rw [hread]
    cases b with
    | false => exact ⟨st₁, rfl, h₁⟩
    | true =>
      obtain ⟨st₂, hexec₂, h₂⟩ := exec_decrement rt call tally env h₁.flags h₁.count
      refine ⟨st₁.leave st₂, ?_, h₁.trans (h₂.leave h₁.flags h₁.count)⟩
      have hbody : (machine rt call tally).execAll [.line (.decrement t)] env st₁ = .ok st₂ := by
        rw [Machine.execAll_singleton]; exact hexec₂
      simp only [ok_bind, pure_bind, if_true, List.foldlM_cons, List.foldlM_nil, hbody]
      rfl

/-- The tests of slots set their flags and take the empty ones off the count. -/
theorem execAll_checkCodes {T : Table} (hrt : rt.Lawful) {values : List (String × Value)} {v : Var}
    {t : Tally} {slots : List Slot} {flags : List Bool} {n : Nat}
    (hv : ∀ slot ∈ slots, (v.field slot.field.info.name).eval env =
      .ok ⟨slot.field.value, Encoder.heldFor values slot.field⟩)
    (hw : ∀ slot ∈ slots, Conforms T slot.field.value (Encoder.heldFor values slot.field))
    (hflags : st.flags t = some flags)
    (hcount : st.count t = some (n + slots.countP (isEmptyIn values)))
    (hlt : ∀ slot ∈ slots, slot.index < flags.length) :
    ∃ st', (machine rt call tally).execAll (slots.flatMap (checkCode v t)) env st = .ok st' ∧
      Tallied t (mark values flags slots) n st st' := by
  -- `n` is fixed: the count is always `n` and one for each empty field to come, never less
  induction slots generalizing flags st with
  | nil => exact ⟨st, rfl, hflags, hcount, rfl, fun _ _ => ⟨rfl, rfl⟩⟩
  | cons slot rest ih =>
    have hcount' : st.count t =
        some (n + rest.countP (isEmptyIn values) + (isEmptyIn values slot).toNat) := by
      rw [hcount, List.countP_cons]
      cases isEmptyIn values slot <;> rfl
    obtain ⟨st₁, hexec, h₁⟩ := execAll_checkCode hrt (hv slot List.mem_cons_self)
      (hw slot List.mem_cons_self) hflags hcount' (hlt slot List.mem_cons_self)
    obtain ⟨st₂, hrest, h₂⟩ := ih (fun s hs => hv s (List.mem_cons_of_mem _ hs))
      (fun s hs => hw s (List.mem_cons_of_mem _ hs)) h₁.flags h₁.count
      fun s hs => by rw [List.length_set]; exact hlt s (List.mem_cons_of_mem _ hs)
    refine ⟨st₂, ?_, h₁.trans h₂⟩
    rw [List.flatMap_cons, Machine.execAll_append, hexec]
    exact hrest

end

/-! ## Structs -/

section

variable {T : Table} {P : Protocol} {info : StructInfo} {fields : List Field}
  {values : List (String × Value)}

/-- The slots of a struct that may be left out. -/
def optionalSlots (P : Protocol) (info : StructInfo) (fields : List Field) : List Slot :=
  (Format.layout P info fields).slots.filter Slot.conditional

/-- The flags of a struct: which fields are left out. -/
def finalFlags (P : Protocol) (info : StructInfo) (fields : List Field)
    (values : List (String × Value)) : List Bool :=
  mark values (List.replicate fields.length false) (optionalSlots P info fields)

/-- The number of fields of a struct that are written. -/
def inUse (P : Protocol) (fields : List Field) (values : List (String × Value)) : Nat :=
  ((Encoder.heldFields fields values).filter fun x => !Format.omits P x.1 x.2).length

theorem index_layout (P : Protocol) (info : StructInfo) (fields : List Field) :
    ((Format.layout P info fields).slots.map Slot.index).Nodup ∧
      ∀ slot ∈ (Format.layout P info fields).slots, slot.index < fields.length := by
  have hmap : (Format.layout P info fields).slots.map Slot.index =
      (Field.live fields).map Prod.snd := by
    rw [Format.layout, List.map_map]
    rfl
  have hsub : ((Field.live fields).map Prod.snd).Sublist (List.range' 0 fields.length) := by
    rw [← List.zipIdx_map_snd]
    exact List.filter_sublist.map _
  refine ⟨hmap ▸ hsub.nodup List.nodup_range', fun slot hslot => ?_⟩
  have hmem : slot.index ∈ (Field.live fields).map Prod.snd :=
    hmap ▸ List.mem_map.2 ⟨slot, hslot, rfl⟩
  have := List.mem_range'_1.1 (hsub.subset hmem)
  omega

theorem field_mem_of_slot {slot : Slot} (h : slot ∈ (Format.layout P info fields).slots) :
    slot.field ∈ Format.liveFields fields := by
  rw [← Encoder.layout_slots_field P info fields]
  exact List.mem_map.2 ⟨slot, h, rfl⟩

theorem getElem?_finalFlags {slot : Slot} (h : slot ∈ (Format.layout P info fields).slots)
    (hc : slot.conditional = true) :
    (finalFlags P info fields values)[slot.index]? = some (isEmptyIn values slot) := by
  have hindex := index_layout P info fields
  refine getElem?_mark ?_ (fun s hs => ?_) (List.mem_filter.2 ⟨h, hc⟩)
  · exact (List.filter_sublist.map _).nodup hindex.1
  · rw [List.length_replicate]
    exact hindex.2 s (List.mem_filter.1 hs).1

theorem inUse_add_countP (hs : (Shape.struct info fields).IsFinalNode)
    (ht : info.asTuple = false) :
    inUse P fields values + (optionalSlots P info fields).countP (isEmptyIn values) =
      (Format.liveFields fields).length := by
  have hempty : (optionalSlots P info fields).countP (isEmptyIn values) =
      (Field.live fields).countP fun x => Format.omits P x.1 (Encoder.heldFor values x.1) := by
    rw [optionalSlots, Format.layout, List.countP_filter, List.countP_map]
    refine List.countP_congr fun x hx => ?_
    rw [← Format.slotOf_omitted hs ht (Field.mem_liveFields hx) x.2, Bool.and_comm]
    rfl
  rw [hempty, inUse, ← List.countP_eq_length_filter, Encoder.heldFields_map, List.countP_map,
    ← Field.map_fst_live, List.length_map,
    List.length_eq_countP_add_countP
      fun x : Field × Nat => !Format.omits P x.1 (Encoder.heldFor values x.1)]
  simp [Function.comp_def]

variable {rt : Runtime} {call : String → Value → Bytes → Except Trap Bytes}
  {tally : Typed → List Bool → Except Trap (List Bool × Nat)} {env : Env} {c : Config} {v : Var}
  {p p' : Pending} {code : Body} {st : State} {t : Tally}

/-- The tests of a struct, from flags that are all unset and a count of all live fields. -/
theorem execAll_checks (hrt : rt.Lawful) (hs : (Shape.struct info fields).IsFinalNode)
    (ht : info.asTuple = false) (hc : Conforms T (.struct info fields) (.record values))
    (hv : v.eval env = .ok ⟨.struct info fields, .record values⟩)
    (hflags : st.flags t = some (List.replicate fields.length false))
    (hcount : st.count t = some (Format.liveFields fields).length) :
    ∃ st', (machine rt call tally).execAll (checks (Format.layout P info fields) v t) env st =
      .ok st' ∧ Tallied t (finalFlags P info fields values) (inUse P fields values) st st' := by
  have hfield : ∀ slot ∈ optionalSlots P info fields, slot.field ∈ Format.liveFields fields :=
    fun slot hslot => field_mem_of_slot (List.mem_filter.1 hslot).1
  refine execAll_checkCodes hrt
    (fun slot hslot => (Var.eval_field_of_conforms hc hv (hfield slot hslot)).1)
    (fun slot hslot => (Var.eval_field_of_conforms hc hv (hfield slot hslot)).2.1) hflags ?_
    fun slot hslot => ?_
  · have hsum : inUse P fields values + (optionalSlots P info fields).countP (isEmptyIn values) =
        (Format.liveFields fields).length := inUse_add_countP hs ht
    rw [hcount, ← hsum]
    rfl
  · rw [List.length_replicate]
    exact (index_layout P info fields).2 slot (List.mem_filter.1 hslot).1

/-- The companion function computes the flags of a struct and the number of fields to write. -/
theorem fieldsNotEmpty_eq (hrt : rt.Lawful) (hs : (Shape.struct info fields).IsFinalNode)
    (hkeys : Format.checkKeys c.protocol info (Format.liveFields fields) = .ok ())
    (ht : info.asTuple = false) (hmode : (Layout.modeOf info c.protocol).isDynamic = true)
    (hc : Conforms T (.struct info fields) (.record values))
    (hfit : (Format.liveFields fields).length < UInt32.size) :
    fieldsNotEmpty rt c ⟨.struct info fields, .record values⟩
        (List.replicate fields.length false) =
      .ok (finalFlags c.protocol info fields values, inUse c.protocol fields values) := by
  have hside : companion c (.struct info fields) =
      .ok (some ([.line (.declareCount .computed (Format.liveFields fields).length)] ++
        checks (Format.layout c.protocol info fields) ⟨.self, false⟩ .computed ++
        [.line (.giveCount .computed)])) := by
    simp only [companion, Format.plan_eq hs, hkeys, ok_bind, pure_bind]
    rw [if_pos (by exact hmode)]
    rfl
  let m := machine rt (fun _ _ _ => .error .notGenerated) (fun _ _ => .error .notGenerated)
  let env : Env := ⟨⟨.struct info fields, .record values⟩, fun _ => none⟩
  let st := (({} : State).setFlags .computed (List.replicate fields.length false))
  have hdeclare : m.execAll [.line (.declareCount .computed (Format.liveFields fields).length)] env
      st = .ok (st.setCount .computed (Format.liveFields fields).length) := by
    rw [Machine.execAll_singleton]
    exact State.declareCount_eq (show st.count .computed = none from rfl) hfit
  obtain ⟨st', hchecks, h⟩ : ∃ st', m.execAll
      (checks (Format.layout c.protocol info fields) ⟨.self, false⟩ .computed) env
      (st.setCount .computed (Format.liveFields fields).length) = .ok st' ∧
        Tallied .computed (finalFlags c.protocol info fields values)
          (inUse c.protocol fields values) _ st' :=
    execAll_checks hrt hs ht hc rfl (by simp [State.setCount, st, State.setFlags])
      (by simp [State.setCount])
  have hgive : m.execAll [.line (.giveCount .computed)] env st' =
      .ok { st' with result := some (inUse c.protocol fields values) } := by
    rw [Machine.execAll_singleton]
    change (do return { st' with result := some (← st'.countOf .computed) }) = _
    simp only [State.countOf, h.count, ok_bind]
    rfl
  simp only [fieldsNotEmpty, hside]
  rw [Machine.execAll_append, Machine.execAll_append, hdeclare, ok_bind, hchecks, ok_bind, hgive,
    ok_bind]
  simp only [State.flagsOf, h.flags, ok_bind]
  rfl

/-- What holds once flags and count of a struct are computed. -/
structure Ready (P : Protocol) (info : StructInfo) (fields : List Field)
    (values : List (String × Value)) (t : Tally) (p : Pending) (st : State) : Prop where
  flags : st.flags t = some (finalFlags P info fields values)
  count : st.count t = some (inUse P fields values)
  drawn : t.level ≤ p.names.last
  flushed : p.fusion.pending = []

theorem runs_tallyCode_nested (hrt : rt.Lawful) (hs : (Shape.struct info fields).IsFinalNode)
    (ht : info.asTuple = false) (hc : Conforms T (.struct info fields) (.record values))
    (hv : v.eval env = .ok ⟨.struct info fields, .record values⟩)
    (hfit : (Format.liveFields fields).length < UInt32.size)
    (h : tallyCode (Format.layout P info fields) v false p = .ok ((t, code), p'))
    (hst : Fresh p st) :
    ∃ st', Runs (machine rt call tally) env (p.names.last + 1) p p' code [] st st' ∧
      Ready P info fields values t p' st' := by
  obtain ⟨before, q, hq, h⟩ := run_bind_eq_ok h
  obtain ⟨number, q', hq', h⟩ := run_bind_eq_ok h
  obtain ⟨heq, rfl⟩ := run_pure_eq_ok h
  obtain ⟨rfl, rfl⟩ := Prod.mk.inj heq
  obtain ⟨hexec, rfl⟩ := execAll_flush rt call tally env hq st
  obtain ⟨rfl, rfl⟩ := Prod.mk.inj (Except.ok.inj hq')
  obtain ⟨hnoflags, hnocount⟩ :=
    (Wrote.write st p.fusion.pending).fresh hst (.nested (p.names.last + 1)) (Nat.lt_succ_self _)
  let st₁ := ((st.write p.fusion.pending).setFlags (.nested (p.names.last + 1))
    (List.replicate fields.length false)).setCount (.nested (p.names.last + 1))
      (Format.liveFields fields).length
  have hdeclare : (machine rt call tally).execAll
      [.line (.declareFlags (.nested (p.names.last + 1)) fields.length),
        .line (.declareCount (.nested (p.names.last + 1)) (Format.liveFields fields).length)] env
      (st.write p.fusion.pending) = .ok st₁ := by
    rw [Machine.execAll_pair]
    change (State.declareFlags _ _ _ >>= fun st => State.declareCount st _ _) = _
    rw [State.declareFlags_eq hnoflags, ok_bind]
    exact State.declareCount_eq hnocount hfit
  obtain ⟨st', hchecks, h⟩ : ∃ st', (machine rt call tally).execAll
      (checks (Format.layout P info fields) v (.nested (p.names.last + 1))) env st₁ = .ok st' ∧
        Tallied (.nested (p.names.last + 1)) (finalFlags P info fields values)
          (inUse P fields values) st₁ st' :=
    execAll_checks hrt hs ht hc hv (by simp [st₁, State.setCount, State.setFlags])
      (by simp [st₁, State.setCount])
  refine ⟨st', ⟨?_, ?_, Nat.le_succ _, fun t' ht' => ?_⟩, h.flags, h.count, Nat.le_refl _, rfl⟩
  · rw [Machine.execAll_append, Machine.execAll_append, Machine.execAll_append, hexec, ok_bind]
    exact (congrArg (· >>= _) hdeclare).trans hchecks
  · rw [h.buffer]
    simp [st₁, State.setCount, State.setFlags, State.write, Fusion.empty]
  · have hne : t' ≠ .nested (p.names.last + 1) := by
      rintro rfl
      simp only [Tally.level] at ht'
      change _ ∨ p.names.last + 1 < _ at ht'
      omega
    simp [h.others t' hne, st₁, State.setCount, State.setFlags, State.write, hne]

theorem runs_tallyCode_outer (hrt : rt.Lawful) (hs : (Shape.struct info fields).IsFinalNode)
    (hkeys : Format.checkKeys c.protocol info (Format.liveFields fields) = .ok ())
    (ht : info.asTuple = false) (hmode : (Layout.modeOf info c.protocol).isDynamic = true)
    (hc : Conforms T (.struct info fields) (.record values))
    (hself : env.self = ⟨.struct info fields, .record values⟩)
    (hfit : (Format.liveFields fields).length < UInt32.size)
    (h : tallyCode (Format.layout c.protocol info fields) v true p = .ok ((t, code), p'))
    (hnoflags : st.flags .outer = none) (hnocount : st.count .outer = none) :
    ∃ st', Runs (machine rt call (fieldsNotEmpty rt c)) env 0 p p' code [] st st' ∧
      Ready c.protocol info fields values t p' st' := by
  obtain ⟨before, q, hq, h⟩ := run_bind_eq_ok h
  obtain ⟨heq, rfl⟩ := run_pure_eq_ok h
  obtain ⟨rfl, rfl⟩ := Prod.mk.inj heq
  obtain ⟨hexec, rfl⟩ := execAll_flush rt call (fieldsNotEmpty rt c) env hq st
  have hle : inUse c.protocol fields values ≤ (Format.liveFields fields).length := by
    have hsum : inUse c.protocol fields values + _ = _ := inUse_add_countP hs ht
    omega
  let st' := ((st.write p.fusion.pending).setFlags .outer
    (finalFlags c.protocol info fields values)).setCount .outer (inUse c.protocol fields values)
  have hlines : (machine rt call (fieldsNotEmpty rt c)).execAll
      [.line (.declareFlags .outer fields.length), .line (.computeTally .outer)] env
      (st.write p.fusion.pending) = .ok st' := by
    rw [Machine.execAll_pair]
    change (State.declareFlags _ _ _ >>= fun st => do
      let checked ← fieldsNotEmpty rt c env.self (← st.flagsOf .outer)
      (st.setFlags .outer checked.1).declareCount .outer checked.2) = _
    rw [State.declareFlags_eq (show (st.write _).flags .outer = none from hnoflags), ok_bind,
      State.flagsOf_setFlags, ok_bind, hself, fieldsNotEmpty_eq hrt hs hkeys ht hmode hc hfit,
      ok_bind]
    rw [State.setFlags_setFlags]
    exact State.declareCount_eq (show (State.setFlags _ _ _).count .outer = none from hnocount)
      (Nat.lt_of_le_of_lt hle hfit)
  refine ⟨st', ⟨?_, ?_, Nat.le_refl _, fun t' ht' => ?_⟩, ?_, ?_, Nat.zero_le _, rfl⟩
  · rw [Machine.execAll_append, Machine.execAll_append, hexec, ok_bind]
    exact hlines
  · simp [st', State.setCount, State.setFlags, State.write, Fusion.empty]
  · have hne : t' ≠ .outer := by
      rintro rfl
      simp [Tally.level] at ht'
    simp [st', State.setCount, State.setFlags, State.write, hne]
  · simp [st', State.setCount, State.setFlags]
  · simp [st', State.setCount]

end

end Packwright.Marshal
