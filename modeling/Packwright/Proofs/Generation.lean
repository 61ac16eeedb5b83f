import Packwright.Code.Marshal
import Packwright.Code.Msgsize
import Packwright.Proofs.Sizes

/-
  What follows when code generation succeeds. The generators fail on structs whose zids cannot
  serve as keys, so a shape that code was generated for is `Keyed`; and they only ever draw more
  local names. Both are read off one predicate, `Emits`, with a rule for each step of a generator.
-/

namespace Packwright

section

variable {σ α β : Type}

theorem run_bind_eq_ok {x : StateT σ (Except Fault) α} {f : α → StateT σ (Except Fault) β} {p : σ}
    {r : β × σ} (h : (x >>= f) p = .ok r) : ∃ a p', x p = .ok (a, p') ∧ f a p' = .ok r := by
  change (x p >>= fun y => f y.1 y.2) = .ok r at h
  cases hx : x p with
  | error fault => rw [hx] at h; simp [error_bind] at h
  | ok y => rw [hx] at h; exact ⟨y.1, y.2, rfl, h⟩

theorem run_lift_eq_ok {x : Except Fault α} {p : σ} {a : α} {p' : σ}
    (h : (liftM x : StateT σ (Except Fault) α) p = .ok (a, p')) : x = .ok a ∧ p' = p := by
  change (x >>= fun a => .ok (a, p)) = .ok (a, p') at h
  cases x with
  | error fault => simp [error_bind] at h
  | ok b =>
    simp only [ok_bind, Except.ok.injEq, Prod.mk.injEq] at h
    exact ⟨by rw [h.1], h.2.symm⟩

theorem run_pure_eq_ok {a b : α} {p p' : σ}
    (h : (pure a : StateT σ (Except Fault) α) p = .ok (b, p')) : b = a ∧ p' = p := by
  change (Except.ok (a, p) : Except Fault (α × σ)) = .ok (b, p') at h
  simp only [Except.ok.injEq, Prod.mk.injEq] at h
  exact ⟨h.1.symm, h.2.symm⟩

theorem exists_of_isOk {ε : Type} {x : Except ε α} (h : x.isOk = true) : ∃ a, x = .ok a := by
  cases x with
  | error fault => cases h
  | ok a => exact ⟨a, rfl⟩

theorem ok_of_toOption {ε : Type} {x : Except ε α} {a : α} (h : x.toOption = some a) :
    x = .ok a := by
  cases x with
  | error fault => cases h
  | ok a' => exact congrArg _ (Option.some.inj h)

theorem eq_ok_of_toOption {x : Except Fault α} {b : Bool} {a : α}
    (h : (if b then x.toOption else none) = some a) : x = .ok a := by
  split at h
  · exact ok_of_toOption h
  · cases h

theorem exists_of_run' {x : StateT σ (Except Fault) α} {p : σ} {a : α} (h : x.run' p = .ok a) :
    ∃ p', x p = .ok (a, p') := by
  change Prod.fst <$> x p = .ok a at h
  cases hx : x p with
  | error fault => rw [hx] at h; cases h
  | ok y => rw [hx] at h; obtain rfl := Except.ok.inj h; exact ⟨y.2, rfl⟩

/-- If a step of a generator succeeds then `K` holds, and no local name is taken back. -/
def Emits (last : σ → Nat) (K : Prop) (x : StateT σ (Except Fault) α) : Prop :=
  ∀ p a p', x p = .ok (a, p') → K ∧ last p ≤ last p'

namespace Emits

variable {last : σ → Nat} {K K' : Prop} {x : StateT σ (Except Fault) α}
  {f : α → StateT σ (Except Fault) β}

theorem mono (h : Emits last K x) (hK : K → K') : Emits last K' x := fun p a p' hx =>
  (h p a p' hx).imp_left hK

theorem pure (a : α) : Emits last True (pure a : StateT σ (Except Fault) α) := by
  intro p b p' h
  rw [(run_pure_eq_ok h).2]
  exact ⟨trivial, Nat.le_refl _⟩

theorem lift {x : Except Fault α} (h : ∀ a, x = .ok a → K) :
    Emits last K (liftM x : StateT σ (Except Fault) α) := by
  intro p b p' hrun
  obtain ⟨hx, rfl⟩ := run_lift_eq_ok hrun
  exact ⟨h b hx, Nat.le_refl _⟩

theorem both (hx : Emits last K x) (hf : ∀ a, Emits last K' (f a)) :
    Emits last (K ∧ K') (x >>= f) := by
  intro p b p' h
  obtain ⟨a, q, h₁, h₂⟩ := run_bind_eq_ok h
  have hx := hx p a q h₁
  have hf := hf a q b p' h₂
  exact ⟨⟨hx.1, hf.1⟩, Nat.le_trans hx.2 hf.2⟩

theorem bind (hx : Emits last True x) (hf : ∀ a, Emits last K (f a)) : Emits last K (x >>= f) :=
  (both hx hf).mono And.right

theorem bindLeft (hx : Emits last K x) (hf : ∀ a, Emits last True (f a)) :
    Emits last K (x >>= f) :=
  (both hx hf).mono And.left

end Emits

end

/-! ## Encoders -/

namespace Marshal

/-- The number of local names drawn so far. -/
def Pending.last (p : Pending) : Nat := p.names.last

theorem flush_eq (p : Pending) : flush p =
    .ok (if p.fusion.pending.isEmpty then []
      else (if p.notes.isEmpty then [] else [.line (.notes p.notes)]) ++
        [.line (.literal p.fusion.pending)], ⟨.empty, [], p.names⟩) := by
  obtain ⟨⟨pending⟩, notes, names⟩ := p
  cases pending <;> rfl

theorem emits_flush : Emits Pending.last True flush := by
  intro p a p' h
  rw [flush_eq] at h
  simp only [Except.ok.injEq, Prod.mk.injEq] at h
  rw [← h.2]
  exact ⟨trivial, Nat.le_refl _⟩

theorem emits_modify {f : Pending → Pending} (hf : ∀ p, p.last ≤ (f p).last) :
    Emits Pending.last True (modify f : Emit Unit) := by
  intro p a p' h
  obtain rfl : f p = p' := (Prod.mk.inj (Except.ok.inj h)).2
  exact ⟨trivial, hf p⟩

theorem emits_constant (c : Config) (note : Note) (bytes : Bytes) :
    Emits Pending.last True (constant c note bytes) := by
  refine Emits.bind (emits_modify ?_) fun _ => ?_
  · exact fun p => Nat.le_refl _
  · split
    · exact .pure _
    · exact emits_flush

theorem emits_drawName : Emits Pending.last True drawName := by
  intro p a p' h
  obtain rfl := (Prod.mk.inj (Except.ok.inj h)).2
  exact ⟨trivial, Nat.le_succ _⟩

theorem emits_dynamic (l : Line) : Emits Pending.last True (dynamic l) :=
  emits_flush.bind fun _ => .pure _

theorem emits_block {K : Prop} (head : Head) {body : Emit Body} (h : Emits Pending.last K body) :
    Emits Pending.last K (block head body) :=
  emits_flush.bind fun _ => h.bindLeft fun _ => emits_flush.bind fun _ => .pure _

theorem emits_tallyCode (layout : Layout) (v : Var) (isTop : Bool) :
    Emits Pending.last True (tallyCode layout v isTop) := by
  refine emits_flush.bind fun _ => ?_
  split
  · exact .pure _
  · exact emits_drawName.bind fun _ => .pure _

theorem emits_identification (c : Config) (layout : Layout) :
    Emits Pending.last True (identification c layout) := by
  unfold identification
  split
  · exact emits_constant _ _ _
  · exact .pure _

/-- The key of a field and the code of its value. -/
def entryCode (c : Config) (layout : Layout) (slot : Slot) (value : Emit Body) : Emit Body := do
  let key ← constant c (if layout.intKeys then .zid slot.field.info.zid slot.field.info.name
    else .name slot.field.info.name) slot.key
  return key ++ (← value)

theorem slotCode_tuple {layout : Layout} (h : layout.mode = .tuple) (c : Config) (t : Tally)
    (slot : Slot) (value : Emit Body) : slotCode c layout t slot value = value := by
  simp only [slotCode, h]

theorem slotCode_entry {layout : Layout} (h : layout.mode ≠ .tuple) (c : Config) (t : Tally)
    (slot : Slot) (value : Emit Body) :
    slotCode c layout t slot value =
      if slot.conditional then block (.unlessFlag t slot.index) (entryCode c layout slot value)
      else entryCode c layout slot value := by
  unfold slotCode
  cases hm : layout.mode with
  | tuple => exact absurd hm h
  | _ => rfl

theorem emits_entryCode {K : Prop} (c : Config) (layout : Layout) (slot : Slot)
    {value : Emit Body} (h : Emits Pending.last K value) :
    Emits Pending.last K (entryCode c layout slot value) :=
  (emits_constant _ _ _).bind fun _ => h.bindLeft fun _ => .pure _

theorem emits_slotCode {K : Prop} (c : Config) (layout : Layout) (t : Tally) (slot : Slot)
    {value : Emit Body} (h : Emits Pending.last K value) :
    Emits Pending.last K (slotCode c layout t slot value) := by
  have hentry := emits_entryCode c layout slot h
  by_cases hm : layout.mode = .tuple
  · rwa [slotCode_tuple hm]
  · rw [slotCode_entry hm]
    split
    · exact emits_block _ hentry
    · exact hentry

theorem emits_structCode {K : Prop} {c : Config} {info : StructInfo} {fields : List Field}
    (v : Var) (isTop : Bool) {slots : Layout → Tally → Emit Body}
    (hs : (Shape.struct info fields).IsFinalNode)
    (hslots : ∀ layout t, Emits Pending.last K (slots layout t)) :
    Emits Pending.last (Format.checkKeys c.protocol info (Format.liveFields fields) = .ok () ∧ K)
      (structCode c info fields v isTop slots) := by
  refine Emits.both (.lift fun l hl => (Format.checkKeys_of_plan hs hl).1) fun layout => ?_
  split
  · exact (emits_constant _ _ _).bind fun _ => (hslots _ _).bindLeft fun _ => .pure _
  · exact (emits_constant _ _ _).bind fun _ => (hslots _ _).bindLeft fun _ => .pure _
  · exact (emits_tallyCode _ _ _).bind fun _ => (emits_identification _ _).bind fun _ =>
      (hslots _ _).bindLeft fun _ => .pure _

theorem emits_fieldsCode {c : Config} (layout : Layout) (t : Tally) (v : Var)
    {fields : List Field}
    (h : ∀ f ∈ fields, ∀ v, Emits Pending.last (f.value.Keyed c.protocol) (shapeCode c f.value v))
    (index : Nat) :
    Emits Pending.last (Shape.KeyedFields c.protocol fields)
      (fieldsCode c layout t v fields index) := by
  induction fields generalizing index with
  | nil => exact .pure _
  | cons f rest ih =>
    obtain ⟨info, value⟩ := f
    have hrest := ih (fun f hf => h f (List.mem_cons_of_mem _ hf)) (index + 1)
    unfold fieldsCode
    split
    · rename_i hskip
      exact hrest.mono fun hr => ⟨fun hlive => by simp [hskip] at hlive, hr⟩
    · have hhere := h (.mk info value) List.mem_cons_self (v.field info.name)
      refine (Emits.both (emits_slotCode c layout t _ hhere) fun _ =>
        hrest.bindLeft fun _ => .pure _).mono fun hk => ⟨fun _ => hk.1, hk.2⟩

/-- Code is only generated for shapes whose structs have keys that can be told apart. -/
theorem emits_shapeCode {c : Config} {s : Shape} (hs : s.IsFinal) (v : Var) :
    Emits Pending.last (s.Keyed c.protocol) (shapeCode c s v) := by
  induction s generalizing v with
  | struct info fields ih =>
    exact emits_structCode v false hs.here fun layout t =>
      emits_fieldsCode layout t v (fun f hf v => ih f hf (hs.field hf) v) 0
  | map key value ih =>
    exact emits_drawName.bind fun _ => (emits_dynamic _).bind fun _ =>
      (emits_block _ ((emits_dynamic _).bind fun _ =>
        (ih hs.2 _).bindLeft fun _ => .pure _)).bindLeft fun _ => .pure _
  | slice element ih =>
    exact emits_drawName.bind fun _ => (emits_dynamic _).bind fun _ =>
      (emits_block _ (ih hs.2 _)).bindLeft fun _ => .pure _
  | array info element ih =>
    refine Emits.bind (.lift fun _ _ => trivial) fun size => ?_
    split
    · rename_i hnarrow
      refine (emits_dynamic _).mono fun _ => ?_
      cases element with
      | base info => trivial
      | _ => simp [Shape.isSingleByte] at hnarrow
    · exact (emits_constant _ _ _).bind fun _ => emits_drawName.bind fun _ =>
        (emits_block _ (ih hs.2 _)).bindLeft fun _ => .pure _
  | ptr pointee ih =>
    exact emits_drawName.bind fun _ => emits_flush.bind fun _ => (ih hs.2 _).bindLeft fun _ =>
      emits_flush.bind fun _ => (emits_constant _ _ _).bind fun _ =>
        emits_flush.bind fun _ => .pure _
  | base info =>
    unfold shapeCode scalarCode
    split <;> exact emits_dynamic _

theorem identityCode_struct (c : Config) (info : StructInfo) (fields : List Field) :
    identityCode c (.struct info fields) = do
      let code ← structCode c info fields ⟨.self, false⟩ true fun layout t =>
        fieldsCode c layout t ⟨.self, false⟩ fields 0
      return code ++ (← flush) := rfl

theorem identityCode_wrapped (c : Config) {s : Shape}
    (hs : ∀ info fields, s ≠ .struct info fields) :
    identityCode c s = do
      let code ← shapeCode c s (.receiver s)
      return code ++ (← flush) := by
  cases s with
  | struct info fields => exact absurd rfl (hs info fields)
  | _ => rfl

theorem emits_identityCode {c : Config} {s : Shape} (hs : s.IsFinal) :
    Emits Pending.last (s.Keyed c.protocol) (identityCode c s) := by
  obtain ⟨info, fields, rfl⟩ | hw := s.struct_or
  · refine Emits.bindLeft ?_ fun _ => emits_flush.bind fun _ => .pure _
    exact emits_structCode _ true hs.here fun layout t =>
      emits_fieldsCode layout t _ (fun f hf v => emits_shapeCode (hs.field hf) v) 0
  · rw [identityCode_wrapped c hw]
    exact (emits_shapeCode hs _).bindLeft fun _ => emits_flush.bind fun _ => .pure _

theorem keyed_of_body {c : Config} {s : Shape} {code : Body} (hs : s.IsFinal)
    (h : body c s = .ok code) : s.Keyed c.protocol := by
  obtain ⟨p, hp⟩ := exists_of_run' h
  exact (emits_identityCode hs _ _ _ hp).1

/-- An identity is rendered if there is code for it and its companion. -/
theorem exists_render {c : Config} {name : String} {s : Shape} (hs : s.isPrintable = true) :
    (∃ text, render c name s = .ok text) ↔
      (body c s).isOk = true ∧ (companion c s).isOk = true := by
  unfold render
  rw [hs]
  cases body c s with
  | error fault => exact ⟨fun ⟨_, h⟩ => (nomatch h), fun h => (nomatch h.1)⟩
  | ok code =>
    cases companion c s with
    | error fault => exact ⟨fun ⟨_, h⟩ => (nomatch h), fun h => (nomatch h.2)⟩
    | ok side => exact ⟨fun _ => ⟨rfl, rfl⟩, fun _ => ⟨_, rfl⟩⟩

theorem render_eq_some {c : Config} {name : String} {s : Shape} {text : String}
    (h : render c name s = .ok (some text)) :
    ∃ code side, body c s = .ok code ∧ companion c s = .ok side ∧
      text = implText c name code side := by
  unfold render at h
  split at h
  · cases h
  · obtain ⟨code, hcode, h⟩ := bind_eq_ok h
    obtain ⟨side, hside, h⟩ := bind_eq_ok h
    exact ⟨code, side, hcode, hside, (Option.some.inj (Except.ok.inj h)).symm⟩

theorem render_of_body {c : Config} (name : String) {s : Shape} {code : Body}
    {side : Option Body} (hs : s.isPrintable = true) (hbody : body c s = .ok code)
    (hside : companion c s = .ok side) :
    render c name s = .ok (some (implText c name code side)) := by
  unfold render
  rw [hs, hbody, hside]
  rfl

end Marshal

/-! ## Size estimates -/

namespace Msgsize

theorem flush_eq (p : Pending) : flush p =
    .ok (if !p.declared then [.line (.declare ⟨p.known, none⟩)]
      else if 0 < p.known then [.line (.add ⟨p.known, none⟩)] else [],
      { p with known := 0, declared := true }) := by
  obtain ⟨known, declared, names⟩ := p
  cases declared <;> cases known <;> rfl

/-- Nothing about estimates depends on which names were drawn, so none are counted. -/
theorem emits_any {α : Type} (x : Emit α) : Emits (fun _ => 0) True x := fun _ _ _ _ =>
  ⟨trivial, Nat.le_refl 0⟩

theorem emits_block {K : Prop} (head : Head) {body : Emit Body}
    (h : Emits (fun _ => 0) K body) : Emits (fun _ => 0) K (block head body) :=
  (emits_any _).bind fun _ => h.bindLeft fun _ => emits_any _

theorem emits_fieldsCode {c : Config} (layout : Layout) (v : Var) {fields : List Field}
    (h : ∀ f ∈ fields, ∀ v, Emits (fun _ => 0) (f.value.Keyed c.protocol) (shapeCode c f.value v))
    (index : Nat) :
    Emits (fun _ => 0) (Shape.KeyedFields c.protocol fields)
      (fieldsCode c layout v fields index) := by
  induction fields generalizing index with
  | nil => exact .pure _
  | cons f rest ih =>
    obtain ⟨info, value⟩ := f
    have hrest := ih (fun f hf => h f (List.mem_cons_of_mem _ hf)) (index + 1)
    unfold fieldsCode
    split
    · rename_i hskip
      exact hrest.mono fun hr => ⟨fun hlive => by simp [hskip] at hlive, hr⟩
    · have hhere := h (.mk info value) List.mem_cons_self (v.field info.name)
      refine (emits_any _).bind fun _ => (Emits.both hhere fun _ => ?_).mono fun hk =>
        ⟨fun _ => hk.1, hk.2⟩
      exact hrest.bindLeft fun _ => .pure _

/-- Estimates are only generated for shapes whose structs have keys that can be told apart. -/
theorem emits_shapeCode {c : Config} {s : Shape} (hs : s.IsFinal) (v : Var) :
    Emits (fun _ => 0) (s.Keyed c.protocol) (shapeCode c s v) := by
  induction s generalizing v with
  | struct info fields ih =>
    refine Emits.both (.lift fun l hl => (Format.checkKeys_of_plan hs.here hl).1) fun layout => ?_
    exact (emits_any _).bind fun _ =>
      emits_fieldsCode layout v (fun f hf v => ih f hf (hs.field hf) v) 0
  | map key value ih =>
    exact (emits_any _).bind fun _ => (emits_any _).bind fun _ => emits_block _
      ((emits_any _).bind fun _ => (ih hs.2 _).bindLeft fun _ => .pure _)
  | slice element ih =>
    refine (emits_any _).bind fun _ => ?_
    intro p code p' h
    obtain ⟨size, q, hsize, h⟩ := run_bind_eq_ok h
    obtain ⟨hstatic, rfl⟩ := run_lift_eq_ok hsize
    cases size with
    | some n =>
      have hkeyed : element.Keyed c.protocol := Shape.keyed_of_staticSize hstatic
      exact ⟨hkeyed, Nat.le_refl 0⟩
    | none =>
      obtain ⟨number, q, -, h⟩ := run_bind_eq_ok h
      exact emits_block _ (ih hs.2 _) _ _ _ h
  | array info element ih =>
    refine (emits_any _).bind fun _ => ?_
    intro p code p' h
    obtain ⟨size, q, hsize, h⟩ := run_bind_eq_ok h
    obtain ⟨hstatic, rfl⟩ := run_lift_eq_ok hsize
    cases size with
    | some n => exact ⟨Shape.keyed_of_staticSize hstatic, Nat.le_refl 0⟩
    | none =>
      obtain ⟨_, q, -, h⟩ := run_bind_eq_ok h
      obtain ⟨number, q', -, h⟩ := run_bind_eq_ok h
      exact emits_block _ (ih hs.2 _) _ _ _ h
  | ptr pointee ih =>
    intro p code p' h
    obtain ⟨size, q, hsize, h⟩ := run_bind_eq_ok h
    obtain ⟨hstatic, rfl⟩ := run_lift_eq_ok hsize
    cases size with
    | some n =>
      have hkeyed : pointee.Keyed c.protocol := Shape.keyed_of_staticSize hstatic
      exact ⟨hkeyed, Nat.le_refl 0⟩
    | none =>
      obtain ⟨number, q, -, h⟩ := run_bind_eq_ok h
      obtain ⟨before, q', -, h⟩ := run_bind_eq_ok h
      exact (ih hs.2 _).bindLeft (fun _ => emits_any _) _ _ _ h
  | base info => exact (emits_any _).mono fun _ => trivial

theorem keyed_of_body {c : Config} {s : Shape} {code : Body} (hs : s.IsFinal)
    (h : body c s = .ok code) : s.Keyed c.protocol := by
  obtain ⟨p, hp⟩ := exists_of_run' h
  exact ((emits_shapeCode hs _).bindLeft (fun _ => emits_any _) _ _ _ hp).1

/-- An identity is rendered if there is code for it. -/
theorem exists_render {c : Config} {name : String} {s : Shape} (hs : s.isPrintable = true) :
    (∃ text, render c name s = .ok text) ↔ (body c s).isOk = true := by
  unfold render
  rw [hs]
  cases body c s with
  | error fault => exact ⟨fun ⟨_, h⟩ => (nomatch h), fun h => (nomatch h)⟩
  | ok code => exact ⟨fun _ => rfl, fun _ => ⟨_, rfl⟩⟩

theorem render_eq_some {c : Config} {name : String} {s : Shape} {text : String}
    (h : render c name s = .ok (some text)) :
    ∃ code, body c s = .ok code ∧ text = implText c name code := by
  unfold render at h
  split at h
  · cases h
  · obtain ⟨code, hcode, h⟩ := bind_eq_ok h
    exact ⟨code, hcode, (Option.some.inj (Except.ok.inj h)).symm⟩

theorem render_of_body {c : Config} (name : String) {s : Shape} {code : Body}
    (hs : s.isPrintable = true) (hbody : body c s = .ok code) :
    render c name s = .ok (some (implText c name code)) := by
  unfold render
  rw [hs, hbody]
  rfl

end Msgsize

end Packwright
