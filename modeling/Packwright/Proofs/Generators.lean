import Packwright.Batch
import Packwright.Proofs.Generation

/-
  What a generator writes. A generator works on a text and on what is held back, and either may be
  in any state when a step begins. `Writes` says that a step, from whatever state, adds the
  statements that the generation of code gives for what is held back, or fails with the same fault;
  there is a rule for each way of putting steps together, and the generators follow the generation
  of code step by step (`writes_shape`).

  `render_eq`: a generator that was used before, with success or not, renders an identity as the
  code of that identity says, and keeps its settings.
-/

namespace Packwright

/-! ## Steps -/

namespace Code

theorem writeAll_append {L : Type} (writeLine : Writer → L → Writer) (w : Writer)
    (a b : List (Code L)) :
    writeAll writeLine w (a ++ b) = writeAll writeLine (writeAll writeLine w a) b := by
  induction a generalizing w with
  | nil => rfl
  | cons c rest ih => exact ih (write writeLine w c)

end Code

theorem bind_ne_tooDeep {α β : Type} {x : Except Fault α} {f : α → Except Fault β}
    (hx : x ≠ .error .tooDeep) (hf : ∀ a, f a ≠ .error .tooDeep) :
    (x >>= f) ≠ .error .tooDeep := by
  cases x with
  | error fault => exact fun h => hx (congrArg Except.error (Except.error.inj h))
  | ok a => exact hf a

/-- Generation of code never goes too deep: it fails on its input, or on a count. -/
def Shallow {σ α : Type} (x : StateT σ (Except Fault) α) : Prop :=
  ∀ p, x p ≠ .error .tooDeep

namespace Shallow

variable {σ α β : Type}

theorem pure (a : α) : Shallow (pure a : StateT σ (Except Fault) α) := fun _ h => nomatch h

theorem lift {x : Except Fault α} (h : x ≠ .error .tooDeep) :
    Shallow (liftM x : StateT σ (Except Fault) α) :=
  fun _ => bind_ne_tooDeep h fun _ h => nomatch h

theorem bind {x : StateT σ (Except Fault) α} {f : α → StateT σ (Except Fault) β}
    (hx : Shallow x) (hf : ∀ a, Shallow (f a)) : Shallow (x >>= f) :=
  fun p => bind_ne_tooDeep (hx p) fun y => hf y.1 y.2

end Shallow

theorem checkedCount_ne_tooDeep (n : Nat) : checkedCount n ≠ .error .tooDeep := by
  unfold checkedCount
  split <;> simp

theorem resolvedSize_ne_tooDeep (info : ArrayInfo) : info.resolvedSize ≠ .error .tooDeep := by
  unfold ArrayInfo.resolvedSize
  split <;> simp

theorem plan_ne_tooDeep (p : Protocol) (info : StructInfo) (fields : List Field) :
    Layout.plan p info fields ≠ .error .tooDeep := by
  refine bind_ne_tooDeep ?_ fun live => ?_
  · unfold StructInfo.liveCount checkedSub
    split <;> simp
  · dsimp only
    split
    · split
      · exact fun h => nomatch h
      · exact fun h => nomatch h
    · exact fun h => nomatch h

theorem staticSize_ne_tooDeep (s : Shape) : s.staticSize ≠ .error .tooDeep := by
  induction s with
  | array info element ih =>
    unfold Shape.staticSize
    split
    · simp
    · split
      · exact bind_ne_tooDeep (checkedCount_ne_tooDeep _) fun _ h => nomatch h
      · refine bind_ne_tooDeep ih fun size => ?_
        cases size with
        | none => exact fun h => nomatch h
        | some n =>
          exact bind_ne_tooDeep (checkedCount_ne_tooDeep _) fun _ =>
            bind_ne_tooDeep (checkedCount_ne_tooDeep _) fun _ h => nomatch h
  | _ => exact fun h => nomatch h

namespace Generator

variable {σ α L : Type}

theorem bind_ok {x : Step σ α} {β : Type} {f : α → Step σ β} {g g' : Generator σ} {a : α}
    (h : x g = .ok a g') : (x >>= f) g = f a g' := by
  change EStateM.bind x f g = f a g'
  rw [EStateM.bind, h]

theorem bind_error {x : Step σ α} {β : Type} {f : α → Step σ β} {g g' : Generator σ}
    {fault : Fault} (h : x g = .error fault g') : (x >>= f) g = .error fault g' := by
  change EStateM.bind x f g = .error fault g'
  rw [EStateM.bind, h]

/-- How a step ends when it fails: with a fault that is not about depth, and with the settings. -/
def Breaks (x : Step σ α) (g : Generator σ) (fault : Fault) : Prop :=
  fault ≠ .tooDeep ∧ ∃ g', x g = .error fault g' ∧ g'.config = g.config

theorem Breaks.bind {x : Step σ α} {β : Type} {f : α → Step σ β} {g : Generator σ} {fault : Fault}
    (h : Breaks x g fault) : Breaks (x >>= f) g fault := by
  obtain ⟨hfault, g', hx, hconfig⟩ := h
  exact ⟨hfault, g', bind_error hx, hconfig⟩

theorem Breaks.after {x : Step σ α} {β : Type} {f : α → Step σ β} {g g' : Generator σ} {a : α}
    {fault : Fault} (hx : x g = .ok a g') (hconfig : g'.config = g.config)
    (h : Breaks (f a) g' fault) : Breaks (x >>= f) g fault := by
  obtain ⟨hfault, g'', hf, hconfig'⟩ := h
  exact ⟨hfault, g'', (bind_ok hx).trans hf, hconfig'.trans hconfig⟩

variable {writeLine : Writer → L → Writer}

/-- From every state a step does what a generation of code says, of which `before` is written
already: it writes the statements behind `before`, or fails with the same fault. -/
def Writes (writeLine : Writer → L → Writer) (before : List (Code L)) (x : Step σ Unit)
    (y : StateT σ (Except Fault) (List (Code L))) : Prop :=
  ∀ g : Generator σ, match y g.pending with
    | .ok (code, pending) => ∃ rest, code = before ++ rest ∧
        x g = .ok () ⟨g.config, Code.writeAll writeLine g.writer rest, pending⟩
    | .error fault => Breaks x g fault

namespace Writes

variable {before : List (Code L)} {x x' : Step σ Unit}
  {y : StateT σ (Except Fault) (List (Code L))}

theorem nothing (before : List (Code L)) :
    Writes writeLine before (pure () : Step σ Unit) (pure before) :=
  fun _ => ⟨[], (List.append_nil before).symm, rfl⟩

theorem emit (hy : Shallow y) : Writes writeLine [] (Generator.emit writeLine y) y := by
  intro g
  cases hp : y g.pending with
  | error fault =>
    refine Breaks.bind ⟨fun h => hy g.pending (h ▸ hp), g, ?_, rfl⟩
    rw [hold, hp]
  | ok r =>
    refine ⟨r.1, rfl, ?_⟩
    have hhold : hold y g = .ok r.1 { g with pending := r.2 } := by rw [hold, hp]
    exact bind_ok hhold

/-- Work on what is held back that writes nothing. -/
theorem hold {d : StateT σ (Except Fault) α} {f : α → Step σ Unit}
    {k : α → StateT σ (Except Fault) (List (Code L))} (hd : Shallow d)
    (h : ∀ a, Writes writeLine before (f a) (k a)) :
    Writes writeLine before (Generator.hold d >>= f) (d >>= k) := by
  intro g
  have hrun : (d >>= k) g.pending = (d g.pending >>= fun r => k r.1 r.2) := rfl
  rw [hrun]
  cases hp : d g.pending with
  | error fault =>
    refine Breaks.bind ⟨fun h => hd g.pending (h ▸ hp), g, ?_, rfl⟩
    rw [Generator.hold, hp]
  | ok r =>
    have hhold : Generator.hold d g = .ok r.1 { g with pending := r.2 } := by
      rw [Generator.hold, hp]
    have hrest := h r.1 { g with pending := r.2 }
    rw [ok_bind]
    cases hk : k r.1 r.2 with
    | error fault =>
      rw [hk] at hrest
      exact .after hhold rfl hrest
    | ok code =>
      rw [hk] at hrest
      obtain ⟨rest, hcode, hf⟩ := hrest
      exact ⟨rest, hcode, (bind_ok hhold).trans hf⟩

theorem andThen {f : List (Code L) → StateT σ (Except Fault) (List (Code L))}
    (hx : Writes writeLine [] x y) (hf : ∀ code, Writes writeLine (before ++ code) x' (f code)) :
    Writes writeLine before (x >>= fun _ => x') (y >>= f) := by
  intro g
  have hrun : (y >>= f) g.pending = (y g.pending >>= fun r => f r.1 r.2) := rfl
  rw [hrun]
  have hfirst := hx g
  cases hp : y g.pending with
  | error fault =>
    rw [hp] at hfirst
    exact hfirst.bind
  | ok r =>
    rw [hp] at hfirst
    obtain ⟨code, hcode, hxg⟩ := hfirst
    rw [ok_bind, hcode, List.nil_append]
    have hrest := hf code ⟨g.config, Code.writeAll writeLine g.writer code, r.2⟩
    cases hk : f code r.2 with
    | error fault =>
      simp only [hk] at hrest
      exact Breaks.after hxg rfl hrest
    | ok whole =>
      simp only [hk] at hrest
      obtain ⟨rest, hwhole, hx'⟩ := hrest
      refine ⟨code ++ rest, by rw [hwhole, List.append_assoc], ?_⟩
      rw [bind_ok hxg, hx', Code.writeAll_append]

theorem last (hx : Writes writeLine [] x y) :
    Writes writeLine before x (do return before ++ (← y)) := by
  intro g
  have hrun : (do return before ++ (← y) : StateT σ (Except Fault) _) g.pending =
      (y g.pending >>= fun r => .ok (before ++ r.1, r.2)) := rfl
  rw [hrun]
  have hfirst := hx g
  cases hp : y g.pending with
  | error fault =>
    rw [hp] at hfirst
    exact hfirst
  | ok r =>
    rw [hp] at hfirst
    obtain ⟨code, hcode, hxg⟩ := hfirst
    exact ⟨code, congrArg (before ++ ·) hcode, hxg⟩

theorem append {y' : StateT σ (Except Fault) (List (Code L))} (hx : Writes writeLine [] x y)
    (hx' : Writes writeLine [] x' y') :
    Writes writeLine [] (x >>= fun _ => x') (do
      let code ← y
      return code ++ (← y')) :=
  andThen hx fun _ => last hx'

/-- Statements that depend on nothing held back. -/
theorem code (statements : List (Code L))
    (h : Writes writeLine (before ++ statements) x y) :
    Writes writeLine before
      (Generator.write (fun w => Code.writeAll writeLine w statements) >>= fun _ => x) y := by
  intro g
  have hrest := h { g with writer := Code.writeAll writeLine g.writer statements }
  have hwrite : Generator.write (fun w => Code.writeAll writeLine w statements) g =
      .ok () { g with writer := Code.writeAll writeLine g.writer statements } := rfl
  cases hp : y g.pending with
  | error fault =>
    simp only [hp] at hrest
    exact .after hwrite rfl hrest
  | ok r =>
    simp only [hp] at hrest
    obtain ⟨rest, hcode, hx⟩ := hrest
    refine ⟨statements ++ rest, by rw [hcode, List.append_assoc], ?_⟩
    rw [bind_ok hwrite, hx, Code.writeAll_append]

/-- Statements that become the body of a block. -/
theorem enclose (hx : Writes writeLine [] x y) (head : Head) :
    Writes writeLine before
      (do
        Generator.write fun w => w.openBlock head.text
        x
        Generator.write Writer.closeBlock)
      (do return before ++ [.block head (← y)]) := by
  intro g
  have hrun : (do return before ++ [.block head (← y)] : StateT σ (Except Fault) _) g.pending =
      (y g.pending >>= fun r => .ok (before ++ [.block head r.1], r.2)) := rfl
  have hopen : Generator.write (fun w => w.openBlock head.text) g =
      .ok () { g with writer := g.writer.openBlock head.text } := rfl
  have hbody := hx { g with writer := g.writer.openBlock head.text }
  rw [hrun]
  cases hp : y g.pending with
  | error fault =>
    simp only [hp] at hbody
    exact Breaks.after hopen rfl hbody.bind
  | ok r =>
    simp only [hp] at hbody
    obtain ⟨code, hcode, hxg⟩ := hbody
    refine ⟨[.block head r.1], rfl, ?_⟩
    rw [bind_ok hopen, bind_ok hxg, hcode]
    rfl

/-- Statements that become the two arms of an optional value. -/
theorem encloseArms {y' : StateT σ (Except Fault) (List (Code L))}
    (hx : Writes writeLine [] x y) (hx' : Writes writeLine [] x' y') (name : Local)
    (source : Var) :
    Writes writeLine before
      (do
        Generator.write fun w => w.openBlock (Code.presentHead name source)
        x
        Generator.write fun w => w.reopen Code.otherwise
        x'
        Generator.write Writer.closeBlock)
      (do
        let body ← y
        let orElse ← y'
        return before ++ [.optional name source body orElse]) := by
  intro g
  have hrun : (do
        let body ← y
        let orElse ← y'
        return before ++ [.optional name source body orElse] : StateT σ (Except Fault) _)
          g.pending =
      (y g.pending >>= fun r => y' r.2 >>= fun r' =>
        .ok (before ++ [.optional name source r.1 r'.1], r'.2)) := rfl
  have hopen : Generator.write (fun w => w.openBlock (Code.presentHead name source)) g =
      .ok () { g with writer := g.writer.openBlock (Code.presentHead name source) } := rfl
  have hbody := hx { g with writer := g.writer.openBlock (Code.presentHead name source) }
  rw [hrun]
  cases hp : y g.pending with
  | error fault =>
    simp only [hp] at hbody
    exact Breaks.after hopen rfl hbody.bind
  | ok r =>
    simp only [hp] at hbody
    obtain ⟨code, hcode, hxg⟩ := hbody
    rw [List.nil_append] at hcode
    subst hcode
    have hreopen : Generator.write (fun w => w.reopen Code.otherwise) ⟨g.config,
        Code.writeAll writeLine (g.writer.openBlock (Code.presentHead name source)) r.1, r.2⟩ =
      .ok () ⟨g.config, (Code.writeAll writeLine
        (g.writer.openBlock (Code.presentHead name source)) r.1).reopen Code.otherwise, r.2⟩ := rfl
    have harm := hx' ⟨g.config, (Code.writeAll writeLine
      (g.writer.openBlock (Code.presentHead name source)) r.1).reopen Code.otherwise, r.2⟩
    rw [ok_bind]
    cases hp' : y' r.2 with
    | error fault =>
      simp only [hp'] at harm
      refine Breaks.after hopen rfl (Breaks.after hxg rfl ?_)
      exact Breaks.after hreopen rfl harm.bind
    | ok r' =>
      simp only [hp'] at harm
      obtain ⟨code', hcode', hxg'⟩ := harm
      refine ⟨[.optional name source r.1 r'.1], rfl, ?_⟩
      rw [bind_ok hopen, bind_ok hxg, bind_ok hreopen, bind_ok hxg', hcode']
      rfl

variable {flush : StateT σ (Except Fault) (List (Code L))}

theorem block (hflush : Shallow flush) (hx : Writes writeLine [] x y) (head : Head) :
    Writes writeLine [] (Generator.block (Generator.emit writeLine flush) head x) (do
      let before ← flush
      let inside ← y
      return before ++ [.block head (inside ++ (← flush))]) := by
  have hinside := hx.append (emit hflush)
  have h : Writes writeLine [] _ _ := (emit hflush).andThen fun _ => enclose hinside head
  simpa only [Generator.block, bind_assoc, pure_bind, List.nil_append] using h

theorem optional {y' : StateT σ (Except Fault) (List (Code L))} (hflush : Shallow flush)
    (hx : Writes writeLine [] x y) (hx' : Writes writeLine [] x' y') (name : Local)
    (source : Var) :
    Writes writeLine []
      (Generator.optional (Generator.emit writeLine flush) name source x x') (do
        let before ← flush
        let body ← y
        let after ← flush
        let orElse ← y'
        let last ← flush
        return before ++ [.optional name source (body ++ after) (orElse ++ last)]) := by
  have hbody := hx.append (emit hflush)
  have horElse := hx'.append (emit hflush)
  have h : Writes writeLine [] _ _ :=
    (emit hflush).andThen fun _ => encloseArms hbody horElse name source
  simpa only [Generator.optional, bind_assoc, pure_bind, List.nil_append] using h

end Writes

/-- A step gives a result that depends on the settings of the generator alone, or fails as they
say, and keeps the settings. -/
def Gives (x : Step σ α) (r : Config → Except Fault α) : Prop :=
  ∀ g : Generator σ, match r g.config with
    | .ok a => ∃ g', x g = .ok a g' ∧ g'.config = g.config
    | .error fault => Breaks x g fault

/-- A generator renders what it writes right after it begins a new text. -/
theorem gives_render {start : σ} {s : Shape} {writeImpl : Config → Step σ Unit}
    {r : Config → Except Fault String}
    (h : ∀ c, match r c with
      | .ok text => ∃ g', writeImpl c (.new c start) = .ok () g' ∧ g'.config = c ∧
          g'.writer.text = text
      | .error fault => Breaks (writeImpl c) (.new c start) fault) :
    Gives (render start s writeImpl) fun c =>
      if s.isPrintable then some <$> r c else .ok none := by
  intro g
  cases hs : s.isPrintable with
  | false => exact ⟨g, by simp only [render, hs]; rfl, rfl⟩
  | true =>
    have hrender : render start s writeImpl g =
        (writeImpl g.config >>= fun _ => some <$> finish) (.new g.config start) := by
      unfold render
      rw [hs]
      rfl
    have himpl := h g.config
    simp only [if_true]
    cases hr : r g.config with
    | error fault =>
      simp only [hr] at himpl
      obtain ⟨hfault, g', hg', hconfig⟩ := himpl
      exact ⟨hfault, g', hrender.trans (bind_error hg'), hconfig⟩
    | ok text =>
      simp only [hr] at himpl
      obtain ⟨g', hg', hconfig, rfl⟩ := himpl
      exact ⟨{ g' with writer := .new g'.config.indent }, hrender.trans (bind_ok hg'), hconfig⟩

end Generator

/-! ## Encoders -/

namespace Marshal

open Generator (Writes)

theorem shallow_flush : Shallow flush := by
  intro p
  rw [flush_eq]
  simp

theorem shallow_constant (c : Config) (note : Note) (bytes : Bytes) :
    Shallow (constant c note bytes) := by
  refine Shallow.bind (fun p h => nomatch h) fun _ => ?_
  split
  · exact .pure _
  · exact shallow_flush

theorem shallow_dynamic (l : Line) : Shallow (dynamic l) :=
  shallow_flush.bind fun _ => .pure _

theorem shallow_drawName : Shallow drawName := fun _ h => nomatch h

theorem shallow_tallyCode (layout : Layout) (v : Var) (isTop : Bool) :
    Shallow (tallyCode layout v isTop) := by
  refine shallow_flush.bind fun _ => ?_
  split
  · exact .pure _
  · exact shallow_drawName.bind fun _ => .pure _

theorem shallow_identification (c : Config) (layout : Layout) :
    Shallow (identification c layout) := by
  unfold identification
  split
  · exact shallow_constant _ _ _
  · exact .pure _

theorem shallow_scalarCode (info : BaseInfo) (v : Var) : Shallow (scalarCode info v) := by
  unfold scalarCode
  split <;> exact shallow_dynamic _

theorem writes_block {x : Generator.Step Pending Unit} {y : Emit Body}
    (h : Writes Line.write [] x y) (head : Head) :
    Writes Line.write [] (Generator.block (emit flush) head x) (block head y) :=
  h.block shallow_flush head

theorem writes_slot {value : Generator.Step Pending Unit} {code : Emit Body}
    (h : Writes Line.write [] value code) (c : Config) (layout : Layout) (t : Tally)
    (slot : Slot) :
    Writes Line.write [] (writeSlot c layout t slot value) (slotCode c layout t slot code) := by
  have hentry : Writes Line.write []
      (do emit (constant c (slotNote layout slot) slot.key); value)
      (entryCode c layout slot code) := (Writes.emit (shallow_constant _ _ _)).append h
  by_cases hm : layout.mode = .tuple
  · rw [slotCode_tuple hm]
    simp only [writeSlot, hm]
    exact h
  · rw [slotCode_entry hm]
    have hslot : writeSlot c layout t slot value = if slot.conditional then
        Generator.block (emit flush) (.unlessFlag t slot.index)
          (do emit (constant c (slotNote layout slot) slot.key); value)
        else (do emit (constant c (slotNote layout slot) slot.key); value) := by
      unfold writeSlot
      cases hmode : layout.mode with
      | tuple => exact absurd hmode hm
      | _ => rfl
    rw [hslot]
    split
    · exact writes_block hentry _
    · exact hentry

theorem writes_struct {slots : Layout → Tally → Generator.Step Pending Unit}
    {code : Layout → Tally → Emit Body} (h : ∀ layout t, Writes Line.write [] (slots layout t)
      (code layout t)) (c : Config) (info : StructInfo) (fields : List Field) (v : Var)
    (isTop : Bool) :
    Writes Line.write [] (writeStruct c info fields v isTop slots)
      (structCode c info fields v isTop code) := by
  refine .hold (.lift (plan_ne_tooDeep _ _ _)) fun layout => ?_
  have hdynamic (mode : Mode) : Writes Line.write []
      (do
        let t ← writeTally layout v isTop
        Generator.write fun w => Line.write w (.structHeader t (mode == .fast))
        emit (identification c layout)
        slots layout t)
      (do
        let r ← tallyCode layout v isTop
        let entry ← identification c layout
        return r.2 ++ [.line (.structHeader r.1 (mode == .fast))] ++ entry ++
          (← code layout r.1)) := by
    simp only [writeTally, bind_assoc, pure_bind]
    refine .hold (shallow_tallyCode _ _ _) fun r => ?_
    let header : Body := [.line (.structHeader r.1 (mode == .fast))]
    refine Writes.code r.2 (Writes.code header ?_)
    exact (Writes.emit (shallow_identification _ _)).andThen fun _ => .last (h _ _)
  cases hmode : layout.mode with
  | tuple => exact (Writes.emit (shallow_constant _ _ _)).append (h _ _)
  | static => exact (Writes.emit (shallow_constant _ _ _)).append (h _ _)
  | fast => exact hdynamic .fast
  | omitEmpty => exact hdynamic .omitEmpty

theorem writes_fields {c : Config} {fields : List Field}
    (h : ∀ f ∈ fields, ∀ v, Writes Line.write [] (writeShape c f.value v) (shapeCode c f.value v))
    (layout : Layout) (t : Tally) (v : Var) (index : Nat) :
    Writes Line.write [] (writeFields c layout t v fields index)
      (fieldsCode c layout t v fields index) := by
  induction fields generalizing index with
  | nil => exact .nothing []
  | cons f rest ih =>
    obtain ⟨info, value⟩ := f
    have hrest := ih (fun f hf => h f (List.mem_cons_of_mem _ hf)) (index + 1)
    unfold writeFields fieldsCode
    split
    · exact hrest
    · exact (writes_slot (h _ List.mem_cons_self _) _ _ _ _).append hrest

/-- The generator writes the code of a shape. -/
theorem writes_shape (c : Config) (s : Shape) (v : Var) :
    Writes Line.write [] (writeShape c s v) (shapeCode c s v) := by
  induction s generalizing v with
  | struct info fields ih =>
    exact writes_struct (fun layout t => writes_fields ih layout t v 0) c info fields v false
  | map key value ih =>
    refine .hold shallow_drawName fun number => ?_
    refine (Writes.emit (shallow_dynamic _)).append (writes_block ?_ _)
    exact (Writes.emit (shallow_dynamic _)).append (ih _)
  | slice element ih =>
    refine .hold shallow_drawName fun number => ?_
    exact (Writes.emit (shallow_dynamic _)).append (writes_block (ih _) _)
  | array info element ih =>
    refine .hold (.lift (resolvedSize_ne_tooDeep info)) fun size => ?_
    split
    · exact .emit (shallow_dynamic _)
    · refine (Writes.emit (shallow_constant _ _ _)).andThen fun header => ?_
      exact .hold shallow_drawName fun number => .last (writes_block (ih _) _)
  | ptr pointee ih =>
    refine .hold shallow_drawName fun number => ?_
    exact (ih _).optional shallow_flush (.emit (shallow_constant _ _ _)) _ v
  | base info => exact .emit (shallow_scalarCode _ _)

/-- The generator writes the code of an identity. -/
theorem writes_body (c : Config) (s : Shape) :
    Writes Line.write [] (writeBody c s) (identityCode c s) := by
  obtain ⟨info, fields, rfl⟩ | hw := s.struct_or
  · refine Writes.append ?_ (.emit shallow_flush)
    exact writes_struct (fun layout t =>
      writes_fields (fun f _ v => writes_shape c f.value v) layout t _ 0) c info fields _ true
  · rw [identityCode_wrapped c hw]
    have hbody : writeBody c s = (do writeShape c s (.receiver s); emit flush) := by
      cases s with
      | struct info fields => exact absurd rfl (hw info fields)
      | _ => rfl
    rw [hbody]
    exact (writes_shape c s _).append (.emit shallow_flush)

theorem companion_ne_tooDeep (c : Config) (s : Shape) : companion c s ≠ .error .tooDeep := by
  cases s with
  | struct info fields =>
    refine bind_ne_tooDeep (plan_ne_tooDeep _ _ _) fun layout => ?_
    split
    · exact fun h => nomatch h
    · exact fun h => nomatch h
  | _ => exact fun h => nomatch h

theorem writeImpl_of_error {c : Config} {s : Shape} {fault : Fault}
    (h : identityCode c s {} = .error fault) (name : String) :
    Generator.Breaks (writeImpl c name s) (.new c {}) fault := by
  have hopen : Generator.write (fun w => openImpl c name w) (.new c {}) =
      .ok () ⟨c, openImpl c name (.new c.indent), ({} : Pending)⟩ := rfl
  have hbody := writes_body c s ⟨c, openImpl c name (.new c.indent), {}⟩
  simp only [h] at hbody
  exact .after hopen rfl hbody.bind

/-- What is left to write once the statements of an encoder are written. -/
theorem writeImpl_of_ok {c : Config} {s : Shape} {code : Body} {p : Pending}
    (h : identityCode c s {} = .ok (code, p)) (name : String) (w : Writer) :
    writeImpl c name s ⟨c, w, {}⟩ =
      (do
        let side ← Generator.hold (companion c s : Except Fault (Option Body))
        Generator.write fun w => (writeCompanion c w side).closeBlock)
      ⟨c, closeFunction (Code.writeAll Line.write (openImpl c name w) code), p⟩ := by
  have hopen : Generator.write (fun w => openImpl c name w) ⟨c, w, {}⟩ =
      .ok () ⟨c, openImpl c name w, ({} : Pending)⟩ := rfl
  have hbody := writes_body c s ⟨c, openImpl c name w, {}⟩
  simp only [h] at hbody
  obtain ⟨rest, hrest, hbody⟩ := hbody
  rw [List.nil_append] at hrest
  subst hrest
  unfold writeImpl
  rw [Generator.bind_ok hopen, Generator.bind_ok hbody]
  rfl

/-- A generator in any state renders an identity as its code says. -/
theorem gives_generate (name : String) (s : Shape) :
    Generator.Gives (generate name s) fun c => render c name s := by
  have hrender : (fun c => render c name s) = fun c => if s.isPrintable then
      some <$> ((Prod.fst <$> identityCode c s {}) >>= fun code =>
        implText c name code <$> companion c s) else .ok none := by
    funext c
    unfold render
    cases hs : s.isPrintable with
    | false => rfl
    | true =>
      change (Prod.fst <$> identityCode c s {} >>= _) = _
      cases identityCode c s {} with
      | error fault => rfl
      | ok r => cases companion c s <;> rfl
  rw [hrender]
  refine Generator.gives_render fun c => ?_
  cases hcode : identityCode c s {} with
  | error fault => exact writeImpl_of_error hcode name
  | ok r =>
    have himpl := writeImpl_of_ok hcode name (.new c.indent)
    cases hside : companion c s with
    | error fault =>
      rw [hside] at himpl
      exact ⟨fun h => companion_ne_tooDeep c s (h ▸ hside), _, himpl, rfl⟩
    | ok side =>
      rw [hside] at himpl
      exact ⟨_, himpl, rfl, rfl⟩

end Marshal

/-! ## Size estimates -/

namespace Msgsize

open Generator (Writes)

theorem shallow_addKnown (n : Nat) : Shallow (addKnown n) :=
  Shallow.bind (fun _ h => nomatch h) fun _ =>
    (Shallow.lift (checkedCount_ne_tooDeep _)).bind fun _ _ h => nomatch h

theorem shallow_addTerm (t : Term) : Shallow (addTerm t) := fun _ h => nomatch h

theorem shallow_drawName : Shallow drawName := fun _ h => nomatch h

theorem shallow_flush : Shallow flush := by
  intro p
  rw [flush_eq]
  simp

theorem shallow_keyCode (number : Nat) (key : KeyKind) : Shallow (keyCode number key) := by
  cases key with
  | string => exact (shallow_addKnown _).bind fun _ => shallow_addTerm _
  | int64 => exact (shallow_addKnown _).bind fun _ => .pure _

theorem shallow_structHeader (layout : Layout) : Shallow (structHeader layout) := by
  unfold structHeader
  cases layout.fingerprint with
  | some entry =>
    cases layout.header with
    | _ => exact (shallow_addKnown _).bind fun _ => shallow_addKnown _
  | none =>
    cases layout.header with
    | _ => exact (shallow_addKnown _).bind fun _ => .pure _

theorem shallow_scalarCode (info : BaseInfo) (v : Var) : Shallow (scalarCode info v) := by
  unfold scalarCode
  split
  · exact (shallow_addKnown _).bind fun _ => .pure _
  · split
    · exact shallow_addTerm _
    · exact shallow_addTerm _
    · exact (shallow_addKnown _).bind fun _ => shallow_addTerm _
    · exact (shallow_addKnown _).bind fun _ => shallow_addTerm _

theorem shallow_resultCode : Shallow resultCode := by
  refine Shallow.bind (fun _ h => nomatch h) fun p => ?_
  split
  · exact .pure _
  · exact .pure _

theorem writes_block {x : Generator.Step Pending Unit} {y : Emit Body}
    (h : Writes Line.write [] x y) (head : Head) :
    Writes Line.write [] (Generator.block (emit flush) head x) (block head y) :=
  h.block shallow_flush head

/-- A size that is known beforehand writes nothing. -/
theorem writes_known (n : Nat) :
    Writes Line.write [] (Generator.hold (addKnown n)) (do addKnown n; return []) := by
  have h : Writes Line.write [] (Generator.hold (addKnown n) >>= fun _ => pure ())
      (do addKnown n; return []) := .hold (shallow_addKnown n) fun _ => .nothing []
  rwa [bind_pure_unit] at h

theorem writes_fields {c : Config} {fields : List Field}
    (h : ∀ f ∈ fields, ∀ v, Writes Line.write [] (writeShape c f.value v) (shapeCode c f.value v))
    (layout : Layout) (v : Var) (index : Nat) :
    Writes Line.write [] (writeFields c layout v fields index)
      (fieldsCode c layout v fields index) := by
  induction fields generalizing index with
  | nil => exact .nothing []
  | cons f rest ih =>
    obtain ⟨info, value⟩ := f
    have hrest := ih (fun f hf => h f (List.mem_cons_of_mem _ hf)) (index + 1)
    unfold writeFields fieldsCode
    split
    · exact hrest
    · exact .hold (shallow_addKnown _) fun _ => (h _ List.mem_cons_self _).append hrest

/-- The generator writes the code of a shape. -/
theorem writes_shape (c : Config) (s : Shape) (v : Var) :
    Writes Line.write [] (writeShape c s v) (shapeCode c s v) := by
  induction s generalizing v with
  | struct info fields ih =>
    refine .hold (.lift (plan_ne_tooDeep _ _ _)) fun layout => ?_
    exact .hold (shallow_structHeader layout) fun _ => writes_fields ih layout v 0
  | map key value ih =>
    refine .hold (shallow_addKnown _) fun _ => .hold shallow_drawName fun number => ?_
    exact writes_block ((Writes.emit (shallow_keyCode _ _)).append (ih _)) _
  | slice element ih =>
    refine .hold (shallow_addKnown _) fun _ => ?_
    refine .hold (.lift (staticSize_ne_tooDeep element)) fun size => ?_
    cases size with
    | some n => exact .emit (shallow_addTerm _)
    | none => exact .hold shallow_drawName fun number => writes_block (ih _) _
  | array info element ih =>
    refine .hold (.lift (resolvedSize_ne_tooDeep info)) fun _ => ?_
    refine .hold (.lift (staticSize_ne_tooDeep _)) fun size => ?_
    cases size with
    | some n => exact writes_known n
    | none =>
      exact .hold (shallow_addKnown _) fun _ => .hold shallow_drawName fun number =>
        writes_block (ih _) _
  | ptr pointee ih =>
    refine .hold (.lift (staticSize_ne_tooDeep pointee)) fun size => ?_
    cases size with
    | some n => exact writes_known _
    | none =>
      refine .hold shallow_drawName fun number => ?_
      have h := (ih (.ofLocal ⟨"zp", number⟩)).optional shallow_flush (writes_known Wire.nilSize)
        ⟨"zp", number⟩ v
      simpa only [emit, bind_assoc, pure_bind, List.nil_append] using h
  | base info => exact .emit (shallow_scalarCode _ _)

/-- The generator writes the code of an identity. -/
theorem writes_body (c : Config) (s : Shape) :
    Writes Line.write [] (do writeShape c s (.receiver s); emit resultCode) (identityCode c s) :=
  (writes_shape c s _).append (.emit shallow_resultCode)

theorem writeImpl_eq (c : Config) (name : String) (s : Shape) : writeImpl c name s = (do
    Generator.write fun w => openImpl c name w
    (do writeShape c s (.receiver s); emit resultCode)
    Generator.write fun w => w.closeBlock.closeBlock) := by
  simp only [writeImpl, bind_assoc]

theorem writeImpl_of_error {c : Config} {s : Shape} {fault : Fault}
    (h : identityCode c s {} = .error fault) (name : String) :
    Generator.Breaks (writeImpl c name s) (.new c {}) fault := by
  have hopen : Generator.write (fun w => openImpl c name w) (.new c {}) =
      .ok () ⟨c, openImpl c name (.new c.indent), ({} : Pending)⟩ := rfl
  have hbody := writes_body c s ⟨c, openImpl c name (.new c.indent), {}⟩
  simp only [h] at hbody
  rw [writeImpl_eq]
  exact .after hopen rfl hbody.bind

theorem writeImpl_of_ok {c : Config} {s : Shape} {code : Body} {p : Pending}
    (h : identityCode c s {} = .ok (code, p)) (name : String) (w : Writer) :
    writeImpl c name s ⟨c, w, {}⟩ = .ok ()
      ⟨c, (Code.writeAll Line.write (openImpl c name w) code).closeBlock.closeBlock, p⟩ := by
  have hopen : Generator.write (fun w => openImpl c name w) ⟨c, w, {}⟩ =
      .ok () ⟨c, openImpl c name w, ({} : Pending)⟩ := rfl
  have hbody := writes_body c s ⟨c, openImpl c name w, {}⟩
  simp only [h] at hbody
  obtain ⟨rest, hrest, hbody⟩ := hbody
  rw [List.nil_append] at hrest
  subst hrest
  rw [writeImpl_eq, Generator.bind_ok hopen, Generator.bind_ok hbody]
  rfl

/-- A generator in any state renders an identity as its code says. -/
theorem gives_generate (name : String) (s : Shape) :
    Generator.Gives (generate name s) fun c => render c name s := by
  have hrender : (fun c => render c name s) = fun c => if s.isPrintable then
      some <$> ((fun r => implText c name r.1) <$> identityCode c s {}) else .ok none := by
    funext c
    unfold render
    cases hs : s.isPrintable with
    | false => rfl
    | true =>
      change (Prod.fst <$> identityCode c s {} >>= _) = _
      cases identityCode c s {} <;> rfl
  rw [hrender]
  refine Generator.gives_render fun c => ?_
  cases hcode : identityCode c s {} with
  | error fault => exact writeImpl_of_error hcode name
  | ok r => exact ⟨_, writeImpl_of_ok hcode name (.new c.indent), rfl, rfl⟩

end Msgsize

/-! ## Generators in use -/

namespace CodeGenerator

/-- The settings of a generator. -/
def config : CodeGenerator → Config
  | marshal g => g.config
  | msgsize g => g.config

/-- The method of a generator. -/
def method : CodeGenerator → Method
  | marshal _ => .marshal
  | msgsize _ => .msgsize

theorem outcome_of_gives {σ : Type} {build : Generator σ → CodeGenerator}
    {x : Generator.Step σ (Option String)} {r : Config → Except Fault (Option String)}
    (h : Generator.Gives x r) (g : Generator σ) :
    ∃ g', outcome build (x g) = (r g.config, build g') ∧ g'.config = g.config := by
  have hg := h g
  cases hr : r g.config with
  | error fault =>
    simp only [hr] at hg
    obtain ⟨-, g', hx, hconfig⟩ := hg
    exact ⟨g', by rw [hx]; rfl, hconfig⟩
  | ok text =>
    simp only [hr] at hg
    obtain ⟨g', hx, hconfig⟩ := hg
    exact ⟨g', by rw [hx]; rfl, hconfig⟩

/-- A generator renders an identity by its method and its settings alone, whatever it rendered
before, and keeps both. -/
theorem render_eq (g : CodeGenerator) (name : String) (s : Shape) :
    ∃ g', g.render name s = (g.method.render g.config name s, g') ∧ g'.method = g.method ∧
      g'.config = g.config := by
  cases g with
  | marshal g =>
    obtain ⟨g', hrender, hconfig⟩ := outcome_of_gives (Marshal.gives_generate name s) g
    exact ⟨.marshal g', hrender, rfl, hconfig⟩
  | msgsize g =>
    obtain ⟨g', hrender, hconfig⟩ := outcome_of_gives (Msgsize.gives_generate name s) g
    exact ⟨.msgsize g', hrender, rfl, hconfig⟩

end CodeGenerator

theorem Generator.Gives.ne_tooDeep {σ α : Type} {x : Generator.Step σ α}
    {r : Config → Except Fault α} (h : Generator.Gives x r) (start : σ) (c : Config) :
    r c ≠ .error .tooDeep := by
  intro hr
  have hg := h (.new c start)
  simp only [Generator.new, hr] at hg
  exact hg.1 rfl

theorem Method.render_ne_tooDeep (m : Method) (c : Config) (name : String) (s : Shape) :
    m.render c name s ≠ .error .tooDeep := by
  cases m with
  | marshal => exact (Marshal.gives_generate name s).ne_tooDeep {} c
  | msgsize => exact (Msgsize.gives_generate name s).ne_tooDeep {} c

end Packwright
