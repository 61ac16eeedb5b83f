import Packwright.Proofs.Generation
import Packwright.Proofs.MarshalRun

/-
  What the steps of the encoder generator come to when their code is run. Bytes that are held back
  while code is generated count as appended already (`Runs.buffer`), so every step of the generator
  has a rule of its own, and the rules compose (`Runs.append`). The rule of a block (`runs_block`)
  is the only one that goes over the rounds of a loop.

  A run may declare flags and counts, but only under names that were drawn on the way; those of the
  code around it are as before. This is what a field needs when it reads its flag after the code of
  the fields before it.
-/

namespace Packwright

theorem Runtime.Lawful.append {rt : Runtime} (h : rt.Lawful) {k : Kind} {v : Value} {bytes : Bytes}
    (hv : OfKind k v) (hb : Encoder.scalar k v = .ok bytes) (o : Bytes) :
    rt.append k v o = some (o ++ bytes) := by
  cases hv with
  | bool b => exact Except.ok.inj hb ▸ h.bool b o
  | string s => exact Except.ok.inj hb ▸ h.string s o
  | bytes data => exact Except.ok.inj hb ▸ h.bytes data o
  | float32 bits => exact Except.ok.inj hb ▸ h.float32 bits o
  | float64 bits => exact Except.ok.inj hb ▸ h.float64 bits o
  | time secs nanos => exact Except.ok.inj hb ▸ h.time secs nanos o
  | extension type data => exact Except.ok.inj hb ▸ h.extension type data o
  | interface v => exact Except.ok.inj hb ▸ h.interface v o
  | @signed k n hs hr =>
    have hint : Encoder.scalar k (.int n) = .ok (Wire.int n) := by
      cases k <;> first | rfl | simp [Kind.isSigned] at hs
    obtain rfl := Except.ok.inj (hint.symm.trans hb)
    exact h.signed k n o hs hr
  | @unsigned k n hs hr =>
    have huint : Encoder.scalar k (.uint n) = .ok (Wire.uint n) := by
      cases k <;> first | rfl | simp [Kind.isUnsigned] at hs
    obtain rfl := Except.ok.inj (huint.symm.trans hb)
    exact h.unsigned k n o hs hr

/-- Integers are tested for zero, and not as floating point numbers. -/
theorem Emptiness.of_integer {info : BaseInfo}
    (h : info.kind.isSigned = true ∨ info.kind.isUnsigned = true) :
    Emptiness.of (.base info) = .zeroNumber ∧ Condition.isFloat (.base info) = false := by
  obtain ⟨kind, typeName, needsConversion⟩ := info
  cases kind <;> first | exact ⟨rfl, rfl⟩ | simp [Kind.isSigned, Kind.isUnsigned] at h

/-- A generated test says whether the value is empty by the rule for its shape. -/
theorem Condition.eval_of? {rt : Runtime} (hrt : rt.Lawful) {t : Table} {env : Env} {s : Shape}
    {v : Var} {w : Value} (hw : Conforms t s w) (hv : v.eval env = .ok ⟨s, w⟩) :
    match Condition.of? s v with
    | some test => test.eval rt env = .ok ((Emptiness.of s).holds w)
    | none => (Emptiness.of s).holds w = false := by
  have hplace := Var.eval_place hv
  have hoperand := Condition.eval_operand hrt.conversions hv s
  cases hw with
  | struct => rfl
  | array => rfl
  | byteArray => rfl
  | map =>
    simp [Condition.of?, Emptiness.of, Condition.eval, hoperand, ok_bind, Emptiness.holds, pure,
      Except.pure]
  | slice =>
    simp [Condition.of?, Emptiness.of, Condition.eval, hoperand, ok_bind, Emptiness.holds, pure,
      Except.pure]
  | absent => simp [Condition.of?, Emptiness.of, Condition.eval, hplace, ok_bind, Typed.pointee?,
      Emptiness.holds, pure, Except.pure]
  | present hne there =>
    have hfalse : Emptiness.absent.holds w = false := by
      cases w with
      | nil => exact absurd rfl hne
      | _ => rfl
    simp [Condition.of?, Emptiness.of, Condition.eval, hplace, ok_bind,
      Typed.pointee?_present hne, hfalse, pure, Except.pure]
  | identity hnamed => simp [Condition.of?, Emptiness.of, hnamed, Emptiness.holds]
  | @scalar info w hplain hholds =>
    generalize hk : info.kind = k at hholds
    cases hholds with
    | time secs nanos =>
      simp [Condition.of?, Emptiness.of, hk, Condition.eval, hplace, ok_bind, hrt.isZeroTime,
        Emptiness.holds, pure, Except.pure]
    | signed hs =>
      obtain ⟨hrule, hfloat⟩ := Emptiness.of_integer (hk ▸ Or.inl hs)
      simp [Condition.of?, hrule, hfloat, Condition.eval, hoperand, ok_bind, Emptiness.holds, pure,
        Except.pure]
    | unsigned hs =>
      obtain ⟨hrule, hfloat⟩ := Emptiness.of_integer (hk ▸ Or.inr hs)
      simp [Condition.of?, hrule, hfloat, Condition.eval, hoperand, ok_bind, Emptiness.holds, pure,
        Except.pure]
    | _ =>
      simp [Condition.of?, Emptiness.of, hk, Condition.eval, isFloat, Kind.isFloat, hoperand,
        ok_bind, Emptiness.holds, pure, Except.pure]

/-- The flags and counts of nested structs are numbered like local names; the others come before
all of them. -/
def Tally.level : Tally → Nat
  | outer | computed => 0
  | nested number => number

namespace Marshal

/-! ## Runs of generated code -/

/-- No name is declared that is still to be drawn. -/
def Fresh (p : Pending) (st : State) : Prop :=
  ∀ t : Tally, p.names.last < t.level → st.flags t = none ∧ st.count t = none

/-- Code that was generated between `p` and `p'` takes one state to another and appends bytes,
where what is held back counts as appended. It leaves the flags and counts below `kept` as they
are, and those that no name was drawn for. -/
structure Runs (m : Machine Line State) (env : Env) (kept : Nat) (p p' : Pending) (code : Body)
    (bytes : Bytes) (st st' : State) : Prop where
  exec : m.execAll code env st = .ok st'
  buffer : st'.buffer ++ p'.fusion.pending = st.buffer ++ p.fusion.pending ++ bytes
  names : p.names.last ≤ p'.names.last
  keeps : ∀ t : Tally, t.level < kept ∨ p'.names.last < t.level →
    st'.flags t = st.flags t ∧ st'.count t = st.count t

namespace Runs

variable {m : Machine Line State} {env : Env} {kept : Nat} {p p' p'' : Pending} {code code' : Body}
  {bytes bytes' : Bytes} {st st' st'' : State}

theorem fresh (h : Runs m env kept p p' code bytes st st') (hst : Fresh p st) : Fresh p' st' := by
  intro t ht
  rw [(h.keeps t (Or.inr ht)).1, (h.keeps t (Or.inr ht)).2]
  exact hst t (Nat.lt_of_le_of_lt h.names ht)

theorem append (h : Runs m env kept p p' code bytes st st')
    (h' : Runs m env (p'.names.last + 1) p' p'' code' bytes' st' st'')
    (hkept : kept ≤ p.names.last + 1) :
    Runs m env kept p p'' (code ++ code') (bytes ++ bytes') st st'' where
  exec := by rw [Machine.execAll_append, h.exec]; exact h'.exec
  buffer := by rw [h'.buffer, h.buffer, List.append_assoc]
  names := Nat.le_trans h.names h'.names
  keeps t ht := by
    have hle := h.names
    have hle' := h'.names
    have h₁ := h.keeps t (by omega)
    have h₂ := h'.keeps t (by omega)
    exact ⟨h₂.1.trans h₁.1, h₂.2.trans h₁.2⟩

theorem weaken (h : Runs m env kept p p' code bytes st st') {kept' : Nat} (hle : kept' ≤ kept) :
    Runs m env kept' p p' code bytes st st' :=
  ⟨h.exec, h.buffer, h.names, fun t ht => h.keeps t (ht.imp_left fun hlt => by omega)⟩

end Runs

/-- A state after another, with nothing changed but bytes appended to the buffer. -/
structure Wrote (bytes : Bytes) (st st' : State) : Prop where
  buffer : st'.buffer = st.buffer ++ bytes
  flags : st'.flags = st.flags
  count : st'.count = st.count

namespace Wrote

variable {m : Machine Line State} {env : Env} {p p' : Pending} {code : Body} {bytes bytes' : Bytes}
  {st st' st'' : State}

theorem write (st : State) (bytes : Bytes) : Wrote bytes st (st.write bytes) := ⟨rfl, rfl, rfl⟩

theorem trans (h : Wrote bytes st st') (h' : Wrote bytes' st' st'') :
    Wrote (bytes ++ bytes') st st'' where
  buffer := by rw [h'.buffer, h.buffer, List.append_assoc]
  flags := h'.flags.trans h.flags
  count := h'.count.trans h.count

theorem fresh (h : Wrote bytes st st') (hst : Fresh p st) : Fresh p st' := by
  intro t ht
  rw [h.flags, h.count]
  exact hst t ht

/-- Code that writes out what was held back, and more. -/
theorem runs (h : Wrote (p.fusion.pending ++ bytes) st st')
    (hexec : m.execAll code env st = .ok st') (hpending : p'.fusion.pending = [])
    (hnames : p.names.last ≤ p'.names.last) :
    Runs m env (p.names.last + 1) p p' code bytes st st' where
  exec := hexec
  buffer := by rw [h.buffer, hpending, List.append_nil, List.append_assoc]
  names := hnames
  keeps t _ := by rw [h.flags, h.count]; exact ⟨rfl, rfl⟩

/-- At the end of a block all names are as they were, since it can only have declared new ones. -/
theorem of_leave (hst : Fresh p st) (hp : p.fusion.pending = [])
    (h : Runs m env (p.names.last + 1) p p' code bytes st st')
    (hp' : p'.fusion.pending = []) : Wrote bytes st (st.leave st') where
  buffer := by
    have := h.buffer
    rwa [hp, hp', List.append_nil, List.append_nil] at this
  flags := by
    funext t
    by_cases ht : t.level < p.names.last + 1
    · simp only [State.leave, (h.keeps t (Or.inl ht)).1]
      cases hf : st.flags t <;> rfl
    · simp [State.leave, (hst t (by omega)).1]
  count := by
    funext t
    by_cases ht : t.level < p.names.last + 1
    · simp only [State.leave, (h.keeps t (Or.inl ht)).2]
      cases hf : st.count t <;> rfl
    · simp [State.leave, (hst t (by omega)).2]

end Wrote

section

variable {rt : Runtime} {call : String → Value → Bytes → Except Trap Bytes}
  {tally : Typed → List Bool → Except Trap (List Bool × Nat)} {env : Env} {c : Config}
  {p p' : Pending} {code : Body} {bytes : Bytes} {st : State}

variable (rt call tally env) in
theorem execAll_flush (h : flush p = .ok (code, p')) (st : State) :
    (machine rt call tally).execAll code env st = .ok (st.write p.fusion.pending) ∧
      p' = ⟨.empty, [], p.names⟩ := by
  rw [flush_eq] at h
  simp only [Except.ok.injEq, Prod.mk.injEq] at h
  obtain ⟨rfl, rfl⟩ := h
  refine ⟨?_, rfl⟩
  obtain ⟨⟨pending⟩, notes, names⟩ := p
  cases pending with
  | nil => simp [Machine.execAll, State.write]
  | cons b rest => cases notes <;> rfl

theorem runs_flush (h : flush p = .ok (code, p')) (st : State) :
    Runs (machine rt call tally) env (p.names.last + 1) p p' code [] st
      (st.write p.fusion.pending) := by
  obtain ⟨hexec, rfl⟩ := execAll_flush rt call tally env h st
  refine Wrote.runs ?_ hexec rfl (Nat.le_refl _)
  rw [List.append_nil]
  exact .write _ _

theorem runs_nothing (p : Pending) (st : State) :
    Runs (machine rt call tally) env (p.names.last + 1) p p [] [] st st :=
  ⟨rfl, (List.append_nil _).symm, Nat.le_refl _, fun _ _ => ⟨rfl, rfl⟩⟩

theorem runs_constant {note : Note} (h : constant c note bytes p = .ok (code, p')) (st : State) :
    ∃ st', Runs (machine rt call tally) env (p.names.last + 1) p p' code bytes st st' := by
  obtain ⟨u, q, hq, h⟩ := run_bind_eq_ok h
  obtain rfl := (Prod.mk.inj (Except.ok.inj hq)).2
  split at h
  · obtain ⟨rfl, rfl⟩ := run_pure_eq_ok h
    exact ⟨st, rfl, (List.append_assoc _ _ _).symm, Nat.le_refl _, fun _ _ => ⟨rfl, rfl⟩⟩
  · obtain ⟨hexec, rfl⟩ := execAll_flush rt call tally env h st
    exact ⟨_, (Wrote.write _ _).runs hexec rfl (Nat.le_refl _)⟩

/-- A line that writes bytes, whatever stands before them. -/
theorem runs_dynamic {l : Line} (h : dynamic l p = .ok (code, p')) (st : State)
    (hl : l.exec rt call tally env (st.write p.fusion.pending) =
      .ok ((st.write p.fusion.pending).write bytes)) :
    ∃ st', Runs (machine rt call tally) env (p.names.last + 1) p p' code bytes st st' := by
  obtain ⟨before, q, hq, h⟩ := run_bind_eq_ok h
  obtain ⟨rfl, rfl⟩ := run_pure_eq_ok h
  obtain ⟨hexec, rfl⟩ := execAll_flush rt call tally env hq st
  refine ⟨_, ((Wrote.write st _).trans (Wrote.write _ bytes)).runs ?_ rfl (Nat.le_refl _)⟩
  rw [Machine.execAll_append, hexec, ok_bind, Machine.execAll_singleton]
  exact hl

/-- The code inside a block ends with what is still held back. -/
theorem wrote_of_block {q : Pending} {body after : Body} {st' : State} (hst : Fresh p st)
    (hp : p.fusion.pending = [])
    (hrun : Runs (machine rt call tally) env (p.names.last + 1) p q body bytes st st')
    (hafter : flush q = .ok (after, p')) :
    ∃ st'', (machine rt call tally).execAll (body ++ after) env st = .ok st'' ∧
      Wrote bytes st (st.leave st'') := by
  have h := hrun.append (runs_flush hafter st') (Nat.le_refl _)
  rw [List.append_nil] at h
  refine ⟨_, h.exec, .of_leave hst hp h ?_⟩
  rw [(execAll_flush rt call tally env hafter st).2]
  rfl

/-- The rounds of a block, each of which writes the bytes of its element. -/
theorem foldlM_rounds {α : Type} {m : Machine Line State} {toEnv : α → Env}
    {f : α → Except Fault Bytes} {xs : List α} (hbytes : Format.gather f xs = .ok bytes)
    (hround : ∀ x ∈ xs, ∀ b, f x = .ok b → ∀ st, Fresh p st →
      ∃ st', m.execAll code (toEnv x) st = .ok st' ∧ Wrote b st (m.leave st st'))
    (hst : Fresh p st) :
    ∃ st', (xs.map toEnv).foldlM
      (fun st env => do return m.leave st (← m.execAll code env st)) st = .ok st' ∧
        Wrote bytes st st' := by
  induction xs generalizing bytes st with
  | nil =>
    obtain rfl := Except.ok.inj hbytes
    exact ⟨st, rfl, (List.append_nil _).symm, rfl, rfl⟩
  | cons x rest ih =>
    obtain ⟨b, bs, hb, hbs, rfl⟩ := Format.gather_cons_eq_ok hbytes
    obtain ⟨st₁, hexec, hwrote⟩ := hround x List.mem_cons_self b hb st hst
    obtain ⟨st₂, hrest, hwrote'⟩ :=
      ih hbs (fun y hy => hround y (List.mem_cons_of_mem _ hy)) (hwrote.fresh hst)
    refine ⟨st₂, ?_, hwrote.trans hwrote'⟩
    rw [List.map_cons, List.foldlM_cons, hexec]
    exact hrest

/-- A block whose body writes the bytes of one element in each round. -/
theorem runs_block {α : Type} {head : Head} {inside : Emit Body} (toEnv : α → Env)
    (f : α → Except Fault Bytes) (xs : List α)
    (h : block head inside p = .ok (code, p')) (hst : Fresh p st)
    (hrounds : head.rounds env (readFlag st) = .ok (xs.map toEnv))
    (hbytes : Format.gather f xs = .ok bytes)
    (hnames : Emits Pending.last True inside)
    (hrun : ∀ x ∈ xs, ∀ b, f x = .ok b → ∀ q q' body st, inside q = .ok (body, q') →
      Fresh q st →
      ∃ st', Runs (machine rt call tally) (toEnv x) (q.names.last + 1) q q' body b st st') :
    ∃ st', Runs (machine rt call tally) env (p.names.last + 1) p p' code bytes st st' := by
  obtain ⟨before, q, hq, h⟩ := run_bind_eq_ok h
  obtain ⟨body, q', hbody, h⟩ := run_bind_eq_ok h
  obtain ⟨after, q'', hq'', h⟩ := run_bind_eq_ok h
  obtain ⟨rfl, rfl⟩ := run_pure_eq_ok h
  obtain ⟨hexec, rfl⟩ := execAll_flush rt call tally env hq st
  have hempty := (execAll_flush rt call tally env hq'' st).2
  -- the body was generated once, with nothing held back at either end, so it serves every round
  have hround : ∀ x ∈ xs, ∀ b, f x = .ok b → ∀ st, Fresh ⟨.empty, [], p.names⟩ st →
      ∃ st', (machine rt call tally).execAll (body ++ after) (toEnv x) st = .ok st' ∧
        Wrote b st (State.leave st st') := by
    intro x hx b hb st hst
    obtain ⟨st₁, h₁⟩ := hrun x hx b hb _ q' body st hbody hst
    exact wrote_of_block hst rfl h₁ hq''
  have hwrote := Wrote.write st p.fusion.pending
  obtain ⟨st', hfold, hwrote'⟩ := foldlM_rounds hbytes hround (hwrote.fresh hst)
  refine ⟨st', (hwrote.trans hwrote').runs ?_ (by rw [hempty]; rfl) ?_⟩
  · rw [Machine.execAll_append, hexec, ok_bind, Machine.execAll_singleton, Machine.exec]
    change (head.rounds env (readFlag (st.write _)) >>= _) = _
    rw [show readFlag (st.write p.fusion.pending) = readFlag st from rfl, hrounds]
    exact hfold
  · rw [hempty]
    exact (hnames _ _ _ hbody).2

/-- A block that is skipped if a flag is set, and else run once. -/
theorem runs_unlessFlag {t : Tally} {index : Nat} {inside : Emit Body} {isSet : Bool}
    (h : block (.unlessFlag t index) inside p = .ok (code, p')) (hst : Fresh p st)
    (hread : readFlag st t index = .ok isSet) (hnames : Emits Pending.last True inside)
    (hskip : isSet = true → bytes = [])
    (hrun : isSet = false → ∀ q q' body st, inside q = .ok (body, q') → Fresh q st →
      ∃ st', Runs (machine rt call tally) env (q.names.last + 1) q q' body bytes st st') :
    ∃ st', Runs (machine rt call tally) env (p.names.last + 1) p p' code bytes st st' := by
  have hrounds : (Head.unlessFlag t index).rounds env (readFlag st) =
      .ok (if isSet then [] else [env]) := by
    rw [Head.rounds, hread]
    rfl
  cases isSet with
  | true =>
    obtain rfl := hskip rfl
    exact runs_block (fun _ : Unit => env) (fun _ => .ok []) [] h hst hrounds rfl hnames (by simp)
  | false =>
    refine runs_block (fun _ : Unit => env) (fun _ => .ok bytes) [()] h hst hrounds ?_ hnames ?_
    · simp [Format.gather, ok_bind, pure, Except.pure]
    · intro _ _ b hb
      obtain rfl := Except.ok.inj hb
      exact hrun rfl

end

end Marshal

end Packwright
