import Packwright.Proofs.Generation
import Packwright.Proofs.MsgsizeRun

/-
  Estimates are upper bounds. `Adds m env p p' code n st`: code that was generated from the
  pending number of `p` to that of `p'` is run in a state that matches `p`, and either overflows or
  makes the sum, together with the number held back, larger by at least `n`. The number held back
  is empty at every edge of a block, so rounds of a loop add up (`adds_block`) and both arms of an
  optional value end alike (`adds_optional`).

  `msgsize_ge_encode`: the estimate of a conforming value is at least as large as its encoding.
-/

namespace Packwright.Msgsize

/-- A result with a property, or an overflow. -/
def Within {α : Type} (Q : α → Prop) : Except Trap α → Prop
  | .ok a => Q a
  | .error trap => trap = .overflow

namespace Within

variable {α β : Type} {Q : α → Prop} {R : β → Prop}

theorem bind {x : Except Trap α} {f : α → Except Trap β} (h : Within Q x)
    (hf : ∀ a, Q a → Within R (f a)) : Within R (x >>= f) := by
  cases x with
  | error trap => exact h
  | ok a => exact hf a h

theorem mono {Q' : α → Prop} {x : Except Trap α} (h : Within Q x) (hQ : ∀ a, Q a → Q' a) :
    Within Q' x := by
  cases x with
  | error trap => exact h
  | ok a => exact hQ a h

theorem checked (rt : Runtime) (n : Nat) : Within (· = n) (rt.checked n) := by
  unfold Runtime.checked
  split
  · exact rfl
  · exact rfl

theorem cases {x : Except Trap α} (h : Within Q x) :
    x = .error .overflow ∨ ∃ a, x = .ok a ∧ Q a := by
  cases x with
  | error trap => exact Or.inl (congrArg _ h)
  | ok a => exact Or.inr ⟨a, rfl, h⟩

end Within

/-! ## What code adds to the sum -/

section

variable {rt : Runtime} {call : String → Value → Except Trap Nat} {m : Machine Line State}
  {env : Env} {p q p' : Pending} {code code' : Body} {n n' : Nat} {st : State}

/-- The sum and the number that is held back. -/
def total (p : Pending) (st : State) : Nat := st.sum.getD 0 + p.known

/-- The sum is declared when the generator takes it to be. -/
def Tracks (p : Pending) (st : State) : Prop := st.sum.isSome = p.declared

/-- Code adds at least `n`, counting what is held back, unless it overflows. -/
def Adds (m : Machine Line State) (env : Env) (p p' : Pending) (code : Body) (n : Nat)
    (st : State) : Prop :=
  Within (fun st' => Tracks p' st' ∧ total p st + n ≤ total p' st') (m.execAll code env st)

theorem Adds.append (h : Adds m env p q code n st)
    (h' : ∀ st', Tracks q st' → Adds m env q p' code' n' st') :
    Adds m env p p' (code ++ code') (n + n') st := by
  unfold Adds
  rw [Machine.execAll_append]
  refine Within.bind h fun st' hst' => (h' st' hst'.1).mono fun st'' hst'' => ⟨hst''.1, ?_⟩
  omega

theorem Adds.mono (h : Adds m env p p' code n st) (hn : n' ≤ n) : Adds m env p p' code n' st :=
  Within.mono h fun _ hst' => ⟨hst'.1, by omega⟩

theorem adds_nothing (hst : Tracks p st) : Adds m env p p [] 0 st :=
  ⟨hst, Nat.le_refl _⟩

theorem addKnown_eq_ok {u : Unit} (h : addKnown n p = .ok (u, p')) :
    p' = { p with known := p.known + n } := by
  obtain ⟨_, _, hget, h⟩ := run_bind_eq_ok h
  obtain ⟨rfl, rfl⟩ := Prod.mk.inj (Except.ok.inj hget)
  obtain ⟨known, q, hknown, h⟩ := run_bind_eq_ok h
  obtain ⟨hcount, rfl⟩ := run_lift_eq_ok hknown
  obtain rfl := (Prod.mk.inj (Except.ok.inj h)).2
  rw [checkedCount_eq_ok hcount]

theorem adds_known {u : Unit} (h : addKnown n p = .ok (u, p')) (hst : Tracks p st) :
    Adds m env p p' [] n st := by
  obtain rfl := addKnown_eq_ok h
  refine ⟨hst, ?_⟩
  simp only [total]
  omega

theorem drawName_eq_ok {number : Nat} (h : drawName p = .ok (number, p')) :
    p'.known = p.known ∧ p'.declared = p.declared := by
  obtain rfl := (Prod.mk.inj (Except.ok.inj h)).2
  exact ⟨rfl, rfl⟩

theorem adds_drawName {number : Nat} (h : drawName p = .ok (number, p')) (hst : Tracks p st) :
    Adds m env p p' [] 0 st := by
  obtain ⟨hknown, hdeclared⟩ := drawName_eq_ok h
  refine ⟨hst.trans hdeclared.symm, ?_⟩
  rw [total, total, hknown]
  exact Nat.le_refl _

/-- A line that declares the sum or adds to it. -/
theorem adds_line {s : Sum} (hs : Within (p.known + n ≤ ·) (s.eval rt call env))
    (hp' : p'.known = 0 ∧ p'.declared = true) (hst : Tracks p st) :
    Adds (machine rt call) env p p' [.line (if p.declared then .add s else .declare s)] n st := by
  unfold Adds
  rw [Machine.execAll_singleton]
  unfold Tracks at hst
  cases hd : p.declared with
  | true =>
    rw [hd] at hst
    obtain ⟨sum, hsum⟩ := Option.isSome_iff_exists.1 hst
    change Within _ (Line.exec rt call env st (.add s))
    simp only [Line.exec, hsum]
    refine hs.bind fun k hk => (Within.checked rt _).bind fun sum' hsum' => ?_
    subst hsum'
    refine ⟨by rw [Tracks, hp'.2]; rfl, ?_⟩
    simp only [total, hsum, Option.getD_some, hp'.1]
    omega
  | false =>
    rw [hd] at hst
    have hsum := Option.isSome_eq_false_iff.1 hst
    rw [Option.isNone_iff_eq_none] at hsum
    change Within _ (Line.exec rt call env st (.declare s))
    simp only [Line.exec, hsum]
    refine hs.bind fun k hk => ?_
    refine ⟨by rw [Tracks, hp'.2]; rfl, ?_⟩
    simp only [total, hsum, Option.getD_some, Option.getD_none, hp'.1]
    omega

theorem adds_term {t : Term} (h : addTerm t p = .ok (code, p'))
    (ht : Within (n ≤ ·) (t.eval rt call env)) (hst : Tracks p st) :
    Adds (machine rt call) env p p' code n st := by
  obtain ⟨rfl, rfl⟩ := Prod.mk.inj (Except.ok.inj h)
  refine adds_line (s := ⟨p.known, some t⟩) ?_ ⟨rfl, rfl⟩ hst
  refine ht.bind fun k hk => (Within.checked rt _).mono fun sum hsum => ?_
  subst hsum
  exact Nat.add_le_add_left hk p.known

theorem flush_eq_ok (h : flush p = .ok (code, p')) :
    p'.known = 0 ∧ p'.declared = true := by
  rw [flush_eq] at h
  obtain rfl := (Prod.mk.inj (Except.ok.inj h)).2
  exact ⟨rfl, rfl⟩

theorem adds_flush (h : flush p = .ok (code, p')) (hst : Tracks p st) :
    Adds (machine rt call) env p p' code 0 st := by
  have hp' := flush_eq_ok h
  rw [flush_eq] at h
  obtain ⟨rfl, rfl⟩ := Prod.mk.inj (Except.ok.inj h)
  have hsum : Within (p.known + 0 ≤ ·) ((Sum.mk p.known none).eval rt call env) :=
    (Within.checked rt p.known).mono fun k hk => Nat.le_of_eq hk.symm
  have hline := adds_line hsum hp' hst
  cases hd : p.declared with
  | false => rwa [hd] at hline
  | true =>
    rw [hd] at hline
    by_cases hk : 0 < p.known
    · simpa [hk] using hline
    · simp only [Bool.not_true, Bool.false_eq_true, if_false, if_neg hk]
      refine ⟨hst.trans hd, ?_⟩
      simp only [total]
      omega

/-! ## Blocks -/

/-- Nothing is held back, and the sum is declared. -/
def Flushed (p : Pending) : Prop := p.known = 0 ∧ p.declared = true

/-- The sum is declared and at least `n`. -/
def AtLeast (n : Nat) (st : State) : Prop := ∃ sum, st.sum = some sum ∧ n ≤ sum

theorem Flushed.atLeast (hp : Flushed p) (hst : Tracks p st) (hn : n ≤ total p st) :
    AtLeast n st := by
  rw [Tracks, hp.2] at hst
  obtain ⟨sum, hsum⟩ := Option.isSome_iff_exists.1 hst
  refine ⟨sum, hsum, ?_⟩
  rwa [total, hsum, hp.1] at hn

theorem AtLeast.tracks (h : AtLeast n st) (hp : Flushed p) : Tracks p st ∧ n ≤ total p st := by
  obtain ⟨sum, hsum, hn⟩ := h
  rw [Tracks, total, hsum, hp.1, hp.2]
  exact ⟨rfl, hn⟩

theorem AtLeast.leave {st' : State} (h : AtLeast n st) (h' : AtLeast n' st') :
    AtLeast n' (st.leave st') := by
  obtain ⟨sum, hsum, -⟩ := h
  obtain ⟨sum', hsum', hn'⟩ := h'
  refine ⟨sum', ?_, hn'⟩
  simp [State.leave, hsum, hsum']

/-- One round of a loop, or one arm of an optional value, ends with nothing held back. -/
theorem within_arm {q' : Pending} {a : Nat} {rest : Body} (hp : Flushed p)
    (hcode : Adds (machine rt call) env p q code n st) (hrest : flush q = .ok (rest, q'))
    (hst : AtLeast a st) :
    Within (AtLeast (a + n)) (do
      return (machine rt call).leave st
        (← (machine rt call).execAll (code ++ rest) env st)) := by
  have hq' : Flushed q' := flush_eq_ok hrest
  refine Within.bind (hcode.append fun st' => adds_flush hrest) fun st' hst' => ?_
  have ha := (hst.tracks hp).2
  exact hst.leave (hq'.atLeast hst'.1 (by omega))

theorem within_rounds {α : Type} (toEnv : α → Env) {f : α → Except Fault Bytes} {xs : List α}
    {bytes : Bytes} {a : Nat} (hbytes : Format.gather f xs = .ok bytes)
    (hround : ∀ x ∈ xs, ∀ b, f x = .ok b → ∀ a st, AtLeast a st →
      Within (AtLeast (a + b.length)) (do return m.leave st (← m.execAll code (toEnv x) st)))
    (hst : AtLeast a st) :
    Within (AtLeast (a + bytes.length)) ((xs.map toEnv).foldlM
      (fun st env => do return m.leave st (← m.execAll code env st)) st) := by
  induction xs generalizing bytes a st with
  | nil =>
    obtain rfl := Except.ok.inj hbytes
    exact hst
  | cons x rest ih =>
    obtain ⟨b, bs, hb, hbs, rfl⟩ := Format.gather_cons_eq_ok hbytes
    rw [List.map_cons, List.foldlM_cons, List.length_append, ← Nat.add_assoc]
    refine (hround x List.mem_cons_self b hb a st hst).bind fun st' hst' => ?_
    exact ih hbs (fun y hy => hround y (List.mem_cons_of_mem _ hy)) hst'

/-- The rounds of a loop add up. -/
theorem adds_block {α : Type} (toEnv : α → Env) {f : α → Except Fault Bytes} {xs : List α}
    {bytes : Bytes} {head : Head} {body : Emit Body} (h : block head body p = .ok (code, p'))
    (hst : Tracks p st) (hrounds : ∀ flag, head.rounds env flag = .ok (xs.map toEnv))
    (hbytes : Format.gather f xs = .ok bytes)
    (hbody : ∀ x ∈ xs, ∀ b, f x = .ok b → ∀ q q' code st, body q = .ok (code, q') →
      Tracks q st → Adds (machine rt call) (toEnv x) q q' code b.length st) :
    Adds (machine rt call) env p p' code bytes.length st := by
  obtain ⟨before, q, hbefore, h⟩ := run_bind_eq_ok h
  obtain ⟨inside, q', hinside, h⟩ := run_bind_eq_ok h
  obtain ⟨after, q'', hafter, h⟩ := run_bind_eq_ok h
  obtain ⟨rfl, rfl⟩ := run_pure_eq_ok h
  have hq : Flushed q := flush_eq_ok hbefore
  have hp' : Flushed p' := flush_eq_ok hafter
  rw [← Nat.zero_add bytes.length]
  refine (adds_flush hbefore hst).append fun st' hst' => ?_
  unfold Adds
  rw [Machine.execAll_singleton, Machine.exec, hrounds, ok_bind]
  have hstart : AtLeast (total q st') st' := hq.atLeast hst' (Nat.le_refl _)
  refine (within_rounds toEnv hbytes (fun x hx b hb a st hst => ?_) hstart).mono fun st'' hst'' =>
    hst''.tracks hp'
  exact within_arm hq (hbody x hx b hb q q' inside st hinside (hst.tracks hq).1) hafter hst

/-- Both arms of an optional value. -/
theorem adds_optional {name : Local} {v : Var} {x : Typed} {before value after absent : Body}
    {q₁ q₂ q₃ q₄ : Pending} {u : Unit} (hv : v.eval env = .ok x)
    (hbefore : flush p = .ok (before, q)) (hafter : flush q₁ = .ok (after, q₂))
    (hknown : addKnown Wire.nilSize q₂ = .ok (u, q₃)) (habsent : flush q₃ = .ok (absent, q₄))
    (hst : Tracks p st)
    (harm : (∃ y, x.pointee? = .ok (some y) ∧ ∀ st, Tracks q st →
        Adds (machine rt call) (env.bind name y) q q₁ value n st) ∨
      x.pointee? = .ok none ∧ n ≤ Wire.nilSize) :
    Adds (machine rt call) env p q₄ (before ++ [.optional name v (value ++ after) absent]) n
      st := by
  have hq : Flushed q := flush_eq_ok hbefore
  have hq₂ : Flushed q₂ := flush_eq_ok hafter
  have hq₄ : Flushed q₄ := flush_eq_ok habsent
  rw [← Nat.zero_add n]
  refine (adds_flush hbefore hst).append fun st' hst' => ?_
  unfold Adds
  have hstart : AtLeast (total q st') st' := hq.atLeast hst' (Nat.le_refl _)
  rw [Machine.execAll_singleton, Machine.exec, hv, ok_bind]
  obtain ⟨y, hy, hvalue⟩ | ⟨hy, hn⟩ := harm
  · rw [hy, ok_bind]
    exact (within_arm hq (hvalue st' hst') hafter hstart).mono fun st'' hst'' => hst''.tracks hq₄
  · rw [hy, ok_bind]
    have hnil : Adds (machine rt call) env q₂ q₃ [] n st' :=
      (adds_known hknown (hstart.tracks hq₂).1).mono hn
    exact (within_arm hq₂ hnil habsent hstart).mono fun st'' hst'' => hst''.tracks hq₄

/-! ## Shapes -/

/-- The code of a shape adds at least `n` for a value, whatever variable holds it. -/
def Estimates (m : Machine Line State) (c : Config) (s : Shape) (w : Value) (n : Nat) : Prop :=
  ∀ v env p p' code st, shapeCode c s v p = .ok (code, p') → v.eval env = .ok ⟨s, w⟩ →
    Tracks p st → Adds m env p p' code n st

variable {T : Table} {c : Config} {d : Nat} {bytes : Bytes} {w : Value}

theorem Estimates.mono {s : Shape} (h : Estimates m c s w n) (hn : n' ≤ n) :
    Estimates m c s w n' := fun v env p p' code st hcode hv hst =>
  (h v env p p' code st hcode hv hst).mono hn

theorem within_length {arg : Arg} {x : Typed} (harg : arg.eval rt.conversions env = .ok x)
    (hlength : lengthOf x.value = .ok n) :
    Within (n ≤ ·) ((Term.length arg).eval rt call env) := by
  simp only [Term.eval, harg, ok_bind, hlength]
  exact (Within.checked rt n).mono fun k hk => Nat.le_of_eq hk.symm

/-- A header of fixed size, then a length. -/
theorem adds_length {arg : Arg} {x : Typed} {size : Nat}
    (h : (do addKnown size; addTerm (.length arg) : Emit Body) p = .ok (code, p'))
    (harg : arg.eval rt.conversions env = .ok x) (hlength : lengthOf x.value = .ok n)
    (hst : Tracks p st) :
    Adds (machine rt call) env p p' code (size + n) st := by
  obtain ⟨_, q, hknown, h⟩ := run_bind_eq_ok h
  exact (adds_known hknown hst).append fun st' hst' =>
    adds_term h (within_length harg hlength) hst'

theorem estimates_scalar {info : BaseInfo} (hrt : rt.Lawful)
    (hplain : info.kind ≠ .identifier) (hw : OfKind info.kind w)
    (hbytes : Encoder.scalar info.kind w = .ok bytes) :
    Estimates (machine rt call) c (.base info) w bytes.length := by
  intro v env p p' code st h hv hst
  rw [shapeCode, scalarCode] at h
  have harg : (if info.needsConversion then info.arg v else .place v.place).eval
      rt.conversions env = .ok ⟨.base info, w⟩ := by
    split
    · exact Arg.eval_arg hrt.conversions hv info
    · exact Var.eval_place hv
  cases hsize : info.kind.fixedSize? with
  | some size =>
    rw [hsize] at h
    obtain ⟨_, q, hknown, h⟩ := run_bind_eq_ok h
    obtain ⟨rfl, rfl⟩ := run_pure_eq_ok h
    exact (adds_known hknown hst).mono (Encoder.length_scalar_le hw hbytes hsize)
  | none =>
    rw [hsize] at h
    generalize hk : info.kind = k at hw hbytes hsize hplain h
    cases hw with
    | string s =>
      obtain rfl := Except.ok.inj hbytes
      exact (adds_length h harg rfl hst).mono (Wire.length_str_le s)
    | bytes data =>
      obtain rfl := Except.ok.inj hbytes
      exact (adds_length h harg rfl hst).mono (Wire.length_bin_le data)
    | extension type data =>
      obtain rfl := Except.ok.inj hbytes
      exact (adds_length h (Var.eval_place hv) rfl hst).mono (Wire.length_ext_le type data)
    | interface w =>
      obtain rfl := Except.ok.inj hbytes
      refine adds_term h ?_ hst
      simp only [Term.eval, hv, ok_bind]
      exact (Within.checked rt _).mono fun k hk => Nat.le_trans (hrt.guess w) (Nat.le_of_eq hk.symm)
    | signed hs _ => cases k <;> simp [Kind.isSigned, Kind.fixedSize?] at hs hsize
    | unsigned hs _ => cases k <;> simp [Kind.isUnsigned, Kind.fixedSize?] at hs hsize
    | _ => cases hsize

theorem estimates_identity {info : BaseInfo} (hnamed : info.kind = .identifier)
    (hcall : Within (n ≤ ·) (call (info.typeName.getD "") w)) :
    Estimates (machine rt call) c (.base info) w n := by
  intro v env p p' code st h hv hst
  rw [shapeCode, scalarCode, hnamed] at h
  refine adds_term h ?_ hst
  simp only [Term.eval, Var.eval_place hv, ok_bind, hnamed, if_true]
  exact hcall

theorem estimates_map {key : KeyKind} {value : Shape} {entries : List (Value × Value)}
    {part : Shape → Value → Except Fault Bytes} (hkeys : ∀ e ∈ entries, OfKeyKind key e.1)
    (hpart : ∀ e ∈ entries, ∀ b, part value e.2 = .ok b →
      Estimates (machine rt call) c value e.2 b.length)
    (hbytes : Format.gather (fun e => do
      return (← Encoder.mapKey key e.1) ++ (← part value e.2)) entries = .ok bytes) :
    Estimates (machine rt call) c (.map key value) (.map entries)
      (Wire.mapHeaderSize + bytes.length) := by
  intro v env p p' code st h hv hst
  obtain ⟨_, q, hknown, h⟩ := run_bind_eq_ok h
  obtain ⟨number, q', hnumber, h⟩ := run_bind_eq_ok h
  let toEnv (e : Value × Value) : Env :=
    (env.bind (keyLocal number) ⟨.ofKind key.kind, e.1⟩).bind (valueLocal number) ⟨value, e.2⟩
  have hrounds : ∀ flag, (Head.entries number v.place).rounds env flag =
      .ok (entries.map toEnv) := by
    intro flag
    simp only [Head.rounds, Var.eval_place hv, ok_bind, Typed.entries, List.map_map]
    rfl
  have hheader : Adds (machine rt call) env p q' [] (Wire.mapHeaderSize + 0) st :=
    (adds_known hknown hst).append fun st' => adds_drawName hnumber
  refine hheader.append fun st' hst' => adds_block toEnv h hst' hrounds hbytes ?_
  intro e he b hb q q' code st h hst
  obtain ⟨kb, hkb, hb⟩ := bind_eq_ok hb
  obtain ⟨vb, hvb, hb⟩ := bind_eq_ok hb
  obtain rfl := Except.ok.inj hb
  obtain ⟨before, r, hbefore, h⟩ := run_bind_eq_ok h
  obtain ⟨here, r', hhere, h⟩ := run_bind_eq_ok h
  obtain ⟨rfl, rfl⟩ := run_pure_eq_ok h
  have hlocal : (Place.bound (keyLocal number)).eval (toEnv e) = .ok ⟨.ofKind key.kind, e.1⟩ := by
    simp [Place.eval, toEnv, Env.bind, keyLocal, valueLocal]
  have hkey : Adds (machine rt call) (toEnv e) q r before kb.length st := by
    obtain ⟨k, x⟩ := e
    cases hkeys _ he with
    | string s =>
      obtain rfl := Except.ok.inj hkb
      exact (adds_length hbefore hlocal rfl hst).mono (Wire.length_str_le s)
    | int64 m =>
      obtain rfl := Except.ok.inj hkb
      obtain ⟨_, q, hknown, hbefore⟩ := run_bind_eq_ok hbefore
      obtain ⟨rfl, rfl⟩ := run_pure_eq_ok hbefore
      exact (adds_known hknown hst).mono
        (Encoder.length_int_le (k := .int64) rfl trivial rfl)
  rw [List.length_append]
  exact hkey.append fun st' hst' =>
    hpart e he vb hvb _ _ r q' here st' hhere (Var.eval_ofLocal _ _ _) hst'

/-- A loop over the elements of a list, behind its header. -/
theorem adds_items {element : Shape} {items : List Value} {v : Var} {x : Typed}
    {part : Shape → Value → Except Fault Bytes} (hv : v.eval env = .ok x)
    (hitems : x.items = .ok (items.map fun w => ⟨element, w⟩))
    (hpart : ∀ w ∈ items, ∀ b, part element w = .ok b →
      Estimates (machine rt call) c element w b.length)
    (hbytes : Format.gather (part element) items = .ok bytes)
    (h : (do
      let item : Local := ⟨"za", ← drawName⟩
      block (.items item v.place) (shapeCode c element (.ofLocal item)) : Emit Body) p =
        .ok (code, p')) (hst : Tracks p st) :
    Adds (machine rt call) env p p' code bytes.length st := by
  obtain ⟨number, q, hnumber, h⟩ := run_bind_eq_ok h
  have hrounds : ∀ flag, (Head.items ⟨"za", number⟩ v.place).rounds env flag =
      .ok (items.map fun w => env.bind ⟨"za", number⟩ ⟨element, w⟩) := by
    intro flag
    simp only [Head.rounds, Var.eval_place hv, ok_bind, hitems, List.map_map]
    rfl
  have hname : Adds (machine rt call) env p q [] 0 st := adds_drawName hnumber hst
  rw [← Nat.zero_add bytes.length]
  refine hname.append fun st' hst' => adds_block _ h hst' hrounds hbytes ?_
  exact fun w hw b hb q q' code st h hst =>
    hpart w hw b hb _ _ q q' code st h (Var.eval_ofLocal _ _ _) hst

theorem estimates_slice {element : Shape} {items : List Value}
    {part : Shape → Value → Except Fault Bytes}
    (hpart : ∀ w ∈ items, ∀ b, part element w = .ok b →
      Estimates (machine rt call) c element w b.length)
    (hstatic : ∀ size, element.staticSize = .ok (some size) →
      bytes.length ≤ items.length * size)
    (hbytes : Format.gather (part element) items = .ok bytes) :
    Estimates (machine rt call) c (.slice element) (.array items)
      (Wire.arrayHeaderSize + bytes.length) := by
  intro v env p p' code st h hv hst
  obtain ⟨_, q, hknown, h⟩ := run_bind_eq_ok h
  obtain ⟨size, q', hsize, h⟩ := run_bind_eq_ok h
  obtain ⟨hlift, rfl⟩ := run_lift_eq_ok hsize
  have hheader : Adds (machine rt call) env p q' [] Wire.arrayHeaderSize st :=
    adds_known hknown hst
  refine hheader.append fun st' hst' => ?_
  cases size with
  | none => exact adds_items hv rfl hpart hbytes h hst'
  | some size =>
    refine adds_term h ?_ hst'
    simp only [Term.eval, Var.eval_place hv, ok_bind, Typed.items, List.length_map]
    exact (Within.checked rt _).mono fun k hk => by rw [hk]; exact hstatic size hlift

theorem estimates_array {info : ArrayInfo} {element : Shape} {items : List Value}
    {part : Shape → Value → Except Fault Bytes}
    (hpart : ∀ w ∈ items, ∀ b, part element w = .ok b →
      Estimates (machine rt call) c element w b.length)
    (hstatic : ∀ size, (Shape.array info element).staticSize = .ok (some size) →
      n + bytes.length ≤ size)
    (hn : n ≤ Wire.arrayHeaderSize) (hbytes : Format.gather (part element) items = .ok bytes) :
    Estimates (machine rt call) c (.array info element) (.array items) (n + bytes.length) := by
  intro v env p p' code st h hv hst
  obtain ⟨_, q₀, hresolved, hrest⟩ := run_bind_eq_ok h
  obtain ⟨-, rfl⟩ := run_lift_eq_ok hresolved
  obtain ⟨size, q, hsize, h⟩ := run_bind_eq_ok hrest
  obtain ⟨hlift, rfl⟩ := run_lift_eq_ok hsize
  cases size with
  | none =>
    obtain ⟨_, q', hknown, h⟩ := run_bind_eq_ok h
    have hheader : Adds (machine rt call) env q q' [] n st := (adds_known hknown hst).mono hn
    exact hheader.append fun st' => adds_items hv rfl hpart hbytes h
  | some size =>
    obtain ⟨_, q', hknown, h⟩ := run_bind_eq_ok h
    obtain ⟨rfl, rfl⟩ := run_pure_eq_ok h
    exact (adds_known hknown hst).mono (hstatic size hlift)

/-- The size of a byte array is always known beforehand. -/
theorem estimates_byteArray {info : ArrayInfo} {element : Shape} {data : Bytes}
    (hnarrow : element.isSingleByte = true) (hlen : info.resolved = some data.length) :
    Estimates (machine rt call) c (.array info element) w (Wire.bin data).length := by
  intro v env p p' code st h hv hst
  obtain ⟨_, q₀, hresolved, hrest⟩ := run_bind_eq_ok h
  obtain ⟨-, rfl⟩ := run_lift_eq_ok hresolved
  obtain ⟨size, q, hsize, h⟩ := run_bind_eq_ok hrest
  obtain ⟨hlift, rfl⟩ := run_lift_eq_ok hsize
  cases size with
  | none =>
    simp only [Shape.staticSize, hlen, hnarrow, if_true] at hlift
    cases hc : checkedCount (Wire.binHeaderSize + data.length) <;> rw [hc] at hlift <;> cases hlift
  | some size =>
    obtain ⟨_, q', hknown, h⟩ := run_bind_eq_ok h
    obtain ⟨rfl, rfl⟩ := run_pure_eq_ok h
    refine (adds_known hknown hst).mono ?_
    obtain ⟨n, hn, ⟨-, rfl⟩ | ⟨hwide, -⟩⟩ := Shape.staticSize_array hlift
    · obtain rfl := Option.some.inj (hlen.symm.trans hn)
      exact Wire.length_bin_le data
    · rw [hnarrow] at hwide
      cases hwide

theorem estimates_ptr {pointee : Shape} (hnil : w = .nil → n ≤ Wire.nilSize)
    (hpart : w ≠ .nil → Estimates (machine rt call) c pointee w n)
    (hstatic : w ≠ .nil → ∀ size, pointee.staticSize = .ok (some size) → n ≤ size) :
    Estimates (machine rt call) c (.ptr pointee) w n := by
  intro v env p p' code st h hv hst
  obtain ⟨size, q, hsize, h⟩ := run_bind_eq_ok h
  obtain ⟨hlift, rfl⟩ := run_lift_eq_ok hsize
  cases size with
  | some size =>
    obtain ⟨_, q', hknown, h⟩ := run_bind_eq_ok h
    obtain ⟨rfl, rfl⟩ := run_pure_eq_ok h
    refine (adds_known hknown hst).mono ?_
    by_cases hw : w = .nil
    · exact Nat.le_trans (hnil hw) (Nat.le_max_right _ _)
    · exact Nat.le_trans (hstatic hw size hlift) (Nat.le_max_left _ _)
  | none =>
    obtain ⟨number, q₀, hnumber, h⟩ := run_bind_eq_ok h
    obtain ⟨before, q₁, hbefore, h⟩ := run_bind_eq_ok h
    obtain ⟨value, q₂, hvalue, h⟩ := run_bind_eq_ok h
    obtain ⟨after, q₃, hafter, h⟩ := run_bind_eq_ok h
    obtain ⟨_, q₄, hknown, h⟩ := run_bind_eq_ok h
    obtain ⟨absent, q₅, habsent, h⟩ := run_bind_eq_ok h
    obtain ⟨rfl, rfl⟩ := run_pure_eq_ok h
    have hname : Adds (machine rt call) env q q₀ [] 0 st := adds_drawName hnumber hst
    rw [← Nat.zero_add n]
    refine hname.append fun st' hst' => ?_
    refine adds_optional hv hbefore hafter hknown habsent hst' ?_
    by_cases hw : w = .nil
    · subst hw
      exact Or.inr ⟨rfl, hnil rfl⟩
    · exact Or.inl ⟨_, Typed.pointee?_present hw, fun st hst =>
        hpart hw _ _ q₁ q₂ value st hvalue (Var.eval_ofLocal _ _ _) hst⟩

/-! ## Structs -/

variable {info : StructInfo} {fields : List Field} {values : List (String × Value)}

theorem structHeader_eq (layout : Layout) : structHeader layout = (do
    addKnown (layout.header.elim Wire.mapHeaderSize List.length)
    match layout.fingerprint with
    | some entry => addKnown entry.length
    | none => pure ()) := by
  unfold structHeader
  cases layout.header <;> rfl

theorem adds_structHeader {start : Bytes} {u : Unit} {P : Protocol}
    (hs : (Shape.struct info fields).IsFinalNode)
    (hstart : Encoder.structStart P info fields values = .ok start)
    (h : structHeader (Format.layout P info fields) p = .ok (u, p')) (hst : Tracks p st) :
    Adds m env p p' [] start.length st := by
  rw [Encoder.structStart_eq hs] at hstart
  rw [structHeader_eq] at h
  unfold Format.layout at h
  generalize Layout.modeOf info P = mode at hstart h
  obtain ⟨_, q, hheader, hrest⟩ := run_bind_eq_ok h
  cases mode with
  | tuple =>
    obtain rfl := Except.ok.inj hstart
    obtain ⟨-, rfl⟩ := run_pure_eq_ok hrest
    exact adds_known hheader hst
  | static =>
    obtain rfl := Except.ok.inj hstart
    obtain ⟨-, rfl⟩ := run_pure_eq_ok hrest
    exact adds_known hheader hst
  | omitEmpty =>
    obtain rfl := Except.ok.inj hstart
    obtain ⟨-, rfl⟩ := run_pure_eq_ok hrest
    exact (adds_known hheader hst).mono (Wire.length_mapHeader_le _)
  | fast =>
    simp only at hstart
    split at hstart
    · obtain rfl := Except.ok.inj hstart
      rw [List.length_append]
      have hmap (n : UInt32) : Adds m env p q [] (Wire.mapHeader n).length st :=
        (adds_known hheader hst).mono (Wire.length_mapHeader_le n)
      exact (hmap _).append fun st' => adds_known hrest
    · cases hstart

/-- What is added for a field covers its entry, whether the entry is there or not. -/
theorem adds_field {f : Field} {index : Nat} {v : Var} {b : Bytes} {P : Protocol}
    {part : Shape → Value → Except Fault Bytes}
    (hv : (v.field f.info.name).eval env = .ok ⟨f.value, w⟩)
    (hb : Encoder.fieldBytes P part info (f, w) = .ok b)
    (hpart : ∀ b, part f.value w = .ok b → Estimates m c f.value w b.length)
    (hempty : (Emptiness.of f.value).holds w = true → Estimates m c f.value w 0)
    {u : Unit} (hknown : addKnown (Layout.slotOf (Layout.modeOf info P)
      (Layout.usesIntKeys info (Layout.modeOf info P)) f index).key.length p = .ok (u, q))
    (h : shapeCode c f.value (v.field f.info.name) q = .ok (code, p')) (hst : Tracks p st) :
    Adds m env p p' code b.length st := by
  have hkey : Adds m env p q [] _ st := adds_known hknown hst
  cases ht : info.asTuple with
  | true =>
    rw [Format.slotOf_tuple ht] at hkey
    rw [Encoder.fieldBytes_tuple ht] at hb
    rw [← Nat.zero_add b.length]
    exact hkey.append fun st' => hpart b hb _ _ q p' code st' h hv
  | false =>
    rw [Format.slotOf_key ht] at hkey
    rw [Encoder.fieldBytes_map ht] at hb
    simp only at hb
    split at hb
    · obtain ⟨b, hpb, hb⟩ := bind_eq_ok hb
      obtain rfl := Except.ok.inj hb
      rw [List.length_append]
      exact hkey.append fun st' => hpart b hpb _ _ q p' code st' h hv
    · rename_i hom
      have homits : Format.omits P f w = true := by simpa using hom
      have hnothing := hempty (Bool.and_eq_true_iff.1 homits).2
      obtain rfl := Except.ok.inj hb
      exact (hkey.append fun st' => hnothing _ _ q p' code st' h hv).mono (Nat.zero_le _)

/-- What is added for the fields of a struct, from a given place in the declaration on, covers
their entries. -/
theorem adds_fieldsCode {v : Var} {part : Shape → Value → Except Fault Bytes}
    (hv : v.eval env = .ok ⟨.struct info fields, .record values⟩)
    (hw : Conforms T (.struct info fields) (.record values))
    (hpart : ∀ f ∈ Format.liveFields fields, ∀ b, part f.value (Encoder.heldFor values f) = .ok b →
      Estimates m c f.value (Encoder.heldFor values f) b.length)
    (hempty : ∀ f ∈ Format.liveFields fields,
      (Emptiness.of f.value).holds (Encoder.heldFor values f) = true →
        Estimates m c f.value (Encoder.heldFor values f) 0)
    {rest : List Field} {index : Nat} (hsub : Format.liveFields rest ⊆ Format.liveFields fields)
    (hbytes : Format.gather (Encoder.fieldBytes c.protocol part info)
      (Encoder.heldFields rest values) = .ok bytes)
    (h : fieldsCode c (Format.layout c.protocol info fields) v rest index p = .ok (code, p'))
    (hst : Tracks p st) : Adds m env p p' code bytes.length st := by
  induction rest generalizing index bytes code p st with
  | nil =>
    obtain ⟨rfl, rfl⟩ := run_pure_eq_ok h
    obtain rfl := Except.ok.inj hbytes
    exact adds_nothing hst
  | cons f rest ih =>
    obtain ⟨finfo, value⟩ := f
    rw [Encoder.heldFields, Format.liveFields_cons, Field.info_mk] at hbytes
    rw [Format.liveFields_cons, Field.info_mk] at hsub
    unfold fieldsCode at h
    cases hskip : finfo.skip with
    | true =>
      simp only [hskip, if_true] at h hbytes hsub
      exact ih hsub hbytes h hst
    | false =>
      simp only [hskip, Bool.false_eq_true, if_false, List.map_cons] at h hbytes hsub
      obtain ⟨_, q, hknown, h⟩ := run_bind_eq_ok h
      obtain ⟨here, q', hhere, h⟩ := run_bind_eq_ok h
      obtain ⟨more, q'', hmore, h⟩ := run_bind_eq_ok h
      obtain ⟨rfl, rfl⟩ := run_pure_eq_ok h
      obtain ⟨b, bs, hb, hbs, rfl⟩ := Format.gather_cons_eq_ok hbytes
      have hf := hsub List.mem_cons_self
      have hfield := (Var.eval_field_of_conforms hw hv hf).1
      rw [List.length_append]
      exact (adds_field hfield hb (hpart _ hf) (hempty _ hf) hknown hhere hst).append
        fun st' => ih (fun g hg => hsub (List.mem_cons_of_mem _ hg)) hbs hmore

/-- The code of a struct: its start, and all of its live fields. -/
theorem estimates_struct {part : Shape → Value → Except Fault Bytes}
    (hs : (Shape.struct info fields).IsFinalNode)
    (hw : Conforms T (.struct info fields) (.record values))
    (hpart : ∀ f ∈ Format.liveFields fields, ∀ b, part f.value (Encoder.heldFor values f) = .ok b →
      Estimates m c f.value (Encoder.heldFor values f) b.length)
    (hempty : ∀ f ∈ Format.liveFields fields,
      (Emptiness.of f.value).holds (Encoder.heldFor values f) = true →
        Estimates m c f.value (Encoder.heldFor values f) 0)
    (hbytes : Format.structNode c.protocol part info fields values = .ok bytes) :
    Estimates m c (.struct info fields) (.record values) bytes.length := by
  intro v env p p' code st h hv hst
  obtain ⟨layout, q, hplan, hrest⟩ := run_bind_eq_ok h
  obtain ⟨hlift, rfl⟩ := run_lift_eq_ok hplan
  obtain ⟨hkeys, rfl⟩ := Format.checkKeys_of_plan hs hlift
  obtain ⟨_, q', hheader, hfields⟩ := run_bind_eq_ok hrest
  have hheld : ∀ f ∈ Format.liveFields fields, (Assoc.get? values f.info.name).isSome :=
    fun f hf => by rw [(Var.eval_field_of_conforms hw hv hf).2.2]; rfl
  rw [Encoder.structNode_eq hkeys (Format.mapM_fieldValue hheld)] at hbytes
  obtain ⟨start, hstart, hbytes⟩ := bind_eq_ok hbytes
  obtain ⟨entries, hentries, hbytes⟩ := bind_eq_ok hbytes
  obtain rfl := Except.ok.inj hbytes
  rw [List.length_append]
  exact (adds_structHeader hs hstart hheader hst).append fun st' =>
    adds_fieldsCode hv hw hpart hempty (List.Subset.refl _) hentries hfields

/-! ## Whole estimates -/

/-- Everything below a position is covered: the code of its parts, and the call of the identity
that it names. -/
structure PartsCovered (T : Table) (c : Config) (call : String → Value → Except Trap Nat)
    (rt : Runtime) (d : Nat) (s : Shape) (w : Value) : Prop where
  code : ∀ s' w', Format.Child T s w s' w' → ∀ b, Format.bytes T c.protocol d s' w' = .ok b →
    Estimates (machine rt call) c s' w' b.length
  call : ∀ info target, s = .base info → info.kind = .identifier →
    T.get? (info.typeName.getD "") = some target →
    ∀ b, Format.bytes T c.protocol d target w = .ok b →
      Within (b.length ≤ ·) (call (info.typeName.getD "") w)

/-- One level of a shape that is not a struct. -/
theorem estimates_plain {s : Shape} (hrt : rt.Lawful)
    (h : PartsCovered T c call rt d s w) (hw : Conforms T s w)
    (hs : ∀ info fields, s ≠ .struct info fields)
    (hbytes : Format.bytes T c.protocol (d + 1) s w = .ok bytes) :
    Estimates (machine rt call) c s w bytes.length := by
  have hstatic : ∀ size, s.staticSize = .ok (some size) → bytes.length ≤ size := fun size hsize =>
    Format.length_le_of_staticSize hsize hw hbytes
  rw [Format.bytes] at hbytes
  cases hw with
  | struct _ _ _ => exact absurd rfl (hs _ _)
  | map hkeys heach =>
    obtain ⟨rest, hrest, hbytes⟩ := bind_eq_ok hbytes
    obtain rfl := Except.ok.inj hbytes
    refine (estimates_map hkeys (fun e he b hb => h.code _ _ (.entry he) b hb) hrest).mono ?_
    rw [List.length_append]
    exact Nat.add_le_add_right (Wire.length_mapHeader_le _) _
  | slice heach =>
    obtain ⟨rest, hrest, hbytes⟩ := bind_eq_ok hbytes
    obtain rfl := Except.ok.inj hbytes
    refine (estimates_slice (fun x hx b hb => h.code _ _ (.element hx) b hb)
      (fun size hsize => ?_) hrest).mono ?_
    · exact Format.length_gather_le hrest fun x hx b hb =>
        Format.length_le_of_staticSize hsize (heach x hx) hb
    · rw [List.length_append]
      exact Nat.add_le_add_right (Wire.length_arrayHeader_le _) _
  | array hwide hsize heach =>
    rw [Format.node_array hwide hsize] at hbytes
    obtain ⟨rest, hrest, hbytes⟩ := bind_eq_ok hbytes
    obtain rfl := Except.ok.inj hbytes
    rw [List.length_append] at hstatic ⊢
    exact estimates_array (fun x hx b hb => h.code _ _ (.item hx) b hb) hstatic
      (Wire.length_arrayHeader_le _) hrest
  | byteArray hnarrow hsize hgiven =>
    rw [Format.node_byteArray hnarrow hsize hgiven] at hbytes
    obtain rfl := Except.ok.inj hbytes
    exact estimates_byteArray hnarrow hsize
  | absent =>
    obtain rfl := Except.ok.inj hbytes
    exact estimates_ptr (fun _ => Nat.le_refl _) (fun hne => absurd rfl hne)
      fun hne => absurd rfl hne
  | present hne there =>
    rw [Format.node_ptr hne] at hbytes
    exact estimates_ptr (fun hnil => absurd hnil hne)
      (fun _ => h.code _ _ (.pointee hne) bytes hbytes)
      fun _ size hsize => Format.length_le_of_staticSize hsize there hbytes
  | identity hnamed hfound there =>
    simp only [Format.node, if_pos hnamed, hfound] at hbytes
    exact estimates_identity hnamed (h.call _ _ rfl hnamed hfound bytes hbytes)
  | scalar hplain hholds =>
    simp only [Format.node, if_neg hplain] at hbytes
    exact estimates_scalar hrt hplain hholds hbytes

/-- The code of an empty value runs, though nothing may be written for it. -/
theorem estimates_of_isEmpty {s : Shape} (hrt : rt.Lawful)
    (hw : Conforms T s w) (hempty : (Emptiness.of s).holds w = true) :
    Estimates (machine rt call) c s w 0 := by
  obtain ⟨hchild, hbytes⟩ := Format.bytes_of_isEmpty (p := c.protocol) hw hempty
  obtain ⟨b, hb⟩ := hbytes 0
  refine (estimates_plain hrt (d := 0) ⟨fun s' w' hc => absurd hc (hchild s' w'), ?_⟩ hw ?_
    hb).mono (Nat.zero_le _)
  · rintro info target rfl hnamed hfound
    exact absurd (.target hnamed hfound) (hchild target w)
  · rintro info fields rfl
    cases hw
    cases hempty

/-- One level of a shape: if its parts are covered then so is the shape. -/
theorem estimates_node {s : Shape} (hrt : rt.Lawful)
    (h : PartsCovered T c call rt d s w) (hw : Conforms T s w) (hs : s.IsFinal)
    (hbytes : Format.bytes T c.protocol (d + 1) s w = .ok bytes) :
    Estimates (machine rt call) c s w bytes.length := by
  by_cases hstruct : ∀ info fields, s ≠ .struct info fields
  · exact estimates_plain hrt h hw hstruct hbytes
  · simp only [Classical.not_forall, Classical.not_not] at hstruct
    obtain ⟨info, fields, rfl⟩ := hstruct
    have hfield : ∀ values f, w = .record values → f ∈ Format.liveFields fields →
        Conforms T f.value (Encoder.heldFor values f) ∧
          Assoc.get? values f.info.name = some (Encoder.heldFor values f) := by
      rintro values f rfl hf
      exact (Var.eval_field_of_conforms hw (Var.eval_receiver ⟨_, _⟩) hf).2
    cases hw with
    | @struct _ _ values hnodup hheld heach =>
      exact estimates_struct hs.here (.struct hnodup hheld heach)
        (fun f hf b hb => h.code _ _ (.field hf (hfield values f rfl hf).2) b hb)
        (fun f hf hempty => estimates_of_isEmpty hrt (hfield values f rfl hf).1 hempty) hbytes

/-- The end of an estimate gives what has been added up, and what is still held back. -/
theorem within_identityCode {s : Shape} (hs : Estimates (machine rt call) c s w n)
    (h : identityCode c s {} = .ok (code, p)) :
    Within (fun st => ∃ k, st.result = some k ∧ n ≤ k)
      ((machine rt call).execAll code ⟨⟨s, w⟩, fun _ => none⟩ {}) := by
  obtain ⟨here, q, hhere, h⟩ := run_bind_eq_ok h
  obtain ⟨last, _, hlast, h⟩ := run_bind_eq_ok h
  obtain ⟨rfl, rfl⟩ := run_pure_eq_ok h
  obtain ⟨_, _, hget, hlast⟩ := run_bind_eq_ok hlast
  obtain ⟨rfl, rfl⟩ := Prod.mk.inj (Except.ok.inj hget)
  have hadds := hs _ _ {} q here {} hhere (Var.eval_receiver ⟨s, w⟩) rfl
  have hstart : total {} {} = 0 := rfl
  cases hd : q.declared with
  | true =>
    rw [if_pos hd] at hlast
    obtain ⟨rfl, rfl⟩ := run_pure_eq_ok hlast
    have hflush := flush_eq p
    rw [hd] at hflush
    rw [← List.append_assoc, Machine.execAll_append]
    refine Within.bind (hadds.append fun st' => adds_flush hflush) fun st' hst' => ?_
    have hflushed : Flushed { p with known := 0, declared := true } := ⟨rfl, rfl⟩
    obtain ⟨sum, hsum, hn⟩ := hflushed.atLeast hst'.1 (Nat.le_refl _)
    rw [Machine.execAll_singleton]
    change Within _ (Line.exec rt call ⟨⟨s, w⟩, fun _ => none⟩ st' .giveSum)
    simp only [Line.exec, hsum]
    exact ⟨sum, rfl, by omega⟩
  | false =>
    rw [if_neg (by simp [hd])] at hlast
    obtain ⟨rfl, rfl⟩ := run_pure_eq_ok hlast
    rw [Machine.execAll_append]
    refine Within.bind hadds fun st' hst' => ?_
    have hnone : st'.sum = none := by
      have htracks := hst'.1
      rw [Tracks, hd] at htracks
      simpa using htracks
    rw [Machine.execAll_singleton]
    refine (Within.checked rt p.known).bind fun k hk => ⟨k, rfl, ?_⟩
    have htotal := hst'.2
    rw [hstart, total, hnone, Option.getD_none] at htotal
    omega

/-- The estimate of an identity of a shape that is covered. -/
theorem msgsize_of_estimates {s : Shape} {depth : Nat} {name : String}
    (hs : Estimates (machine rt (msgsize rt T c depth)) c s w n) (hget : T.get? name = some s)
    (hcode : code? c s = some code) :
    Within (n ≤ ·) (msgsize rt T c (depth + 1) name w) := by
  obtain ⟨p, hp⟩ := exists_of_run' (eq_ok_of_toOption hcode)
  simp only [msgsize, hget, hcode]
  refine (within_identityCode hs hp).bind fun st hst => ?_
  obtain ⟨k, hk, hn⟩ := hst
  rw [hk]
  exact hn

/-- Code was generated for every identity. -/
def Generated (T : Table) (c : Config) : Prop :=
  ∀ name s, T.get? name = some s → ∃ code, code? c s = some code

/-- To the depth of the format, the code of a shape covers the bytes of the format, and so do the
estimates of the identities of that shape. -/
theorem estimates_of_bytes {s : Shape} {depth : Nat}
    (hrt : rt.Lawful) (hT : T.IsFinal) (hcode : Generated T c)
    (hbytes : Format.bytes T c.protocol d s w = .ok bytes) (hw : Conforms T s w) (hs : s.IsFinal)
    (hdepth : d ≤ depth) :
    Estimates (machine rt (msgsize rt T c depth)) c s w bytes.length ∧
      ∀ name, T.get? name = some s →
        Within (bytes.length ≤ ·) (msgsize rt T c (depth + 1) name w) := by
  induction d generalizing s w bytes depth with
  | zero => cases hbytes
  | succ d ih =>
    have hcovered : PartsCovered T c (msgsize rt T c depth) rt d s w := by
      have hchild : ∀ s' w', Format.Child T s w s' w' → ∀ b,
          Format.bytes T c.protocol d s' w' = .ok b → ∀ depth', d ≤ depth' → _ :=
        fun s' w' hc b hb depth' hd => ih hb (hw.child hc) (Encoder.isFinal_child hT hs hc) hd
      refine ⟨fun s' w' hc b hb => (hchild s' w' hc b hb depth (by omega)).1, ?_⟩
      rintro info target rfl hnamed hfound b hb
      -- the call is one of the calls that the depth allows
      obtain ⟨k, rfl⟩ : ∃ k, depth = k + 1 := ⟨depth - 1, by omega⟩
      exact (hchild target w (.target hnamed hfound) b hb k (by omega)).2 _ hfound
    have hnode := estimates_node hrt hcovered hw hs hbytes
    refine ⟨hnode, fun name hget => ?_⟩
    obtain ⟨code, hc⟩ := hcode name s hget
    exact msgsize_of_estimates hnode hget hc

end

/-- Over a finalized table for which every estimate can be rendered, the generated estimate of a
conforming value is at least the length of its encoding. The run needs no more calls inside each
other than the encoder has levels, and ends in no trap but an overflow of a machine word. Only a
struct with too many fields for a header has no encoding. -/
theorem msgsize_ge_encode (rt : Runtime) (hrt : rt.Lawful)
    (d : Directives) (t : Table) (c : Config)
    (hrender : ∀ name s, ((Pipeline.standard d).finalizeAll t).get? name = some s →
      ∃ text, render c name s = .ok text)
    (name : String) (s : Shape) (hget : ((Pipeline.standard d).finalizeAll t).get? name = some s)
    (v : Value) (hv : Conforms ((Pipeline.standard d).finalizeAll t) s v) :
    (Format.Crowded ((Pipeline.standard d).finalizeAll t) s v ∧
      (Encoder.mk ((Pipeline.standard d).finalizeAll t) c.protocol c.fuse).encode name v =
        .error .overflow) ∨
    ∃ bytes, (Encoder.mk ((Pipeline.standard d).finalizeAll t) c.protocol c.fuse).encode name v =
        .ok bytes ∧
      ∀ depth >
          (Encoder.mk ((Pipeline.standard d).finalizeAll t) c.protocol c.fuse).depthBudget s v,
        msgsize rt ((Pipeline.standard d).finalizeAll t) c depth name v = .error .overflow ∨
        ∃ size, msgsize rt ((Pipeline.standard d).finalizeAll t) c depth name v = .ok size ∧
          bytes.length ≤ size := by
  let e := Encoder.mk ((Pipeline.standard d).finalizeAll t) c.protocol c.fuse
  have ht : e.table.IsFinal := Table.isFinal_finalizeAll d t
  have hbody : ∀ name s, e.table.get? name = some s → ∃ code, body c s = .ok code := by
    intro name s hs
    exact exists_of_isOk ((exists_render (ht name s hs).2).1 (hrender name s hs))
  have hkeyed : e.table.Keyed e.protocol := fun name s hs =>
    let ⟨_, hcode⟩ := hbody name s hs
    keyed_of_body (ht name s hs).1 hcode
  have hgenerated : Generated e.table c := fun name s hs =>
    let ⟨code, hcode⟩ := hbody name s hs
    ⟨code, by simp [code?, (ht name s hs).2, hcode, Except.toOption]⟩
  have hfinal := (ht name s hget).1
  have hencode := e.encode_eq_encodeShape hget v
  rcases Encoder.encodeShape_of_conforms e ht hkeyed hv hfinal (hkeyed name s hget) with
    ⟨hcrowd, hoverflow⟩ | ⟨bytes, hbytes⟩
  · exact Or.inl ⟨hcrowd, hencode.trans hoverflow⟩
  · refine Or.inr ⟨bytes, hencode.trans hbytes, fun depth hdepth => ?_⟩
    rw [Encoder.encodeShape_eq_bytes e ht hfinal] at hbytes
    obtain ⟨k, rfl⟩ : ∃ k, depth = k + 1 := ⟨depth - 1, by omega⟩
    have hk : e.depthBudget s v ≤ k := Nat.le_of_lt_succ hdepth
    exact ((estimates_of_bytes hrt ht hgenerated hbytes hv hfinal hk).2 name hget).cases

/-- A parcel with its weights, a note, something of any kind, and perhaps a parcel inside. -/
def parcel : Shape := .struct { name := "Parcel" } [
  .mk { zid := 0, name := "weights" } (.slice (.ofKind .uint16)),
  .mk { zid := 1, name := "note" } (.ptr (.ofKind .string)),
  .mk { zid := 2, name := "extra" } (.ofKind .interface),
  .mk { zid := 3, name := "inner" } (.ptr (.ident "Parcel"))]

def parcelTable : Table := Table.ofList [("Parcel", parcel)]

/-- One weight has the largest size of its kind, and the note is missing. -/
def parcelValue : Value := .record [
  ("weights", .array [.uint 65535, .uint 7]), ("note", .nil),
  ("extra", .map [(.str "k", .uint 1)]),
  ("inner", .record [("weights", .array []), ("note", .str "hi"), ("extra", .nil),
    ("inner", .nil)])]

theorem conforms_parcelValue : Conforms parcelTable parcel parcelValue := by
  have hparcel (weights : List UInt64) (note extra inner : Value)
      (hweights : ∀ n ∈ weights, 0 ≤ (n.toNat : Int) ∧ (n.toNat : Int) ≤ 65535)
      (hnote : Conforms parcelTable (.ptr (.ofKind .string)) note)
      (hinner : Conforms parcelTable (.ptr (.ident "Parcel")) inner) :
      Conforms parcelTable parcel (.record [("weights", .array (weights.map .uint)),
        ("note", note), ("extra", extra), ("inner", inner)]) := by
    refine .ofFields (by decide) (List.forall_mem_cons.2 ⟨⟨_, rfl, .slice fun v hv => ?_⟩,
      List.forall_mem_cons.2 ⟨⟨_, rfl, hnote⟩, List.forall_mem_cons.2
        ⟨⟨_, rfl, .scalar (by decide) (.interface extra)⟩,
          List.forall_mem_singleton.2 ⟨_, rfl, hinner⟩⟩⟩⟩)
    obtain ⟨n, hn, rfl⟩ := List.mem_map.1 hv
    exact .scalar (by decide) (.unsigned rfl (hweights n hn))
  refine hparcel [65535, 7] _ _ _ (by simp) .absent (.present (by simp) (.identity rfl rfl ?_))
  exact hparcel [] _ _ _ (by simp) (.present (by simp) (.scalar (by decide) (.string "hi"))) .absent

/-- Guesses are exact, and sizes have 64 bits. -/
def exactRuntime : Runtime := ⟨fun v => v.dynamic.length, UInt64.size, .trivial⟩

theorem lawful_exactRuntime : exactRuntime.Lawful :=
  ⟨fun _ => Nat.le_refl _, Conversions.lawful_trivial⟩

/-- The encoding has 38 bytes, and the estimate is 66. -/
theorem msgsize_parcel : Conforms parcelTable parcel parcelValue ∧
    ∃ bytes,
      (Encoder.mk ((Pipeline.standard {}).finalizeAll parcelTable) .fast true).encode "Parcel"
        parcelValue = .ok bytes ∧ bytes.length = 38 ∧
      msgsize exactRuntime ((Pipeline.standard {}).finalizeAll parcelTable) {} 100 "Parcel"
        parcelValue = .ok 66 ∧ bytes.length ≤ 66 := by
  have hrender : ∀ name s, parcelTable.get? name = some s →
      ∃ text, render {} name s = .ok text := by
    intro name s hs
    change (if "Parcel" = name then some parcel else none) = some s at hs
    split at hs
    · obtain rfl := Option.some.inj hs
      exact (exists_render rfl).2 (by decide +kernel)
    · cases hs
  have hbytes : (Encoder.mk parcelTable .fast true).encode "Parcel" parcelValue = .ok _ := rfl
  have hvalue : msgsize exactRuntime parcelTable {} 100 "Parcel" parcelValue = .ok 66 :=
    ok_of_toOption (by decide +kernel)
  refine ⟨conforms_parcelValue, ?_⟩
  obtain ⟨-, hoverflow⟩ | ⟨bytes, hencode, hsize⟩ := msgsize_ge_encode exactRuntime
    lawful_exactRuntime {} parcelTable {} hrender "Parcel" parcel rfl parcelValue
    conforms_parcelValue
  · cases hbytes.symm.trans hoverflow
  · refine ⟨bytes, hencode, ?_, hvalue, ?_⟩
    · obtain rfl := Except.ok.inj (hbytes.symm.trans hencode)
      rfl
    · rcases hsize 100 (by decide +kernel) with hover | ⟨size, hmsgsize, hle⟩
      · cases hvalue.symm.trans hover
      · obtain rfl := Except.ok.inj (hvalue.symm.trans hmsgsize)
        exact hle

end Packwright.Msgsize
