import Packwright.Proofs.Isolation
import Packwright.Proofs.Verdict

/-
  When the generation of a batch leaves the range of its counts. Live fields are counted from data
  that finalization computes, so that count never does; the numbers of a size estimate may, since
  the sizes of arrays are whatever was declared. As long as the sum of the numbers that go into an
  estimate fits a machine word, so does every number on the way (`Msgsize.render_ne_overflow`), and
  for a shape of fixed size that is also necessary. A batch stops exactly when the code of one of
  its identities does (`generateFile_eq_overflow_iff`).
-/

namespace Packwright

namespace Msgsize

/-! ## Steps that add a bounded number -/

/-- If there is room for `n` more, a step holds back at most `n` more, and no count is too large. -/
def Fits {α : Type} (n : Nat) (x : Emit α) : Prop :=
  ∀ p, p.known + n < countLimit →
    match x p with
    | .ok y => y.2.known ≤ p.known + n
    | .error fault => fault ≠ .overflow

namespace Fits

variable {α β : Type} {m n : Nat} {x : Emit α} {f : α → Emit β}

theorem mono (h : Fits n x) (hn : n ≤ m) : Fits m x := by
  intro p hp
  have hx := h p (by omega)
  cases hrun : x p with
  | error fault =>
    rw [hrun] at hx
    exact hx
  | ok y =>
    rw [hrun] at hx
    have : y.2.known ≤ p.known + n := hx
    dsimp only
    omega

/-- A step that succeeds. -/
theorem ofRun (h : ∀ p, p.known + n < countLimit → ∃ y, x p = .ok y ∧ y.2.known ≤ p.known + n) :
    Fits n x := by
  intro p hp
  obtain ⟨y, hy, hle⟩ := h p hp
  rw [hy]
  exact hle

/-- A step that always succeeds and holds back no more than before. -/
theorem ofOk (h : ∀ p, ∃ y, x p = .ok y ∧ y.2.known ≤ p.known) : Fits 0 x :=
  ofRun fun p _ => h p

theorem pure (a : α) : Fits 0 (pure a : Emit α) := ofOk fun p => ⟨(a, p), rfl, Nat.le_refl _⟩

theorem bind (hx : Fits m x) (hf : ∀ a, Fits n (f a)) : Fits (m + n) (x >>= f) := by
  intro p hp
  have hxp := hx p (by omega)
  change match (x p >>= fun y => f y.1 y.2) with
    | .ok y => y.2.known ≤ p.known + (m + n)
    | .error fault => fault ≠ .overflow
  cases hrun : x p with
  | error fault =>
    rw [hrun] at hxp
    exact hxp
  | ok y =>
    rw [hrun] at hxp
    have hy : y.2.known ≤ p.known + m := hxp
    have hfy := hf y.1 y.2 (by omega)
    rw [ok_bind]
    cases hrun' : f y.1 y.2 with
    | error fault =>
      rw [hrun'] at hfy
      exact hfy
    | ok z =>
      rw [hrun'] at hfy
      have hz : z.2.known ≤ y.2.known + n := hfy
      dsimp only
      omega

/-- A step that adds nothing comes first. -/
theorem after (hx : Fits 0 x) (hf : ∀ a, Fits n (f a)) : Fits n (x >>= f) :=
  (hx.bind hf).mono (by omega)

/-- A step that adds nothing comes last. -/
theorem before (hx : Fits n x) (hf : ∀ a, Fits 0 (f a)) : Fits n (x >>= f) := hx.bind hf

theorem known {y : Except Fault α} (hy : y ≠ .error .overflow)
    (hf : ∀ a, y = .ok a → Fits n (f a)) : Fits n ((liftM y : Emit α) >>= f) := by
  intro p hp
  cases y with
  | error fault => exact fun hfault => hy (congrArg Except.error hfault)
  | ok a => exact hf a rfl p hp

end Fits

theorem fits_flush : Fits 0 flush :=
  .ofOk fun p => ⟨_, flush_eq p, Nat.zero_le _⟩

theorem fits_drawName : Fits 0 drawName := .ofOk fun _ => ⟨_, rfl, Nat.le_refl _⟩

theorem fits_addTerm (t : Term) : Fits 0 (addTerm t) :=
  .ofOk fun _ => ⟨_, rfl, Nat.zero_le _⟩

theorem fits_addKnown (n : Nat) : Fits n (addKnown n) := by
  refine .ofRun fun p hp => ⟨((), { p with known := p.known + n }), ?_, Nat.le_refl _⟩
  change ((checkedCount (p.known + n) >>= fun known => .ok (known, p)) >>= fun y =>
    .ok ((), { p with known := y.1 })) = _
  rw [checkedCount, if_pos hp]
  rfl

theorem fits_block {n : Nat} (head : Head) {body : Emit Body} (h : Fits n body) :
    Fits n (block head body) :=
  fits_flush.after fun _ => h.before fun _ => fits_flush.after fun _ => .pure _

theorem fits_keyCode (number : Nat) (key : KeyKind) :
    Fits key.knownSize (keyCode number key) := by
  cases key with
  | string => exact (fits_addKnown _).before fun _ => fits_addTerm _
  | int64 => exact (fits_addKnown _).before fun _ => .pure _

theorem fits_structHeader (layout : Layout) : Fits layout.headSize (structHeader layout) := by
  unfold structHeader Layout.headSize
  cases layout.fingerprint with
  | some entry =>
    cases layout.header with
    | _ => exact (fits_addKnown _).bind fun _ => fits_addKnown _
  | none =>
    cases layout.header with
    | _ => exact (fits_addKnown _).before fun _ => .pure _

theorem fits_scalarCode (info : BaseInfo) (v : Var) :
    Fits info.kind.knownSize (scalarCode info v) := by
  have hfixed : ∀ n, Fits n (do addKnown n; return [] : Emit Body) :=
    fun n => (fits_addKnown n).before fun _ => .pure _
  have hboth : ∀ n t, Fits n (do addKnown n; addTerm t) :=
    fun n t => (fits_addKnown n).before fun _ => fits_addTerm t
  unfold scalarCode Kind.knownSize
  cases info.kind with
  | string | bytes | extension => exact hboth _ _
  | identifier | interface => exact fits_addTerm _
  | _ => exact hfixed _

/-- The size of a part is computed first. -/
theorem fits_staticSize {p : Protocol} {s : Shape} {n : Nat} {f : Option Nat → Emit Body}
    (hle : s.knownSize p ≤ n) (hsome : ∀ k, s.fixedSize? = some k → Fits n (f (some k)))
    (hnone : s.fixedSize? = none → Fits n (f none)) :
    Fits n ((liftM (s.staticSize : Except Fault (Option Nat)) : Emit (Option Nat)) >>= f) := by
  intro q hq
  have hfit : s.knownSize p < countLimit := by omega
  rw [Shape.staticSize_eq p]
  cases hsize : s.fixedSize? with
  | none => exact hnone hsize q hq
  | some k =>
    dsimp only
    rw [if_pos hfit]
    exact hsome k hsize q hq

theorem fits_fieldsCode {c : Config} (layout : Layout) (v : Var) {fields : List Field}
    (h : ∀ f ∈ fields, ∀ v, Fits (f.value.knownSize c.protocol) (shapeCode c f.value v))
    (index : Nat) :
    Fits (Shape.knownSizeIn c.protocol layout fields) (fieldsCode c layout v fields index) := by
  induction fields generalizing index with
  | nil => exact .pure _
  | cons f rest ih =>
    obtain ⟨info, value⟩ := f
    have hrest := ih (fun f hf => h f (List.mem_cons_of_mem _ hf)) (index + 1)
    unfold fieldsCode Shape.knownSizeIn
    split
    · exact hrest
    · have hhere := h (.mk info value) List.mem_cons_self (v.field info.name)
      refine ((fits_addKnown _).bind fun _ => hhere.bind fun _ => hrest.before fun _ =>
        .pure _).mono ?_
      exact Nat.le_of_eq (Nat.add_assoc _ _ _).symm

/-- An estimate adds the known numbers of a final shape, as long as their sum fits. -/
theorem fits_shapeCode {c : Config} {s : Shape} (hs : s.IsFinal) (v : Var) :
    Fits (s.knownSize c.protocol) (shapeCode c s v) := by
  induction s generalizing v with
  | struct info fields ih =>
    refine Fits.known ?_ fun layout hlayout => ?_
    · rw [Format.plan_eq hs.here]
      rcases Shape.checkKeys_cases c.protocol (info, fields) with ⟨hok, -⟩ | ⟨e, herror, -⟩
      · rw [hok]
        nofun
      · rw [herror]
        nofun
    · -- the layout is that of the format, so head and keys have the sizes that were summed up
      obtain ⟨-, rfl⟩ := Format.checkKeys_of_plan hs.here hlayout
      exact (fits_structHeader _).bind fun _ =>
        fits_fieldsCode _ v (fun f hf v => ih f hf (hs.field hf) v) 0
  | map key value ih =>
    unfold Shape.knownSize
    refine ((fits_addKnown _).bind fun _ => fits_drawName.after fun _ => fits_block _
      ((fits_keyCode _ _).bind fun _ => (ih hs.2 _).before fun _ => .pure _)).mono ?_
    exact Nat.le_of_eq (Nat.add_assoc _ _ _).symm
  | slice element ih =>
    refine (fits_addKnown _).bind fun _ =>
      fits_staticSize (Nat.le_refl _) (fun k _ => (fits_addTerm _).mono (Nat.zero_le _)) fun _ => ?_
    exact fits_drawName.after fun _ => fits_block _ (ih hs.2 _)
  | array info element ih =>
    obtain ⟨size, hsize⟩ := isOk_resolvedSize hs
    refine Fits.known (by simp [hsize]) fun _ _ =>
      fits_staticSize (s := .array info element) (Nat.le_refl _) (fun k hk => ?_) fun hk => ?_
    · exact ((fits_addKnown k).before fun _ => .pure _).mono (Shape.le_knownSize hk)
    · rw [Shape.knownSize, hk]
      exact (fits_addKnown _).bind fun _ => fits_drawName.after fun _ => fits_block _ (ih hs.2 _)
  | ptr pointee ih =>
    refine fits_staticSize (s := pointee) (Nat.le_add_right _ _) (fun k hk => ?_) fun hk => ?_
    · have hle := Shape.le_knownSize (p := c.protocol) hk
      refine ((fits_addKnown (max k Wire.nilSize)).before fun _ => .pure _).mono ?_
      unfold Shape.knownSize
      omega
    · exact fits_drawName.after fun _ => fits_flush.after fun _ => (ih hs.2 _).bind fun _ =>
        fits_flush.after fun _ => (fits_addKnown _).before fun _ =>
          fits_flush.after fun _ => .pure _
  | base info => exact fits_scalarCode info v

/-- No count of an estimate is too large if the sum of its numbers is not. -/
theorem render_ne_overflow {c : Config} {s : Shape} (name : String) (hs : s.IsFinal)
    (hfit : s.knownSize c.protocol < countLimit) : render c name s ≠ .error .overflow := by
  have hresult : Fits 0 resultCode := by
    refine .ofOk fun p => ?_
    unfold resultCode
    obtain ⟨known, declared, names⟩ := p
    cases declared <;> exact ⟨_, rfl, Nat.le_refl _⟩
  have hidentity : Fits (s.knownSize c.protocol) (identityCode c s) :=
    (fits_shapeCode hs _).before fun _ => hresult.after fun _ => .pure _
  have hrun := hidentity {} (by simpa using hfit)
  intro hrender
  unfold render at hrender
  split at hrender
  · cases hrender
  · rcases bind_eq_error hrender with hbody | ⟨code, -, hrender⟩
    · change Prod.fst <$> identityCode c s {} = _ at hbody
      cases hcode : identityCode c s {} with
      | ok y =>
        rw [hcode] at hbody
        cases hbody
      | error fault =>
        rw [hcode] at hbody hrun
        exact hrun (Except.error.inj hbody)
    · cases hrender

/-- For a shape of fixed size the bound is exact. -/
theorem render_eq_overflow_iff {c : Config} {s : Shape} (name : String) (hs : s.IsFinal)
    (hp : s.isPrintable = true) (hsize : s.fixedSize?.isSome) :
    render c name s = .error .overflow ↔ countLimit ≤ s.knownSize c.protocol := by
  constructor
  · intro hover
    exact Nat.le_of_not_lt fun hfit => render_ne_overflow name hs hfit hover
  · intro hlimit
    obtain ⟨n, hn⟩ := Option.isSome_iff_exists.1 hsize
    have hstatic : s.staticSize = .error .overflow := by
      rw [Shape.staticSize_eq c.protocol, hn]
      exact if_neg (Nat.not_lt.2 hlimit)
    cases s with
    | base info =>
      have := Shape.knownSize_base_lt c.protocol info
      omega
    | array info element =>
      obtain ⟨size, hresolved⟩ := isOk_resolvedSize hs
      have hbody : body c (.array info element) = .error .overflow := by
        simp only [body, identityCode, shapeCode, hresolved, hstatic]
        rfl
      rw [render, hp, hbody]
      rfl
    | struct info fields => cases hn
    | map key value => cases hn
    | slice element => cases hn
    | ptr pointee => cases hn

end Msgsize

/-- The generation of an encoder counts nothing but fields, and those as finalization did. -/
theorem Marshal.render_ne_overflow {c : Config} {s : Shape} (name : String) (hs : s.IsFinal)
    (hp : s.isPrintable = true) : render c name s ≠ .error .overflow := by
  intro hover
  rcases render_verdict (c := c) name hs hp with ⟨-, text, htext⟩ | ⟨fault, hverdict, hfault⟩
  · cases htext.symm.trans hover
  · obtain rfl := Except.error.inj (hfault.symm.trans hover)
    rcases s.verdict_cases c.protocol with ⟨hok, -⟩ | ⟨e, herror, -⟩
    · cases hok.symm.trans hverdict
    · cases herror.symm.trans hverdict

/-! ## Batches -/

namespace Batch

open CodeGenerator (Serve blocksOf)

/-- On a device that takes everything, a computation stops with a fault. -/
def Stops {α : Type} (x : Print α) (fault : Fault) : Prop :=
  ∀ p : Printer, p.Open → ∃ p', x p = .error fault p'

namespace Stops

variable {α β : Type} {x : Print α} {f : α → Print β} {fault : Fault}

theorem bind (hx : Stops x fault) : Stops (x >>= f) fault := by
  intro p hp
  obtain ⟨q, hq⟩ := hx p hp
  refine ⟨q, ?_⟩
  change EStateM.bind x f p = .error fault q
  rw [EStateM.bind, hq]

theorem after {a : α} {text : String} (hx : Prints x a text) (hf : Stops (f a) fault) :
    Stops (x >>= f) fault := by
  intro p hp
  obtain ⟨q, hxp, hq, -⟩ := hx p hp
  obtain ⟨r, hr⟩ := hf q hq
  refine ⟨r, ?_⟩
  change EStateM.bind x f p = .error fault r
  rw [EStateM.bind, hxp]
  exact hr

end Stops

theorem stops_identity {c : Config} {methods : List Method} {gens : List CodeGenerator}
    {entry : String × Shape} (hserve : Serve c methods gens)
    (hover : blocksAlone c methods entry = .error .overflow) (report : Report) :
    Stops (identity ⟨gens, report⟩ entry) .overflow := by
  obtain ⟨gens', hrender, -⟩ := CodeGenerator.renderAll_eq hserve entry.1 entry.2
  rw [blocksAlone_eq] at hover
  refine .after Prints.ok ?_
  rw [hrender, hover]
  exact fun p _ => ⟨p, rfl⟩

/-- One identity with a count that is too large stops the batch, whatever comes before it. -/
theorem stops_identities {c : Config} {methods : List Method} {entries : List (String × Shape)}
    {entry : String × Shape} (hmem : entry ∈ entries)
    (hover : blocksAlone c methods entry = .error .overflow) {gens : List CodeGenerator}
    (hserve : Serve c methods gens) (report : Report) :
    Stops (entries.foldlM identity ⟨gens, report⟩) .overflow := by
  induction entries generalizing gens report with
  | nil => exact absurd hmem List.not_mem_nil
  | cons first rest ih =>
    rw [List.foldlM_cons]
    by_cases hfirst : blocksAlone c methods first = .error .overflow
    · exact (stops_identity hserve hfirst report).bind
    · have hrest : entry ∈ rest := by
        rcases List.mem_cons.1 hmem with rfl | hrest
        · exact absurd hover hfirst
        · exact hrest
      obtain ⟨fate, -, htold⟩ := exists_becomes hfirst
      obtain ⟨gens', hgens, hprints⟩ := prints_identity hserve htold report
      exact .after hprints (ih hrest hgens _)

theorem stops_generate {t : Table} {c : Config} {methods : List Method} {entry : String × Shape}
    (hmem : entry ∈ t.entries) (hover : blocksAlone c methods entry = .error .overflow) :
    Stops (generate t c methods) .overflow := by
  have hrest : Stops (do
      let done ← t.entries.foldlM identity ⟨methods.map (Method.generator c), {}⟩
      Print.call Printer.flush
      return done.report) .overflow :=
    (stops_identities hmem hover (CodeGenerator.serve_generator c methods) {}).bind
  unfold generate
  refine .after (Prints.print fileHeader) (.after (Prints.print "\n\n") ?_)
  split
  · exact .after (Prints.print c.runtimeImport) (.after (Prints.print "\n") hrest)
  · exact hrest

theorem exists_overflow_of_error {t : Table} {c : Config} {methods : List Method} {fault : Fault}
    (h : generateFile t c methods = .error fault) :
    ∃ entry ∈ t.entries, blocksAlone c methods entry = .error .overflow := by
  refine Classical.byContradiction fun hnone => ?_
  obtain ⟨outcomes, -, -, hprints⟩ :=
    prints_generate fun entry hmem hover => hnone ⟨entry, hmem, hover⟩
  cases h.symm.trans (generateFile_of_prints hprints)

/-- A batch stops with a count that is too large exactly when one of its identities has one. -/
theorem generateFile_eq_overflow_iff (t : Table) (c : Config) (methods : List Method) :
    generateFile t c methods = .error .overflow ↔
      ∃ entry ∈ t.entries, blocksAlone c methods entry = .error .overflow := by
  refine ⟨exists_overflow_of_error, ?_⟩
  rintro ⟨entry, hmem, hover⟩
  obtain ⟨p, hrun⟩ := stops_generate hmem hover _ Printer.open_memory
  rw [generateFile, EStateM.run, hrun]

theorem eq_overflow_of_error {t : Table} {c : Config} {methods : List Method} {fault : Fault}
    (h : generateFile t c methods = .error fault) : fault = .overflow := by
  have hover := (generateFile_eq_overflow_iff t c methods).2 (exists_overflow_of_error h)
  exact Except.error.inj (h.symm.trans hover)

/-! ## Batches on any device -/

/-- A computation ends with a result that `Q` holds of, or with a fault other than an overflow. -/
def Contained {α : Type} (Q : α → Prop) (x : Print α) : Prop :=
  ∀ p, match x p with
    | .ok a _ => Q a
    | .error fault _ => fault ≠ .overflow

namespace Contained

variable {α β : Type} {Q : α → Prop} {R : β → Prop} {x : Print α} {f : α → Print β}

theorem pure {a : α} (h : Q a) : Contained Q (pure a) := fun _ => h

theorem bind (hx : Contained Q x) (hf : ∀ a, Q a → Contained R (f a)) :
    Contained R (x >>= f) := by
  intro p
  change match EStateM.bind x f p with
    | .ok b _ => R b
    | .error fault _ => fault ≠ .overflow
  have hxp := hx p
  unfold EStateM.bind
  cases hrun : x p with
  | error fault q =>
    rw [hrun] at hxp
    exact hxp
  | ok a q =>
    rw [hrun] at hxp
    exact hf a hxp q

/-- The device may fail, which is reported. -/
theorem call (f : Printer → Printer.Outcome) : Contained (fun _ => True) (Print.call f) := by
  intro p
  unfold Print.call
  cases hf : f p with
  | mk outcome q =>
    cases outcome with
    | ok u => exact trivial
    | error e => nofun

end Contained

theorem contained_blocks (blocks : List String) :
    Contained (fun _ => True) (printBlocks blocks) := by
  induction blocks with
  | nil => exact .pure trivial
  | cons block rest ih =>
    have hblock : Contained (fun _ => True) (do print "\n"; print block) :=
      (Contained.call _).bind fun _ _ => .call _
    exact hblock.bind fun _ _ => ih

theorem contained_identity {c : Config} {methods : List Method} {gens : List CodeGenerator}
    {entry : String × Shape} (hserve : Serve c methods gens)
    (hfit : blocksAlone c methods entry ≠ .error .overflow) (report : Report) :
    Contained (fun progress => Serve c methods progress.generators)
      (identity ⟨gens, report⟩ entry) := by
  obtain ⟨gens', hrender, hgens⟩ := CodeGenerator.renderAll_eq hserve entry.1 entry.2
  obtain ⟨fate, -, htold⟩ := exists_becomes hfit
  refine (Contained.call _).bind fun _ _ => ?_
  rw [hrender]
  generalize blocksOf c entry.1 entry.2 methods = told at htold
  cases htold with
  | nothing => exact .pure hgens
  | generated => exact (contained_blocks _).bind fun _ _ => .pure hgens
  | failed cause => exact .pure hgens

theorem contained_identities {c : Config} {methods : List Method}
    {entries : List (String × Shape)}
    (hfit : ∀ entry ∈ entries, blocksAlone c methods entry ≠ .error .overflow)
    {progress : Progress} (hserve : Serve c methods progress.generators) :
    Contained (fun progress => Serve c methods progress.generators)
      (entries.foldlM identity progress) := by
  induction entries generalizing progress with
  | nil => exact .pure hserve
  | cons entry rest ih =>
    rw [List.foldlM_cons]
    refine (contained_identity hserve (hfit entry List.mem_cons_self) _).bind fun next hnext => ?_
    exact ih (fun e he => hfit e (List.mem_cons_of_mem _ he)) hnext

/-- Whatever the device does, a batch whose identities fit does not stop with an overflow. -/
theorem contained_generate {t : Table} {c : Config} {methods : List Method}
    (hfit : ∀ entry ∈ t.entries, blocksAlone c methods entry ≠ .error .overflow) :
    Contained (fun _ => True) (generate t c methods) := by
  have hrest : Contained (fun _ => True) (do
      let done ← t.entries.foldlM identity ⟨methods.map (Method.generator c), {}⟩
      Print.call Printer.flush
      return done.report) :=
    (contained_identities hfit (CodeGenerator.serve_generator c methods)).bind fun _ _ =>
      (Contained.call _).bind fun _ _ => .pure trivial
  unfold generate
  refine (Contained.call _).bind fun _ _ => (Contained.call _).bind fun _ _ => ?_
  split
  · exact (Contained.call _).bind fun _ _ => (Contained.call _).bind fun _ _ => hrest
  · exact hrest

/-! ## Batches over finalized tables -/

/-- No count of an identity is too large if none of its estimate is, or none is asked for. -/
theorem blocksAlone_ne_overflow {c : Config} {methods : List Method} {entry : String × Shape}
    (hs : entry.2.IsFinal) (hp : entry.2.isPrintable = true)
    (hfit : .msgsize ∈ methods → entry.2.knownSize c.protocol < countLimit) :
    blocksAlone c methods entry ≠ .error .overflow := by
  rw [blocksAlone_eq]
  obtain ⟨blocks, hblocks, -⟩ | ⟨before, m, after, fault, rfl, -, hm, hblocks⟩ :=
    blocksOf_printable hp c entry.1 methods
  · rw [hblocks]
    nofun
  · rw [hblocks]
    rintro ⟨⟩
    cases m with
    | marshal => exact Marshal.render_ne_overflow entry.1 hs hp hm
    | msgsize => exact Msgsize.render_ne_overflow entry.1 hs (hfit (by simp)) hm

/-- An identity that code is asked for is in the report. -/
theorem reported {c : Config} {methods : List Method} (hmethods : methods ≠ [])
    {outcomes : List ((String × Shape) × Fate)} {x : (String × Shape) × Fate}
    (hx : x ∈ outcomes) (hp : x.1.2.isPrintable = true) (h : Becomes c methods x.1 x.2) :
    x.1.1 ∈ (reportOf outcomes).generated ∨
      ∃ cause, ⟨x.1.1, cause⟩ ∈ (reportOf outcomes).failures := by
  obtain ⟨entry, fate⟩ := x
  cases h with
  | nothing idle =>
    rcases idle with hidle | hidle
    · exact absurd (hp.symm.trans hidle) (by simp)
    · exact absurd hidle hmethods
  | generated => exact Or.inl (List.mem_filterMap.2 ⟨_, hx, rfl⟩)
  | @failed _ _ _ cause => exact Or.inr ⟨cause, List.mem_filterMap.2 ⟨_, hx, rfl⟩⟩

/-- Over a finalized table the live fields of every struct are counted, and a batch stops exactly
when a count of some identity is too large. That is the size estimate of an identity whose known
numbers do not fit a machine word: if they fit, or no estimates are asked for, the batch does not
stop, whatever the device does, and every identity is generated or reported. For identities of
fixed size the bound is exact. -/
theorem generate_stops_only_on_size (d : Directives) (raw : Table) (c : Config)
    (methods : List Method) :
    (∀ name s, ((Pipeline.standard d).finalizeAll raw).get? name = some s → ∀ x ∈ s.structs,
      x.1.liveCount x.2 = .ok (Format.liveFields x.2).length) ∧
    (generateFile ((Pipeline.standard d).finalizeAll raw) c methods = .error .overflow ↔
      ∃ entry ∈ ((Pipeline.standard d).finalizeAll raw).entries,
        blocksAlone c methods entry = .error .overflow) ∧
    ((∀ entry ∈ ((Pipeline.standard d).finalizeAll raw).entries, .msgsize ∈ methods →
        entry.2.knownSize c.protocol < countLimit) →
      (∀ printer stopped, (generate ((Pipeline.standard d).finalizeAll raw) c methods).run printer ≠
        .error .overflow stopped) ∧
      ∃ file report,
        generateFile ((Pipeline.standard d).finalizeAll raw) c methods = .ok (file, report) ∧
        (methods ≠ [] → ∀ entry ∈ ((Pipeline.standard d).finalizeAll raw).entries,
          entry.1 ∈ report.generated ∨ ∃ cause, ⟨entry.1, cause⟩ ∈ report.failures)) ∧
    ∀ entry ∈ ((Pipeline.standard d).finalizeAll raw).entries, entry.2.fixedSize?.isSome →
      (alone c entry .msgsize = .error .overflow ↔ countLimit ≤ entry.2.knownSize c.protocol) := by
  have hentry : ∀ entry ∈ ((Pipeline.standard d).finalizeAll raw).entries,
      entry.2.IsFinal ∧ entry.2.isPrintable = true := by
    intro entry hmem
    obtain ⟨e, -, he⟩ := List.mem_filterMap.1 hmem
    obtain ⟨r, hr, rfl⟩ := Option.map_eq_some_iff.1 he
    exact Pipeline.isFinal_of_finalize hr
  refine ⟨fun name s hget x hx => ?_, generateFile_eq_overflow_iff _ c methods, fun hfit => ?_,
    fun entry hmem hsize => ?_⟩
  · have hs := (Table.isFinal_finalizeAll d raw name s hget).1
    exact Format.liveCount_eq (Shape.isFinalNode_of_mem_structs hs hx)
  · have hfine : ∀ entry ∈ ((Pipeline.standard d).finalizeAll raw).entries,
        blocksAlone c methods entry ≠ .error .overflow := fun entry hmem =>
      blocksAlone_ne_overflow (hentry entry hmem).1 (hentry entry hmem).2 (hfit entry hmem)
    refine ⟨fun printer stopped hrun => ?_, ?_⟩
    · have hcontained := contained_generate hfine printer
      rw [EStateM.run] at hrun
      rw [hrun] at hcontained
      exact hcontained rfl
    · obtain ⟨outcomes, hentries, hall, hprints⟩ := prints_generate hfine
      refine ⟨_, reportOf outcomes, generateFile_of_prints hprints, fun hmethods entry hmem => ?_⟩
      rw [← hentries] at hmem
      obtain ⟨x, hx, rfl⟩ := List.mem_map.1 hmem
      have hp := (hentry x.1 (hentries ▸ List.mem_map.2 ⟨x, hx, rfl⟩)).2
      exact reported hmethods hx hp (hall x hx)
  · obtain ⟨hs, hp⟩ := hentry entry hmem
    rw [alone_eq]
    exact Msgsize.render_eq_overflow_iff entry.1 hs hp hsize

/-- The largest array of 64-bit integers that an estimate can count. -/
def edgeTable : Table := Table.ofList [
  ("Edge", .array { size := "2049638230412172401" } (.ofKind .int64)),
  ("Bad", .slice (.struct { name := "Bad" } [.mk { name := "x" } (.ofKind .bool)]))]

theorem generateFile_edge : ∃ file report,
    generateFile ((Pipeline.standard {}).finalizeAll edgeTable) {} [.msgsize, .marshal] =
      .ok (file, report) ∧
    ("Edge" ∈ report.generated ∨ ∃ cause, ⟨"Edge", cause⟩ ∈ report.failures) := by
  have hentries : ((Pipeline.standard {}).finalizeAll edgeTable).entries = [
      ("Edge", .array ⟨"2049638230412172401", some 2049638230412172401⟩ (.ofKind .int64)),
      ("Bad", .slice (.struct { name := "Bad" } [.mk { name := "x" } (.ofKind .bool)]))] := rfl
  have hfit : ∀ entry ∈ ((Pipeline.standard {}).finalizeAll edgeTable).entries,
      Method.msgsize ∈ [Method.msgsize, .marshal] →
        entry.2.knownSize .fast < countLimit := by
    intro entry hmem _
    rw [hentries] at hmem
    rcases List.mem_cons.1 hmem with rfl | hmem
    · decide
    · obtain rfl := List.mem_singleton.1 hmem
      decide
  obtain ⟨-, file, report, hfile, hreport⟩ :=
    (generate_stops_only_on_size {} edgeTable {} [.msgsize, .marshal]).2.2.1 hfit
  refine ⟨file, report, hfile, ?_⟩
  exact hreport (by simp) _ (by rw [hentries]; exact List.mem_cons_self)

/-- An array one element longer is too large to count. -/
def warehouse : Table := Table.ofList [
  ("Good", .slice (.ofKind .int64)),
  ("Huge", .array { size := "2049638230412172402" } (.ofKind .int64))]

/-- It takes down the batch, and with it an identity that is generated alone. -/
theorem generateFile_warehouse :
    generateFile ((Pipeline.standard {}).finalizeAll warehouse) {} [.msgsize] = .error .overflow ∧
      ∃ block, alone {} ("Good", .slice (.ofKind .int64)) .msgsize = .ok block := by
  have hbody : Msgsize.body {} (.array ⟨"2049638230412172402", some 2049638230412172402⟩
      (.ofKind .int64)) = .error .overflow := rfl
  constructor
  · refine (generateFile_eq_overflow_iff _ _ _).2 ⟨("Huge", .array ⟨"2049638230412172402",
      some 2049638230412172402⟩ (.ofKind .int64)), ?_, ?_⟩
    · change _ ∈ [_, _]
      exact List.mem_cons_of_mem _ List.mem_cons_self
    · rw [blocksAlone_eq, blocksOf, Method.render, Msgsize.render, hbody]
      rfl
  · rw [alone_eq]
    exact (Msgsize.exists_render rfl).2 rfl

end Batch

end Packwright
