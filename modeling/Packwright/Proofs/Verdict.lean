import Packwright.Proofs.Faults
import Packwright.Proofs.Generators
import Packwright.Proofs.Zids

/-
  On which shapes the consumers of a table fail, and how. The only thing that can be wrong with a
  final shape is a struct whose zids have to serve as keys and cannot, and the error is that of the
  first such struct, outer structs before those inside them (`FirstFault`). `verdict` goes through
  the structs of a shape in that order. Both generators come to this verdict, although one of them
  does not look into parts of fixed size (`Marshal.render_verdict`, `Msgsize.render_verdict`); and
  where the verdict is good for a whole table, no encoding fails on a declaration.
-/

namespace Packwright

/-! ## The structs of a shape -/

namespace Shape

mutual

/-- The structs that are encoded as part of a shape, each before those inside it, through live
fields, elements, values of maps and pointees. Identifiers are not followed. -/
def structs : Shape → List (StructInfo × List Field)
  | struct info fields => (info, fields) :: structsIn fields
  | map _ value => structs value
  | slice element => structs element
  | array _ element => structs element
  | ptr pointee => structs pointee
  | base _ => []

/-- The structs that are encoded as part of live fields. -/
def structsIn : List Field → List (StructInfo × List Field)
  | [] => []
  | .mk info value :: rest => if info.skip then structsIn rest else structs value ++ structsIn rest

end

/-- The zids of a struct have to serve as keys and cannot. -/
def Faulty (p : Protocol) (x : StructInfo × List Field) : Prop :=
  Format.hasIntKeys p x.1 = true ∧
    ((∃ f ∈ Format.liveFields x.2, f.info.zid.toInt < 0) ∨
      ¬(Format.liveFields x.2).Pairwise fun f g => f.info.zid ≠ g.info.zid)

/-- The error of the first struct of a shape that is at fault. -/
def FirstFault (p : Protocol) (s : Shape) (e : Error) : Prop :=
  ∃ before x after, s.structs = before ++ x :: after ∧ (∀ y ∈ before, ¬Faulty p y) ∧
    Faulty p x ∧ Layout.ZidFault x.1.name (Format.liveFields x.2) e

/-- Checks the keys of the structs of a shape, in order. -/
def verdictOf (p : Protocol) (xs : List (StructInfo × List Field)) : Except Fault Unit :=
  xs.forM fun x => Format.checkKeys p x.1 (Format.liveFields x.2)

/-- Whether the structs of a shape have keys, or else what is wrong with the first that has not. -/
def verdict (p : Protocol) (s : Shape) : Except Fault Unit := verdictOf p s.structs

theorem not_faulty_of_soundZids {p : Protocol} {x : StructInfo × List Field}
    (h : Layout.SoundZids (Format.liveFields x.2)) : ¬Faulty p x := by
  rintro ⟨-, ⟨f, hf, hneg⟩ | hdup⟩
  · have := h.1 f hf
    omega
  · exact hdup h.2

theorem faulty_of_zidFault {p : Protocol} {x : StructInfo × List Field} {e : Error}
    (hint : Format.hasIntKeys p x.1 = true)
    (h : Layout.ZidFault x.1.name (Format.liveFields x.2) e) : Faulty p x := by
  refine ⟨hint, Classical.byContradiction fun hnot => h.not_soundZids ?_⟩
  obtain ⟨hneg, hdup⟩ := not_or.1 hnot
  exact ⟨fun f hf => Int.not_lt.1 fun hlt => hneg ⟨f, hf, hlt⟩, Classical.not_not.1 hdup⟩

/-- The check of one struct. -/
theorem checkKeys_cases (p : Protocol) (x : StructInfo × List Field) :
    (Format.checkKeys p x.1 (Format.liveFields x.2) = .ok () ∧ ¬Faulty p x) ∨
      ∃ e, Format.checkKeys p x.1 (Format.liveFields x.2) = .error (.error e) ∧ Faulty p x ∧
        Layout.ZidFault x.1.name (Format.liveFields x.2) e := by
  unfold Format.checkKeys
  cases hint : Format.hasIntKeys p x.1 with
  | false => exact Or.inl ⟨rfl, fun h => Bool.false_ne_true (hint.symm.trans h.1)⟩
  | true =>
    rcases Layout.checkZids_nil_cases x.1.name (Format.liveFields x.2) with
      ⟨hcheck, hsound⟩ | ⟨e, hcheck, hfault⟩
    · rw [hcheck]
      exact Or.inl ⟨rfl, not_faulty_of_soundZids hsound⟩
    · rw [hcheck]
      exact Or.inr ⟨e, rfl, faulty_of_zidFault hint hfault, hfault⟩

theorem verdictOf_cons (p : Protocol) (x : StructInfo × List Field)
    (xs : List (StructInfo × List Field)) :
    verdictOf p (x :: xs) =
      (do Format.checkKeys p x.1 (Format.liveFields x.2); verdictOf p xs) := rfl

theorem verdictOf_append (p : Protocol) (xs ys : List (StructInfo × List Field)) :
    verdictOf p (xs ++ ys) = (do verdictOf p xs; verdictOf p ys) := by
  induction xs with
  | nil => rfl
  | cons x xs ih =>
    rw [List.cons_append, verdictOf_cons, verdictOf_cons, ih]
    cases Format.checkKeys p x.1 (Format.liveFields x.2) with
    | error fault => rfl
    | ok u => rfl

theorem verdictOf_cases (p : Protocol) (xs : List (StructInfo × List Field)) :
    (verdictOf p xs = .ok () ∧ ∀ x ∈ xs, ¬Faulty p x) ∨
      ∃ e before x after, verdictOf p xs = .error (.error e) ∧ xs = before ++ x :: after ∧
        (∀ y ∈ before, ¬Faulty p y) ∧ Faulty p x ∧
        Layout.ZidFault x.1.name (Format.liveFields x.2) e := by
  induction xs with
  | nil => exact Or.inl ⟨rfl, fun x hx => absurd hx List.not_mem_nil⟩
  | cons x xs ih =>
    rw [verdictOf_cons]
    rcases checkKeys_cases p x with ⟨hcheck, hx⟩ | ⟨e, hcheck, hx, hfault⟩
    · rw [hcheck, ok_bind]
      rcases ih with ⟨hrest, hxs⟩ | ⟨e, before, y, after, hrest, rfl, hbefore, hy, hfault⟩
      · exact Or.inl ⟨hrest, List.forall_mem_cons.2 ⟨hx, hxs⟩⟩
      · exact Or.inr ⟨e, x :: before, y, after, hrest, rfl,
          List.forall_mem_cons.2 ⟨hx, hbefore⟩, hy, hfault⟩
    · rw [hcheck, error_bind]
      exact Or.inr ⟨e, [], x, xs, rfl, rfl, fun y hy => absurd hy List.not_mem_nil, hx, hfault⟩

/-- The verdict on a shape is good, or it is the error of the first struct at fault. -/
theorem verdict_cases (p : Protocol) (s : Shape) :
    (s.verdict p = .ok () ∧ ∀ x ∈ s.structs, ¬Faulty p x) ∨
      ∃ e, s.verdict p = .error (.error e) ∧ FirstFault p s e := by
  rcases verdictOf_cases p s.structs with hgood | ⟨e, before, x, after, hverdict, hfirst⟩
  · exact Or.inl hgood
  · exact Or.inr ⟨e, hverdict, before, x, after, hfirst⟩

/-- A shape of fixed size holds no struct. -/
theorem structs_of_staticSize {s : Shape} {n : Nat} (h : s.staticSize = .ok (some n)) :
    s.structs = [] := by
  induction s generalizing n with
  | base info => rfl
  | array info element ih =>
    obtain ⟨size, -, ⟨hnarrow, -⟩ | ⟨-, k, hk, -⟩⟩ := staticSize_array h
    · cases element with
      | base info => rfl
      | _ => cases hnarrow
    · exact ih hk
  | struct info fields _ => cases h
  | map key value _ => cases h
  | slice element _ => cases h
  | ptr pointee _ => cases h

end Shape

/-! ## Generation with a verdict -/

section

variable {σ α β : Type}

/-- A step of a generator ends as `r` says, or with a fault that is excused. -/
def Settles (excused : Fault → Prop) (r : Except Fault Unit) (x : StateT σ (Except Fault) α) :
    Prop :=
  ∀ p, (∃ fault, excused fault ∧ x p = .error fault) ∨ (fun _ => ()) <$> x p = r

namespace Settles

variable {excused : Fault → Prop} {r r' : Except Fault Unit} {x : StateT σ (Except Fault) α}
  {f : α → StateT σ (Except Fault) β}

theorem ofOk (h : ∀ p, ∃ y, x p = .ok y) : Settles excused (.ok ()) x := by
  intro p
  obtain ⟨y, hy⟩ := h p
  rw [hy]
  exact Or.inr rfl

theorem pure (a : α) : Settles excused (.ok ()) (pure a : StateT σ (Except Fault) α) :=
  ofOk fun p => ⟨(a, p), rfl⟩

theorem both (hx : Settles excused r x) (hf : ∀ a, Settles excused r' (f a)) :
    Settles excused (r >>= fun _ => r') (x >>= f) := by
  intro p
  change (∃ fault, excused fault ∧ (x p >>= fun y => f y.1 y.2) = .error fault) ∨
    (fun _ => ()) <$> (x p >>= fun y => f y.1 y.2) = _
  rcases hx p with ⟨fault, hfault, hxp⟩ | hxp
  · rw [hxp]
    exact Or.inl ⟨fault, hfault, rfl⟩
  · cases hrun : x p with
    | error fault =>
      rw [hrun] at hxp
      rw [← hxp]
      exact Or.inr rfl
    | ok y =>
      rw [hrun] at hxp
      rw [← hxp]
      exact hf y.1 y.2

theorem bind (hx : Settles excused (.ok ()) x) (hf : ∀ a, Settles excused r (f a)) :
    Settles excused r (x >>= f) := both hx hf

theorem bindLeft (hx : Settles excused r x) (hf : ∀ a, Settles excused (.ok ()) (f a)) :
    Settles excused r (x >>= f) := by
  have h := both hx hf
  cases r with
  | error fault => exact h
  | ok u => exact h

/-- Something is computed first that fails with an excuse or not at all. -/
theorem known {y : Except Fault α} (hy : ∀ fault, y = .error fault → excused fault)
    (hf : ∀ a, y = .ok a → Settles excused r (f a)) :
    Settles excused r ((liftM y : StateT σ (Except Fault) α) >>= f) := by
  intro p
  change (∃ fault, excused fault ∧ ((y >>= fun a => .ok (a, p)) >>= fun z => f z.1 z.2) =
    .error fault) ∨ (fun _ => ()) <$> ((y >>= fun a => .ok (a, p)) >>= fun z => f z.1 z.2) = r
  cases hrun : y with
  | error fault => exact Or.inl ⟨fault, hy fault hrun, rfl⟩
  | ok a => exact hf a hrun p

/-- The layout of a final struct is planned first; its keys are checked with it. -/
theorem plan {p : Protocol} {info : StructInfo} {fields : List Field}
    {g : Layout → StateT σ (Except Fault) β} (hs : (Shape.struct info fields).IsFinalNode)
    (hg : ∀ layout, Settles excused r (g layout)) :
    Settles excused (do Format.checkKeys p info (Format.liveFields fields); r)
      ((liftM (Layout.plan p info fields) : StateT σ (Except Fault) Layout) >>= g) := by
  rw [Format.plan_eq hs]
  cases Format.checkKeys p info (Format.liveFields fields) with
  | error fault => exact fun p => Or.inr rfl
  | ok u => exact hg _

/-- The verdict on what a step gives when it starts with nothing held back. -/
theorem run' (h : Settles excused r x) (p : σ) :
    (∃ fault, excused fault ∧ x.run' p = .error fault) ∨ (fun _ => ()) <$> x.run' p = r := by
  change (∃ fault, excused fault ∧ Prod.fst <$> x p = .error fault) ∨
    (fun _ => ()) <$> (Prod.fst <$> x p) = r
  rcases h p with ⟨fault, hfault, hx⟩ | hx
  · rw [hx]
    exact Or.inl ⟨fault, hfault, rfl⟩
  · rw [← hx]
    cases x p <;> exact Or.inr rfl

end Settles

end

theorem Shape.verdict_struct (p : Protocol) (info : StructInfo) (fields : List Field) :
    (Shape.struct info fields).verdict p =
      (do Format.checkKeys p info (Format.liveFields fields)
          Shape.verdictOf p (Shape.structsIn fields)) := rfl

theorem isOk_resolvedSize {info : ArrayInfo} {element : Shape}
    (h : (Shape.array info element).IsFinal) : ∃ n, info.resolvedSize = .ok n := by
  obtain ⟨n, hn⟩ := Option.isSome_iff_exists.1 h.here
  exact ⟨n, by simp [ArrayInfo.resolvedSize, hn]⟩

/-! ## Encoders -/

namespace Marshal

/-- Generation of an encoder has no excuse. -/
abbrev Settled {α : Type} (r : Except Fault Unit) (x : Emit α) : Prop :=
  Settles (fun _ => False) r x

theorem settled_flush : Settled (.ok ()) flush := .ofOk fun p => ⟨_, flush_eq p⟩

theorem settled_drawName : Settled (.ok ()) drawName := .ofOk fun _ => ⟨_, rfl⟩

theorem settled_constant (c : Config) (note : Note) (bytes : Bytes) :
    Settled (.ok ()) (constant c note bytes) := by
  refine Settles.bind (.ofOk fun p => ⟨_, rfl⟩) fun _ => ?_
  split
  · exact .pure _
  · exact settled_flush

theorem settled_dynamic (l : Line) : Settled (.ok ()) (dynamic l) :=
  settled_flush.bind fun _ => .pure _

theorem settled_block {r : Except Fault Unit} (head : Head) {body : Emit Body}
    (h : Settled r body) : Settled r (block head body) :=
  settled_flush.bind fun _ => h.bindLeft fun _ => settled_flush.bind fun _ => .pure _

theorem settled_tallyCode (layout : Layout) (v : Var) (isTop : Bool) :
    Settled (.ok ()) (tallyCode layout v isTop) := by
  refine settled_flush.bind fun _ => ?_
  split
  · exact .pure _
  · exact settled_drawName.bind fun _ => .pure _

theorem settled_identification (c : Config) (layout : Layout) :
    Settled (.ok ()) (identification c layout) := by
  unfold identification
  split
  · exact settled_constant _ _ _
  · exact .pure _

theorem settled_slotCode {r : Except Fault Unit} (c : Config) (layout : Layout) (t : Tally)
    (slot : Slot) {value : Emit Body} (h : Settled r value) :
    Settled r (slotCode c layout t slot value) := by
  have hentry : Settled r (entryCode c layout slot value) :=
    (settled_constant _ _ _).bind fun _ => h.bindLeft fun _ => .pure _
  by_cases hm : layout.mode = .tuple
  · rwa [slotCode_tuple hm]
  · rw [slotCode_entry hm]
    split
    · exact settled_block _ hentry
    · exact hentry

theorem settled_structCode {c : Config} {info : StructInfo} {fields : List Field}
    {r : Except Fault Unit} (v : Var) (isTop : Bool) {slots : Layout → Tally → Emit Body}
    (hs : (Shape.struct info fields).IsFinalNode)
    (hslots : ∀ layout t, Settled r (slots layout t)) :
    Settled (do Format.checkKeys c.protocol info (Format.liveFields fields); r)
      (structCode c info fields v isTop slots) := by
  refine Settles.plan hs fun layout => ?_
  split
  · exact (settled_constant _ _ _).bind fun _ => (hslots _ _).bindLeft fun _ => .pure _
  · exact (settled_constant _ _ _).bind fun _ => (hslots _ _).bindLeft fun _ => .pure _
  · exact (settled_tallyCode _ _ _).bind fun _ => (settled_identification _ _).bind fun _ =>
      (hslots _ _).bindLeft fun _ => .pure _

theorem settled_fieldsCode {c : Config} (layout : Layout) (t : Tally) (v : Var)
    {fields : List Field}
    (h : ∀ f ∈ fields, ∀ v, Settled (f.value.verdict c.protocol) (shapeCode c f.value v))
    (index : Nat) :
    Settled (Shape.verdictOf c.protocol (Shape.structsIn fields))
      (fieldsCode c layout t v fields index) := by
  induction fields generalizing index with
  | nil => exact .pure _
  | cons f rest ih =>
    obtain ⟨info, value⟩ := f
    have hrest := ih (fun f hf => h f (List.mem_cons_of_mem _ hf)) (index + 1)
    unfold fieldsCode Shape.structsIn
    split
    · exact hrest
    · have hhere := h (.mk info value) List.mem_cons_self (v.field info.name)
      rw [Shape.verdictOf_append]
      exact (settled_slotCode c layout t _ hhere).both fun _ => hrest.bindLeft fun _ => .pure _

/-- The code of a final shape is generated as its verdict says. -/
theorem settled_shapeCode {c : Config} {s : Shape} (hs : s.IsFinal) (v : Var) :
    Settled (s.verdict c.protocol) (shapeCode c s v) := by
  induction s generalizing v with
  | struct info fields ih =>
    exact settled_structCode v false hs.here fun layout t =>
      settled_fieldsCode layout t v (fun f hf v => ih f hf (hs.field hf) v) 0
  | map key value ih =>
    exact settled_drawName.bind fun _ => (settled_dynamic _).bind fun _ =>
      (settled_block _ ((settled_dynamic _).bind fun _ =>
        (ih hs.2 _).bindLeft fun _ => .pure _)).bindLeft fun _ => .pure _
  | slice element ih =>
    exact settled_drawName.bind fun _ => (settled_dynamic _).bind fun _ =>
      (settled_block _ (ih hs.2 _)).bindLeft fun _ => .pure _
  | array info element ih =>
    obtain ⟨size, hsize⟩ := isOk_resolvedSize hs
    refine Settles.known (fun fault hfault => nomatch hsize.symm.trans hfault) fun size _ => ?_
    split
    · rename_i hnarrow
      -- the elements of a byte array are not looked at, and bytes hold no struct
      cases element with
      | base info => exact settled_dynamic _
      | _ => cases hnarrow
    · exact (settled_constant _ _ _).bind fun _ => settled_drawName.bind fun _ =>
        (settled_block _ (ih hs.2 _)).bindLeft fun _ => .pure _
  | ptr pointee ih =>
    exact settled_drawName.bind fun _ => settled_flush.bind fun _ => (ih hs.2 _).bindLeft fun _ =>
      settled_flush.bind fun _ => (settled_constant _ _ _).bind fun _ =>
        settled_flush.bind fun _ => .pure _
  | base info =>
    unfold shapeCode scalarCode
    split <;> exact settled_dynamic _

theorem settled_identityCode {c : Config} {s : Shape} (hs : s.IsFinal) :
    Settled (s.verdict c.protocol) (identityCode c s) := by
  obtain ⟨info, fields, rfl⟩ | hw := s.struct_or
  · refine Settles.bindLeft ?_ fun _ => settled_flush.bind fun _ => .pure _
    exact settled_structCode _ true hs.here fun layout t =>
      settled_fieldsCode layout t _ (fun f hf v => settled_shapeCode (hs.field hf) v) 0
  · rw [identityCode_wrapped c hw]
    exact (settled_shapeCode hs _).bindLeft fun _ => settled_flush.bind fun _ => .pure _

/-- The layout of the outer struct is planned a second time, with the same outcome. -/
theorem isOk_companion {c : Config} {s : Shape} (hs : s.IsFinal)
    (h : s.verdict c.protocol = .ok ()) : ∃ side, companion c s = .ok side := by
  cases s with
  | struct info fields =>
    rw [Shape.verdict_struct] at h
    obtain ⟨_, hkeys, -⟩ := bind_eq_ok h
    simp only [companion, Format.plan_eq hs.here, hkeys, ok_bind, pure, Except.pure]
    split <;> exact ⟨_, rfl⟩
  | _ => exact ⟨none, rfl⟩

/-- The encoder of a final shape is rendered exactly when the verdict is good, and otherwise the
verdict is the error. -/
theorem render_verdict {c : Config} {s : Shape} (name : String) (hs : s.IsFinal)
    (hp : s.isPrintable = true) :
    (s.verdict c.protocol = .ok () ∧ ∃ text, render c name s = .ok (some text)) ∨
      ∃ fault, s.verdict c.protocol = .error fault ∧ render c name s = .error fault := by
  have hbody : (fun _ => ()) <$> body c s = s.verdict c.protocol :=
    ((settled_identityCode hs).run' {}).resolve_left fun ⟨_, hfalse, _⟩ => hfalse
  unfold render
  rw [hp]
  cases hcode : body c s with
  | error fault =>
    rw [hcode] at hbody
    exact Or.inr ⟨fault, hbody.symm, rfl⟩
  | ok code =>
    rw [hcode] at hbody
    obtain ⟨side, hside⟩ := isOk_companion hs hbody.symm
    rw [hside]
    exact Or.inl ⟨hbody.symm, _, rfl⟩

end Marshal

/-! ## Size estimates -/

namespace Msgsize

/-- Generation of a size estimate may stop when a count leaves its range. -/
abbrev Settled {α : Type} (r : Except Fault Unit) (x : Emit α) : Prop :=
  Settles (· = .overflow) r x

theorem settled_flush : Settled (.ok ()) flush := .ofOk fun p => ⟨_, flush_eq p⟩

theorem settled_drawName : Settled (.ok ()) drawName := .ofOk fun _ => ⟨_, rfl⟩

theorem settled_addTerm (t : Term) : Settled (.ok ()) (addTerm t) := .ofOk fun _ => ⟨_, rfl⟩

theorem settled_addKnown (n : Nat) : Settled (.ok ()) (addKnown n) := by
  refine Settles.bind (.ofOk fun p => ⟨_, rfl⟩) fun p => ?_
  refine Settles.known (fun fault hfault => ?_) fun known _ => .ofOk fun p => ⟨_, rfl⟩
  unfold checkedCount at hfault
  split at hfault
  · cases hfault
  · exact (Except.error.inj hfault).symm

theorem settled_block {r : Except Fault Unit} (head : Head) {body : Emit Body}
    (h : Settled r body) : Settled r (block head body) :=
  settled_flush.bind fun _ => h.bindLeft fun _ => settled_flush.bind fun _ => .pure _

theorem settled_keyCode (number : Nat) (key : KeyKind) :
    Settled (.ok ()) (keyCode number key) := by
  cases key with
  | string => exact (settled_addKnown _).bind fun _ => settled_addTerm _
  | int64 => exact (settled_addKnown _).bind fun _ => .pure _

theorem settled_structHeader (layout : Layout) : Settled (.ok ()) (structHeader layout) := by
  unfold structHeader
  cases layout.fingerprint with
  | some entry =>
    cases layout.header with
    | _ => exact (settled_addKnown _).bind fun _ => settled_addKnown _
  | none =>
    cases layout.header with
    | _ => exact (settled_addKnown _).bind fun _ => .pure _

theorem settled_scalarCode (info : BaseInfo) (v : Var) :
    Settled (.ok ()) (scalarCode info v) := by
  unfold scalarCode
  split
  · exact (settled_addKnown _).bind fun _ => .pure _
  · split
    · exact settled_addTerm _
    · exact settled_addTerm _
    · exact (settled_addKnown _).bind fun _ => settled_addTerm _
    · exact (settled_addKnown _).bind fun _ => settled_addTerm _

theorem settled_fieldsCode {c : Config} (layout : Layout) (v : Var) {fields : List Field}
    (h : ∀ f ∈ fields, ∀ v, Settled (f.value.verdict c.protocol) (shapeCode c f.value v))
    (index : Nat) :
    Settled (Shape.verdictOf c.protocol (Shape.structsIn fields))
      (fieldsCode c layout v fields index) := by
  induction fields generalizing index with
  | nil => exact .pure _
  | cons f rest ih =>
    obtain ⟨info, value⟩ := f
    have hrest := ih (fun f hf => h f (List.mem_cons_of_mem _ hf)) (index + 1)
    unfold fieldsCode Shape.structsIn
    split
    · exact hrest
    · have hhere := h (.mk info value) List.mem_cons_self (v.field info.name)
      rw [Shape.verdictOf_append]
      exact (settled_addKnown _).bind fun _ => hhere.both fun _ => hrest.bindLeft fun _ => .pure _

/-- A part of fixed size is not looked into, and need not be; any other part settles the rest. -/
theorem settled_staticSize {c : Config} {s : Shape} {f : Option Nat → Emit Body}
    (hsome : ∀ n, Settled (.ok ()) (f (some n))) (hnone : Settled (s.verdict c.protocol) (f none)) :
    Settled (s.verdict c.protocol)
      ((liftM (s.staticSize : Except Fault (Option Nat)) : Emit (Option Nat)) >>= f) := by
  refine Settles.known (fun fault hfault => Shape.staticSize_eq_error hfault) fun size hsize => ?_
  cases size with
  | none => exact hnone
  | some n =>
    -- there is no struct in it, so the verdict has nothing to wait for
    have hstructs : s.verdict c.protocol = .ok () := by
      rw [Shape.verdict, Shape.structs_of_staticSize hsize]
      rfl
    rw [hstructs]
    exact hsome n

/-- The estimate of a final shape is generated as its verdict says, unless a count is too large. -/
theorem settled_shapeCode {c : Config} {s : Shape} (hs : s.IsFinal) (v : Var) :
    Settled (s.verdict c.protocol) (shapeCode c s v) := by
  induction s generalizing v with
  | struct info fields ih =>
    refine Settles.plan hs.here fun layout => (settled_structHeader layout).bind fun _ => ?_
    exact settled_fieldsCode layout v (fun f hf v => ih f hf (hs.field hf) v) 0
  | map key value ih =>
    exact (settled_addKnown _).bind fun _ => settled_drawName.bind fun _ => settled_block _
      ((settled_keyCode _ _).bind fun _ => (ih hs.2 _).bindLeft fun _ => .pure _)
  | slice element ih =>
    refine (settled_addKnown _).bind fun _ => settled_staticSize (s := element) ?_ ?_
    · exact fun n => settled_addTerm _
    · exact settled_drawName.bind fun _ => settled_block _ (ih hs.2 _)
  | array info element ih =>
    obtain ⟨size, hsize⟩ := isOk_resolvedSize hs
    refine Settles.known (fun fault hfault => nomatch hsize.symm.trans hfault) fun _ _ => ?_
    refine settled_staticSize (s := .array info element) ?_ ?_
    · exact fun n => (settled_addKnown _).bind fun _ => .pure _
    · exact (settled_addKnown _).bind fun _ => settled_drawName.bind fun _ =>
        settled_block _ (ih hs.2 _)
  | ptr pointee ih =>
    refine settled_staticSize (s := pointee) ?_ ?_
    · exact fun n => (settled_addKnown _).bind fun _ => .pure _
    · exact settled_drawName.bind fun _ => settled_flush.bind fun _ =>
        (ih hs.2 _).bindLeft fun _ => settled_flush.bind fun _ => (settled_addKnown _).bind fun _ =>
          settled_flush.bind fun _ => .pure _
  | base info => exact settled_scalarCode info v

/-- The estimate of a final shape is rendered exactly when the verdict is good, and otherwise the
verdict is the error, unless a count leaves its range. -/
theorem render_verdict {c : Config} {s : Shape} (name : String) (hs : s.IsFinal)
    (hp : s.isPrintable = true) :
    render c name s = .error .overflow ∨
      (s.verdict c.protocol = .ok () ∧ ∃ text, render c name s = .ok (some text)) ∨
      ∃ fault, s.verdict c.protocol = .error fault ∧ render c name s = .error fault := by
  have hresult : Settled (.ok ()) resultCode := by
    refine Settles.bind (.ofOk fun p => ⟨_, rfl⟩) fun p => ?_
    split <;> exact .pure _
  have hidentity : Settled (s.verdict c.protocol) (identityCode c s) :=
    (settled_shapeCode hs _).bindLeft fun _ => hresult.bind fun _ => .pure _
  unfold render
  rw [hp]
  rcases hidentity.run' {} with ⟨fault, rfl, hbody⟩ | hbody
  · change body c s = _ at hbody
    rw [hbody]
    exact Or.inl rfl
  · change (fun _ => ()) <$> body c s = _ at hbody
    cases hcode : body c s with
    | error fault =>
      rw [hcode] at hbody
      exact Or.inr (Or.inr ⟨fault, hbody.symm, rfl⟩)
    | ok code =>
      rw [hcode] at hbody
      exact Or.inr (Or.inl ⟨hbody.symm, _, rfl⟩)

end Msgsize

/-! ## All consumers -/

/-- Whether the declaration of a type is at fault, and not a value. -/
def Error.blamesDeclaration : Error → Bool
  | missingZid _ _ | duplicateZid _ _ _ _ | unresolvedSize _ => true
  | _ => false

namespace Shape

theorem mem_structsIn {fields : List Field} {f : Field} (hf : f ∈ Format.liveFields fields)
    {x : StructInfo × List Field} (hx : x ∈ f.value.structs) : x ∈ structsIn fields := by
  induction fields with
  | nil => exact absurd hf List.not_mem_nil
  | cons g rest ih =>
    obtain ⟨info, value⟩ := g
    rw [Format.liveFields_cons] at hf
    unfold structsIn
    cases hskip : info.skip with
    | true =>
      rw [Field.info_mk, hskip, if_pos rfl] at hf
      exact ih hf
    | false =>
      rw [Field.info_mk, hskip, if_neg Bool.false_ne_true] at hf
      rcases List.mem_cons.1 hf with rfl | hf
      · exact List.mem_append_left _ hx
      · exact List.mem_append_right _ (ih hf)

theorem exists_of_mem_structsIn {fields : List Field} {x : StructInfo × List Field}
    (hx : x ∈ structsIn fields) : ∃ f ∈ fields, x ∈ f.value.structs := by
  induction fields with
  | nil => exact absurd hx List.not_mem_nil
  | cons g rest ih =>
    obtain ⟨info, value⟩ := g
    have hrest : x ∈ structsIn rest → ∃ f ∈ Field.mk info value :: rest, x ∈ f.value.structs := by
      intro hx
      obtain ⟨f, hf, hxf⟩ := ih hx
      exact ⟨f, List.mem_cons_of_mem _ hf, hxf⟩
    unfold structsIn at hx
    split at hx
    · exact hrest hx
    · rcases List.mem_append.1 hx with hx | hx
      · exact ⟨_, List.mem_cons_self, hx⟩
      · exact hrest hx

/-- The structs of a final shape are final. -/
theorem isFinalNode_of_mem_structs {s : Shape} (hs : s.IsFinal) {x : StructInfo × List Field}
    (hx : x ∈ s.structs) : (struct x.1 x.2).IsFinalNode := by
  induction s with
  | struct info fields ih =>
    rcases List.mem_cons.1 hx with rfl | hx
    · exact hs.here
    · obtain ⟨f, hf, hxf⟩ := exists_of_mem_structsIn hx
      exact ih f hf (hs.field hf) hxf
  | map key value ih => exact ih hs.2 hx
  | slice element ih => exact ih hs.2 hx
  | array info element ih => exact ih hs.2 hx
  | ptr pointee ih => exact ih hs.2 hx
  | base info => exact absurd hx List.not_mem_nil

/-- A child has structs of its own identity or is another identity. -/
theorem structs_child {t : Table} {s s' : Shape} {v v' : Value}
    (h : Format.Child t s v s' v') :
    (∀ x ∈ s'.structs, x ∈ s.structs) ∨ ∃ name, t.get? name = some s' := by
  cases h with
  | field live held => exact Or.inl fun x hx => List.mem_cons_of_mem _ (mem_structsIn live hx)
  | entry mem => exact Or.inl fun x hx => hx
  | element mem => exact Or.inl fun x hx => hx
  | item mem => exact Or.inl fun x hx => hx
  | pointee present => exact Or.inl fun x hx => hx
  | target named found => exact Or.inr ⟨_, found⟩

/-- If no struct of a table is at fault, then none that an encoding goes through is. -/
theorem not_faulty_of_reach {p : Protocol} {t : Table}
    (ht : ∀ name s, t.get? name = some s → ∀ x ∈ s.structs, ¬Faulty p x) {s s' : Shape}
    {v v' : Value} (hs : ∀ x ∈ s.structs, ¬Faulty p x) (h : Format.Reach t s v s' v') :
    ∀ x ∈ s'.structs, ¬Faulty p x := by
  induction h with
  | here => exact hs
  | step child _ ih =>
    apply ih
    rcases structs_child child with hsub | ⟨name, hget⟩
    · exact fun x hx => hs x (hsub x hx)
    · exact ht name _ hget

end Shape

/-- Over a finalized table without structs at fault, only values are to blame for an error. -/
theorem Encoder.not_blamesDeclaration {e : Encoder} (ht : e.table.IsFinal)
    (hsound : ∀ name s, e.table.get? name = some s → ∀ x ∈ s.structs, ¬Shape.Faulty e.protocol x)
    {name : String} {v : Value} {cause : Error} (h : e.encode name v = .error (.error cause)) :
    cause.blamesDeclaration = false := by
  unfold encode at h
  cases hget : e.table.get? name with
  | none =>
    rw [hget] at h
    obtain rfl := Fault.error.inj (Except.error.inj h)
    rfl
  | some s =>
    rw [hget] at h
    have hs := (ht name s hget).1
    have hbytes := (encodeShape_eq_bytes e ht hs v).symm.trans h
    rcases Format.bytes_eq_error hbytes with hdeep | ⟨s', v', hreach, hown⟩
    · cases hdeep
    have hfinal : s'.IsFinalNode :=
      hreach.everywhere (fun name s hget => (ht name s hget).1) hs
    have hgood := Shape.not_faulty_of_reach hsound (hsound name s hget) hreach
    cases hown with
    | @keys info fields _ check =>
      rcases Shape.checkKeys_cases e.protocol (info, fields) with ⟨hok, -⟩ | ⟨-, -, hfaulty, -⟩
      · cases hok.symm.trans check
      · exact absurd hfaulty (hgood _ List.mem_cons_self)
    | size unknown =>
      obtain ⟨n, hn⟩ := Option.isSome_iff_exists.1 hfinal
      simp [ArrayInfo.resolvedSize, hn] at unknown
    | mismatch unfit =>
      obtain ⟨expected, found, hcause⟩ := unfit
      obtain rfl := Fault.error.inj hcause
      rfl
    | field struct field => rfl
    | name name => rfl

namespace CodeGenerator

/-- A generator in any state comes to the verdict on a final shape, unless it estimates sizes and
a count leaves its range. -/
theorem render_verdict (g : CodeGenerator) (name : String) {s : Shape} (hs : s.IsFinal)
    (hp : s.isPrintable = true) :
    (g.method = .msgsize ∧ (g.render name s).1 = .error .overflow) ∨
      (s.verdict g.config.protocol = .ok () ∧ ∃ text, (g.render name s).1 = .ok (some text)) ∨
      ∃ fault, s.verdict g.config.protocol = .error fault ∧
        (g.render name s).1 = .error fault := by
  obtain ⟨g', hrender, -, -⟩ := g.render_eq name s
  rw [hrender]
  cases g with
  | marshal g => exact Or.inr (Marshal.render_verdict name hs hp)
  | msgsize g =>
    rcases Msgsize.render_verdict (c := g.config) name hs hp with hover | hverdict
    · exact Or.inl ⟨rfl, hover⟩
    · exact Or.inr hverdict

/-- The generators agree on every final shape: under one protocol both render it and none of its
structs is at fault, or both report the error of the first struct that is. And if some generator
renders every identity of a finalized table, no encoding fails on a declaration. -/
theorem render_agrees (d : Directives) :
    (∀ identity raw s, (Pipeline.standard d).finalize identity raw = some s →
      ∀ (name : String) (g : Generator Marshal.Pending) (g' : Generator Msgsize.Pending),
        g'.config.protocol = g.config.protocol →
        ((msgsize g').render name s).1 ≠ .error .overflow →
          ((∃ text text', ((marshal g).render name s).1 = .ok (some text) ∧
              ((msgsize g').render name s).1 = .ok (some text')) ∧
            ∀ x ∈ s.structs, ¬Shape.Faulty g.config.protocol x) ∨
          ∃ e, ((marshal g).render name s).1 = .error (.error e) ∧
            ((msgsize g').render name s).1 = .error (.error e) ∧
            s.FirstFault g.config.protocol e) ∧
    ∀ (raw : Table) (p : Protocol),
      (∀ name s, ((Pipeline.standard d).finalizeAll raw).get? name = some s →
        ∃ g : CodeGenerator, g.config.protocol = p ∧ ∃ block, (g.render name s).1 = .ok block) →
      ∀ fuse name v cause,
        (Encoder.mk ((Pipeline.standard d).finalizeAll raw) p fuse).encode name v =
          .error (.error cause) → cause.blamesDeclaration = false := by
  refine ⟨fun identity raw s hfinal name g g' hprotocol hfit => ?_,
    fun raw p hrenders fuse name v cause => ?_⟩
  · obtain ⟨hs, hp⟩ := Pipeline.isFinal_of_finalize hfinal
    have hmarshal := ((marshal g).render_verdict name hs hp).resolve_left fun h => nomatch h.1
    have hsize := ((msgsize g').render_verdict name hs hp).resolve_left fun h => hfit h.2
    change (s.verdict g.config.protocol = _ ∧ _) ∨ ∃ fault, s.verdict g.config.protocol = _ ∧ _
      at hmarshal
    change (s.verdict g'.config.protocol = _ ∧ _) ∨ ∃ fault, s.verdict g'.config.protocol = _ ∧ _
      at hsize
    rw [hprotocol] at hsize
    rcases s.verdict_cases g.config.protocol with ⟨hok, hsound⟩ | ⟨e, herror, hfirst⟩
    · rw [hok] at hmarshal hsize
      obtain ⟨-, text, htext⟩ := hmarshal.resolve_right fun ⟨_, h, _⟩ => nomatch h
      obtain ⟨-, text', htext'⟩ := hsize.resolve_right fun ⟨_, h, _⟩ => nomatch h
      exact Or.inl ⟨⟨text, text', htext, htext'⟩, hsound⟩
    · rw [herror] at hmarshal hsize
      obtain ⟨_, hfault, hrender⟩ := hmarshal.resolve_left fun h => nomatch h.1
      obtain ⟨_, hfault', hrender'⟩ := hsize.resolve_left fun h => nomatch h.1
      obtain rfl := Except.error.inj hfault
      obtain rfl := Except.error.inj hfault'
      exact Or.inr ⟨e, hrender, hrender', hfirst⟩
  · have ht := Table.isFinal_finalizeAll d raw
    refine Encoder.not_blamesDeclaration ht fun name s hget => ?_
    obtain ⟨g, rfl, block, hblock⟩ := hrenders name s hget
    obtain ⟨hs, hp⟩ := ht name s hget
    rcases s.verdict_cases g.config.protocol with ⟨-, hsound⟩ | ⟨e, herror, -⟩
    · exact hsound
    · rcases g.render_verdict name hs hp with ⟨-, hover⟩ | ⟨hok, -⟩ | ⟨fault, -, hfault⟩
      · cases hblock.symm.trans hover
      · cases hok.symm.trans herror
      · cases hblock.symm.trans hfault

/-- A struct with two structs at fault behind one that is skipped and an array of fixed size. -/
def convoy (resolved : Option Nat) (info : StructInfo) : Shape :=
  .struct { info with name := "Convoy" } [
    .mk { zid := 0, name := "draft", skip := true }
      (.struct { name := "Draft" } [.mk { name := "note" } (.ofKind .string)]),
    .mk { zid := 1, name := "lengths" } (.array ⟨"4", resolved⟩ (.ofKind .int64)),
    .mk { zid := 2, name := "cars" } (.slice (.ptr (.struct { name := "Car" } [
      .mk { zid := 7, name := "left" } (.ofKind .bool),
      .mk { zid := 7, name := "right" } (.ofKind .bool)]))),
    .mk { zid := 3, name := "rear" }
      (.struct { name := "Rear" } [.mk { name := "lamp" } (.ofKind .bool)])]

def signalTable : Table := Table.ofList [
  ("Signals", .slice (.ident "Signal")),
  ("Signal", .struct { name := "Signal" } [.mk { zid := 0, name := "lit" } (.ofKind .bool)])]

/-- The car is at fault before the rear, for both generators. -/
theorem render_convoy :
    (Pipeline.standard {}).finalize "Convoy" (convoy none { name := "" }) =
        some (convoy (some 4) { name := "", skipCount := 1 }) ∧
      ((msgsize (.new {} {})).render "Convoy" (convoy (some 4) { name := "", skipCount := 1 })).1 =
        .error (.error (.duplicateZid "Car" 7 "left" "right")) ∧
      (convoy (some 4) { name := "", skipCount := 1 }).FirstFault .fast
        (.duplicateZid "Car" 7 "left" "right") ∧
      ∀ v cause, (Encoder.mk ((Pipeline.standard {}).finalizeAll signalTable) .fast true).encode
        "Signals" v = .error (.error cause) → cause.blamesDeclaration = false := by
  obtain ⟨hagree, hencode⟩ := render_agrees {}
  have hfinal : (Pipeline.standard {}).finalize "Convoy" (convoy none { name := "" }) =
      some (convoy (some 4) { name := "", skipCount := 1 }) := rfl
  have hsize : ((msgsize (.new {} {})).render "Convoy"
      (convoy (some 4) { name := "", skipCount := 1 })).1 =
        .error (.error (.duplicateZid "Car" 7 "left" "right")) := by
    have hbody : Msgsize.body {} (convoy (some 4) { name := "", skipCount := 1 }) =
        .error (.error (.duplicateZid "Car" 7 "left" "right")) := rfl
    have hrender : Msgsize.render {} "Convoy" (convoy (some 4) { name := "", skipCount := 1 }) =
        .error (.error (.duplicateZid "Car" 7 "left" "right")) := by
      rw [Msgsize.render, hbody]
      rfl
    obtain ⟨_, hused, -, -⟩ := render_eq (msgsize (.new {} {})) "Convoy"
      (convoy (some 4) { name := "", skipCount := 1 })
    rw [hused]
    exact hrender
  refine ⟨hfinal, hsize, ?_, fun v cause => hencode signalTable .fast ?_ true "Signals" v cause⟩
  · rcases hagree _ _ _ hfinal "Convoy" (.new {} {}) (.new {} {}) rfl (by simp [hsize]) with
      ⟨⟨_, _, _, hok⟩, -⟩ | ⟨e, -, herror, hfirst⟩
    · cases hsize.symm.trans hok
    · obtain rfl := Fault.error.inj (Except.error.inj (hsize.symm.trans herror))
      exact hfirst
  · intro name s hget
    refine ⟨marshal (.new {} {}), rfl, ?_⟩
    have hverdict : s.verdict .fast = .ok () := by
      have hmem := Assoc.mem_of_get? hget
      change (name, s) ∈ [("Signals", _), ("Signal", _)] at hmem
      rcases List.mem_cons.1 hmem with hhere | hmem
      · obtain ⟨rfl, rfl⟩ := Prod.mk.inj hhere
        rfl
      · obtain ⟨rfl, rfl⟩ := Prod.mk.inj (List.mem_singleton.1 hmem)
        rfl
    obtain ⟨hs, hp⟩ := Table.isFinal_finalizeAll {} signalTable name s hget
    rcases render_verdict (marshal (.new {} {})) name hs hp with
      ⟨hmethod, -⟩ | ⟨-, text, htext⟩ | ⟨fault, hfault, -⟩
    · cases hmethod
    · exact ⟨_, htext⟩
    · cases hverdict.symm.trans hfault

end CodeGenerator

end Packwright
