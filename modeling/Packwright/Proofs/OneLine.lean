import Packwright.Proofs.Generation
import Packwright.Proofs.Statements

/-
  No line of generated code is broken. The texts in generated code are numerals, words of this
  library, quoted names, and the names of structs and fields as they stand; so if these names
  have no line break then neither has any line of an encoder (`neat_body`, `neat_companion`).
-/

namespace Packwright

/-! ## Texts -/

namespace Decimal

theorem digitChar_ne_newline {n : Nat} (h : n < 10) : digitChar n ≠ '\n' := by
  revert n
  decide

theorem newline_notMem_digits (n : Nat) : '\n' ∉ digits n := by
  fun_induction digits n with
  | case1 n h => simpa using (digitChar_ne_newline h).symm
  | case2 n h ih =>
    have hlast := (digitChar_ne_newline (Nat.mod_lt n (by omega : 0 < 10))).symm
    simpa [ih] using hlast

@[simp] theorem inline_ofNat (n : Nat) : Inline (ofNat n) := by
  simpa [Inline, ofNat] using newline_notMem_digits n

@[simp] theorem inline_ofInt (n : Int) : Inline (ofInt n) := by
  cases n <;> simp [Inline, ofInt, intDigits, newline_notMem_digits]

@[simp] theorem inline_padded (width n : Nat) : Inline (padded width n) := by
  simp [Inline, padded, newline_notMem_digits]

end Decimal

theorem digitChar_ne_newline {n : Nat} (h : n < 16) : Nat.digitChar n ≠ '\n' := by
  revert n
  decide

namespace Quoted

theorem newline_notMem_hex (n : Nat) : '\n' ∉ hex n := by
  have hcore : ∀ fuel n acc, '\n' ∉ acc → '\n' ∉ Nat.toDigitsCore 16 fuel n acc := by
    intro fuel
    induction fuel with
    | zero => exact fun n acc h => h
    | succ fuel ih =>
      intro n acc h
      have hdigit := digitChar_ne_newline (Nat.mod_lt n (by omega : 0 < 16))
      have hnext : '\n' ∉ Nat.digitChar (n % 16) :: acc := by simp [hdigit.symm, h]
      rw [Nat.toDigitsCore]
      split
      · exact hnext
      · exact ih _ _ hnext
  exact hcore _ _ _ (by simp)

theorem newline_notMem_escape (c : Char) : '\n' ∉ escape c := by
  unfold escape
  repeat' split
  all_goals simp [newline_notMem_hex]
  exact fun h => absurd h.symm ‹_›

/-- A quoted name is on one line, whatever the name is. -/
@[simp] theorem inline_quote (s : String) : Inline (quote s) := by
  simp [Inline, quote, newline_notMem_escape]

end Quoted

theorem inline_intercalate {sep : String} (hsep : Inline sep) {l : List String}
    (h : ∀ t ∈ l, Inline t) : Inline (sep.intercalate l) := by
  rw [Inline, String.toList_intercalate]
  induction l with
  | nil => simp
  | cons a rest ih =>
    obtain ⟨ha, hrest⟩ := List.forall_mem_cons.1 h
    cases rest with
    | nil => simpa using ha
    | cons b rest =>
      have htail := ih hrest
      rw [List.map_cons] at htail
      rw [List.map_cons, List.map_cons, List.intercalate_cons_cons]
      simp [ha, hsep, htail]

/-! ## Expressions -/

@[simp] theorem inline_localSuffix (number : Nat) : Inline (localSuffix number) :=
  Decimal.inline_padded 4 number

theorem Local.inline_text {l : Local} (h : Inline l.stem) : Inline l.text :=
  inline_append.2 ⟨h, inline_localSuffix _⟩

namespace Tally

@[simp] theorem inline_flags (t : Tally) : Inline t.flags := by
  cases t <;> simp [Inline, flags]

@[simp] theorem inline_count (t : Tally) : Inline t.count := by
  cases t <;> simp [Inline, count]

@[simp] theorem inline_flag (t : Tally) (index : Nat) : Inline (t.flag index) := by
  simp [Inline, flag]

end Tally

namespace Var

variable {v : Var}

theorem inline_value (h : Inline v.place.text) : Inline v.value := by
  unfold value
  split <;> simp [Inline, h]

theorem inline_reference (h : Inline v.place.text) : Inline v.reference := by
  unfold reference
  split <;> simp [Inline, h]

theorem inline_field (h : Inline v.place.text) {name : String} (hname : Inline name) :
    Inline (v.field name).place.text := by
  simp [Inline, field, Place.text, h, hname]

end Var

namespace Arg

variable {v : Var}

theorem inline_converted {type : String} (ht : Inline type) (hv : Inline v.value) :
    Inline (converted type v).text := by
  change Inline (type ++ "::from(" ++ v.value ++ ")")
  simp [Inline, ht, hv]

theorem inline_asText (hv : Inline v.reference) : Inline (asText v).text := by
  change Inline ("AsRef::<str>::as_ref(" ++ v.reference ++ ")")
  simp [Inline, hv]

theorem inline_asBytes (hv : Inline v.reference) : Inline (asBytes v).text := by
  change Inline ("AsRef::<[u8]>::as_ref(" ++ v.reference ++ ")")
  simp [Inline, hv]

end Arg

namespace BaseInfo

/-- Only scalars that are passed by value are converted by the name of a type, and these have
types of their own. -/
theorem inline_underlying {info : BaseInfo} (h : info.kind.isCopy = true) :
    Inline info.underlying := by
  obtain ⟨kind, typeName, needsConversion⟩ := info
  cases kind <;> simp [Kind.isCopy, Kind.isSigned, Kind.isUnsigned, Kind.isFloat] at h <;>
    simp [Inline, underlying, Kind.nativeType?]

theorem arg_cases (info : BaseInfo) (v : Var) :
    (info.kind.isCopy = true ∧ info.arg v = .converted info.underlying v) ∨
      info.arg v = .value v ∨ info.arg v = .asText v ∨ info.arg v = .asBytes v ∨
      info.arg v = .reference v := by
  unfold arg
  cases info.kind.isCopy <;> cases info.needsConversion <;> cases info.kind <;> simp

theorem inline_arg (info : BaseInfo) {v : Var} (h : Inline v.place.text) :
    Inline (info.arg v).text := by
  have hvalue := v.inline_value h
  have hreference := v.inline_reference h
  obtain ⟨hcopy, harg⟩ | harg | harg | harg | harg := info.arg_cases v
  · rw [harg]
    exact Arg.inline_converted (inline_underlying hcopy) hvalue
  · rw [harg]
    exact hvalue
  · rw [harg]
    exact Arg.inline_asText hreference
  · rw [harg]
    exact Arg.inline_asBytes hreference
  · rw [harg]
    exact hreference

end BaseInfo

namespace Condition

theorem inline_operand (s : Shape) {v : Var} (h : Inline v.place.text) :
    Inline (operand s v).text := by
  unfold operand
  split
  · split
    · exact BaseInfo.inline_arg _ h
    · exact h
  · exact h

theorem inline_of? {s : Shape} {v : Var} (h : Inline v.place.text) {test : Condition}
    (htest : of? s v = some test) : Inline test.text := by
  have hoperand := inline_operand s h
  unfold of? at htest
  split at htest
  · cases htest
  · obtain rfl := Option.some.inj htest
    cases isFloat s <;> simp [Inline, text, hoperand]
  all_goals
    obtain rfl := Option.some.inj htest
    simp [Inline, text, hoperand, h]

end Condition

/-- The names of a struct and of its fields have no line break. -/
def InlineNames : Shape → Prop
  | .struct info fields => Inline info.name ∧ ∀ f ∈ fields, Inline f.info.name
  | _ => True

theorem inline_of_plan {p : Protocol} {info : StructInfo} {fields : List Field} {l : Layout}
    (hnames : InlineNames (.struct info fields)) (h : Layout.plan p info fields = .ok l) :
    Inline l.name ∧ ∀ slot ∈ l.slots, Inline slot.field.info.name := by
  rw [(Layout.of_plan h).1]
  refine ⟨hnames.1, fun slot hslot => hnames.2 _ ?_⟩
  exact (List.mem_filter.1 (Layout.mem_liveFields_of_plan h hslot)).1

theorem Kind.inline_primitive (k : Kind) : Inline k.primitive := by
  cases k <;> simp [Inline, primitive, word]

/-! ## Lines -/

/-- What the head of a block takes from elsewhere has no line break. -/
def Head.Tidy : Head → Prop
  | items item source => Inline item.stem ∧ Inline source.text
  | entries _ source => Inline source.text
  | _ => True

theorem Head.Tidy.inline_text {head : Head} (h : head.Tidy) : Inline head.text := by
  cases head with
  | items item source =>
    have hitem := item.inline_text h.1
    simp [Inline, text, hitem, h.2]
  | entries number source =>
    have hkey := (keyLocal number).inline_text (by simp [Inline, keyLocal])
    have hvalue := (valueLocal number).inline_text (by simp [Inline, valueLocal])
    have hsource : Inline source.text := h
    simp [Inline, text, hkey, hvalue, hsource]
  | ifFlag t index => simp [Inline, text]
  | unlessFlag t index => simp [Inline, text]

namespace Marshal

/-- What a note takes from elsewhere has no line break; a quoted name has none in any case. -/
def Note.Tidy : Note → Prop
  | typeIdentification struct => Inline struct
  | _ => True

theorem Note.Tidy.inline_text {note : Note} (h : note.Tidy) : Inline note.text := by
  unfold Note.text
  cases note with
  | typeIdentification struct =>
    have hstruct : Inline struct := h
    simp [Inline, hstruct]
  | _ => simp [Inline]

theorem inline_byteList (bytes : Bytes) : Inline (byteList bytes) := by
  refine inline_intercalate (by simp [Inline]) fun t ht => ?_
  obtain ⟨b, -, rfl⟩ := List.mem_map.1 ht
  have hb : b.toNat < 256 := b.toNat_lt
  have hhi := digitChar_ne_newline (n := b.toNat / 16) (by omega)
  have hlo := digitChar_ne_newline (n := b.toNat % 16) (by omega)
  simp [Inline, hhi.symm, hlo.symm]

/-- What a line takes from elsewhere has no line break. -/
def Line.Tidy : Line → Prop
  | comment text => Inline text
  | notes run => ∀ note ∈ run, note.Tidy
  | setFlag _ _ (some test) => Inline test.text
  | mapHeader source | arrayHeader source | byteArray source | delegate source => Inline source.text
  | mapKey _ key => Inline key.stem
  | scalar _ arg => Inline arg.text
  | _ => True

theorem Line.Tidy.inline_text {l : Line} (h : l.Tidy) : Inline l.text := by
  unfold Line.text
  cases l with
  | comment text =>
    have htext : Inline text := h
    simp [Inline, Writer.commentText, htext]
  | notes run =>
    have hrun : Inline ("; ".intercalate (run.map Note.text)) := by
      refine inline_intercalate (by simp [Inline]) fun t ht => ?_
      obtain ⟨note, hnote, rfl⟩ := List.mem_map.1 ht
      exact (h note hnote).inline_text
    simp only [Writer.commentText]
    exact inline_append.2 ⟨by simp [Inline], hrun⟩
  | literal bytes =>
    have hbytes := inline_byteList bytes
    simp [Inline, hbytes]
  | setFlag t index test =>
    cases test with
    | none => simp [Inline]
    | some test =>
      have htest : Inline test.text := h
      simp [Inline, htest]
  | structHeader t identified => cases identified <;> simp [Inline]
  | mapKey kind key =>
    have hkey := key.inline_text h
    cases kind <;> simp [Inline, hkey]
  | mapHeader source | arrayHeader source | byteArray source | delegate source =>
    have hsource : Inline source.text := h
    simp [Inline, hsource]
  | scalar kind arg =>
    have harg : Inline arg.text := h
    have hprimitive := kind.inline_primitive
    by_cases hkind : kind.isDelegated = true <;> simp [Inline, hprimitive, harg, hkind]
  | _ => simp [Inline]

/-- No line of the code is broken. -/
def Neat (code : Body) : Prop := ∀ t ∈ Code.linesAll Line.text code, Inline t

theorem Neat.append {a b : Body} (ha : Neat a) (hb : Neat b) : Neat (a ++ b) := by
  unfold Neat
  rw [Code.linesAll_append]
  exact List.forall_mem_append.2 ⟨ha, hb⟩

theorem neat_nil : Neat [] := fun _ h => absurd h List.not_mem_nil

theorem neat_line (l : Line) (h : l.Tidy) : Neat [.line l] := by
  intro t ht
  rw [List.mem_singleton.1 ht]
  exact h.inline_text

theorem neat_block (head : Head) (hhead : head.Tidy) {body : Body} (hbody : Neat body) :
    Neat [.block head body] := by
  have hopen : Inline (head.text ++ " \x7b") :=
    inline_append.2 ⟨hhead.inline_text, by simp [Inline]⟩
  simp only [Neat, Code.linesAll, Code.lines, List.append_nil, List.forall_mem_cons,
    List.forall_mem_append]
  exact ⟨hopen, hbody, by simp [Inline], fun _ h => absurd h List.not_mem_nil⟩

theorem neat_optional {name : Local} (hname : Inline name.stem) {source : Var}
    (hsource : Inline source.place.text) {body orElse : Body} (hbody : Neat body)
    (hor : Neat orElse) : Neat [.optional name source body orElse] := by
  have hopen : Inline (Code.presentHead name source ++ " \x7b") := by
    have hlocal := name.inline_text hname
    have hreference := source.inline_reference hsource
    simp [Inline, Code.presentHead, hlocal, hreference]
  simp only [Neat, Code.linesAll, Code.lines, List.append_nil, List.forall_mem_cons,
    List.forall_mem_append]
  exact ⟨hopen, hbody, by simp [Inline, Code.otherwise], hor, by simp [Inline],
    fun _ h => absurd h List.not_mem_nil⟩

theorem neat_flatMap {α : Type} {f : α → Body} {l : List α} (h : ∀ a ∈ l, Neat (f a)) :
    Neat (l.flatMap f) := by
  induction l with
  | nil => exact neat_nil
  | cons a rest ih =>
    obtain ⟨ha, hrest⟩ := List.forall_mem_cons.1 h
    exact ha.append (ih hrest)

theorem neat_checks {layout : Layout} {v : Var} (hv : Inline v.place.text)
    (hslots : ∀ slot ∈ layout.slots, Inline slot.field.info.name) (t : Tally) :
    Neat (checks layout v t) := by
  refine neat_flatMap fun slot hslot => ?_
  have hfield := v.inline_field hv (hslots slot (List.mem_filter.1 hslot).1)
  split
  · rename_i test htest
    have hset := neat_line (.setFlag t slot.index (some test)) (Condition.inline_of? hfield htest)
    exact hset.append (neat_block (.ifFlag t slot.index) trivial (neat_line (.decrement t) trivial))
  · exact neat_line (.setFlag t slot.index none) trivial

/-! ## Encoders -/

/-- The notes that are held back are tidy. -/
def Pending.Tidy (p : Pending) : Prop := ∀ note ∈ p.notes, note.Tidy

/-- If a step of a generator succeeds then its result has a property, and notes stay tidy. -/
def Keeps {α : Type} (x : Emit α) (Q : α → Prop) : Prop :=
  ∀ p a p', p.Tidy → x p = .ok (a, p') → Q a ∧ p'.Tidy

namespace Keeps

variable {α β : Type} {Q : α → Prop} {R : β → Prop} {x : Emit α} {f : α → Emit β}

theorem pure {a : α} (h : Q a) : Keeps (pure a) Q := by
  intro p b p' hp hrun
  obtain ⟨rfl, rfl⟩ := run_pure_eq_ok hrun
  exact ⟨h, hp⟩

theorem bind (hx : Keeps x Q) (hf : ∀ a, Q a → Keeps (f a) R) : Keeps (x >>= f) R := by
  intro p b p' hp hrun
  obtain ⟨a, q, h₁, h₂⟩ := run_bind_eq_ok hrun
  obtain ⟨ha, hq⟩ := hx p a q hp h₁
  exact hf a ha q b p' hq h₂

theorem lift {e : Except Fault α} (h : ∀ a, e = .ok a → Q a) :
    Keeps (liftM e : Emit α) Q := by
  intro p b p' hp hrun
  obtain ⟨he, rfl⟩ := run_lift_eq_ok hrun
  exact ⟨h b he, hp⟩

theorem append {x y : Emit Body} (hx : Keeps x Neat) (hy : Keeps y Neat) :
    Keeps (do let a ← x; return a ++ (← y)) Neat :=
  hx.bind fun _ ha => hy.bind fun _ hb => .pure (ha.append hb)

end Keeps

theorem keeps_drawName : Keeps drawName fun _ => True := by
  intro p n p' hp hrun
  obtain rfl := (Prod.mk.inj (Except.ok.inj hrun)).2
  exact ⟨trivial, hp⟩

theorem keeps_flush : Keeps flush Neat := by
  intro p code p' hp hrun
  rw [flush_eq] at hrun
  obtain ⟨rfl, rfl⟩ := Prod.mk.inj (Except.ok.inj hrun)
  refine ⟨?_, fun _ h => absurd h List.not_mem_nil⟩
  have hliteral := neat_line (.literal p.fusion.pending) trivial
  split
  · exact neat_nil
  · split
    · exact hliteral
    · exact (neat_line (.notes p.notes) hp).append hliteral

theorem keeps_constant (c : Config) (note : Note) (h : note.Tidy) (bytes : Bytes) :
    Keeps (constant c note bytes) Neat := by
  refine Keeps.bind (Q := fun _ => True) ?_ fun _ _ => ?_
  · intro p a p' hp hrun
    obtain rfl := (Prod.mk.inj (Except.ok.inj hrun)).2
    exact ⟨trivial, List.forall_mem_append.2 ⟨hp, List.forall_mem_singleton.2 h⟩⟩
  · split
    · exact .pure neat_nil
    · exact keeps_flush

theorem keeps_dynamic (l : Line) (h : l.Tidy) : Keeps (dynamic l) Neat :=
  keeps_flush.bind fun _ hb => .pure (hb.append (neat_line l h))

theorem keeps_block (head : Head) (hhead : head.Tidy) {body : Emit Body} (h : Keeps body Neat) :
    Keeps (block head body) Neat :=
  keeps_flush.bind fun _ hbefore => h.bind fun _ hinside => keeps_flush.bind fun _ hafter =>
    .pure (hbefore.append (neat_block head hhead (hinside.append hafter)))

theorem tidy_slotNote (layout : Layout) (slot : Slot) : (slotNote layout slot).Tidy := by
  unfold slotNote
  split <;> trivial

theorem keeps_slotCode (c : Config) (layout : Layout) (t : Tally) (slot : Slot)
    {value : Emit Body} (h : Keeps value Neat) : Keeps (slotCode c layout t slot value) Neat := by
  have hentry : Keeps (entryCode c layout slot value) Neat :=
    (keeps_constant c _ (tidy_slotNote layout slot) slot.key).append h
  by_cases hm : layout.mode = .tuple
  · rwa [slotCode_tuple hm]
  · rw [slotCode_entry hm]
    split
    · exact keeps_block (.unlessFlag t slot.index) trivial hentry
    · exact hentry

theorem keeps_tallyCode {layout : Layout} {v : Var} (hv : Inline v.place.text)
    (hslots : ∀ slot ∈ layout.slots, Inline slot.field.info.name) (isTop : Bool) :
    Keeps (tallyCode layout v isTop) fun r => Neat r.2 := by
  have hintro : Neat [.line .blank, .line (.comment "honor the omitempty tags")] :=
    (neat_line .blank trivial).append (neat_line (.comment _) (by simp [Line.Tidy, Inline]))
  have hflags (t : Tally) := neat_line (.declareFlags t layout.declared) trivial
  refine keeps_flush.bind fun before hbefore => ?_
  split
  · have hcompute := neat_line (.computeTally .outer) trivial
    exact .pure ((hbefore.append hintro).append ((hflags .outer).append hcompute))
  · refine keeps_drawName.bind fun number _ => .pure ?_
    have hcount := neat_line (.declareCount (.nested number) layout.live) trivial
    exact ((hbefore.append hintro).append ((hflags (.nested number)).append hcount)).append
      (neat_checks hv hslots (.nested number))

theorem keeps_structCode {c : Config} {info : StructInfo} {fields : List Field}
    (hnames : InlineNames (.struct info fields)) {v : Var} (hv : Inline v.place.text)
    (isTop : Bool) {slots : Layout → Tally → Emit Body}
    (hslots : ∀ layout t, Keeps (slots layout t) Neat) :
    Keeps (structCode c info fields v isTop slots) Neat := by
  refine Keeps.bind (.lift fun l hl => inline_of_plan hnames hl) fun layout hlayout => ?_
  obtain ⟨hname, hfields⟩ := hlayout
  have hidentification : Keeps (identification c layout) Neat := by
    unfold identification
    split
    · exact keeps_constant c (.typeIdentification layout.name) hname _
    · exact .pure neat_nil
  split
  · exact (keeps_constant c (.arrayHeader layout.live) trivial _).append (hslots layout .outer)
  · exact (keeps_constant c (.mapHeader layout.live) trivial _).append (hslots layout .outer)
  · refine (keeps_tallyCode hv hfields isTop).bind fun r hr => ?_
    obtain ⟨t, tally⟩ := r
    refine hidentification.bind fun entry hentry => (hslots layout t).bind fun rest hrest =>
      .pure ?_
    have hheader := neat_line (.structHeader t (layout.mode == .fast)) trivial
    exact ((hr.append hheader).append hentry).append hrest

theorem keeps_fieldsCode {c : Config} (layout : Layout) (t : Tally) {v : Var}
    (hv : Inline v.place.text) {fields : List Field}
    (hnames : ∀ f ∈ fields, Inline f.info.name)
    (h : ∀ f ∈ fields, ∀ v : Var, Inline v.place.text → Keeps (shapeCode c f.value v) Neat)
    (index : Nat) : Keeps (fieldsCode c layout t v fields index) Neat := by
  induction fields generalizing index with
  | nil => exact .pure neat_nil
  | cons f rest ih =>
    obtain ⟨info, value⟩ := f
    obtain ⟨hname, hnames⟩ := List.forall_mem_cons.1 hnames
    obtain ⟨hvalue, h⟩ := List.forall_mem_cons.1 h
    unfold fieldsCode
    split
    · exact ih hnames h (index + 1)
    · exact (keeps_slotCode c layout t _ (hvalue _ (v.inline_field hv hname))).append
        (ih hnames h (index + 1))

/-- No line of the code of a shape is broken. -/
theorem keeps_shapeCode {c : Config} {s : Shape} (hs : s.Everywhere InlineNames) {v : Var}
    (hv : Inline v.place.text) : Keeps (shapeCode c s v) Neat := by
  induction s generalizing v with
  | struct info fields ih =>
    exact keeps_structCode hs.here hv false fun layout t =>
      keeps_fieldsCode layout t hv hs.here.2 (fun f hf v hv => ih f hf (hs.field hf) hv) 0
  | map key value ih =>
    refine keeps_drawName.bind fun number _ => ?_
    have hlocal := (valueLocal number).inline_text (by simp [Inline, valueLocal])
    have hkey : Inline (keyLocal number).stem := by simp [Inline, keyLocal]
    have hbody := (keeps_dynamic (.mapKey key (keyLocal number)) hkey).append
      (ih hs.2 (v := .ofLocal _) hlocal)
    exact (keeps_dynamic (.mapHeader v.place) hv).append
      (keeps_block (.entries number v.place) hv hbody)
  | slice element ih =>
    refine keeps_drawName.bind fun number _ => ?_
    have hstem : Inline "za" := by simp [Inline]
    have hlocal := Local.inline_text (l := ⟨"za", number⟩) hstem
    exact (keeps_dynamic (.arrayHeader v.place) hv).append
      (keeps_block (.items ⟨"za", number⟩ v.place) ⟨hstem, hv⟩ (ih hs.2 (v := .ofLocal _) hlocal))
  | array info element ih =>
    refine Keeps.bind (.lift fun _ _ => trivial) fun size _ => ?_
    split
    · exact keeps_dynamic (.byteArray v.place) hv
    · refine (keeps_constant c (.arrayHeader size) trivial _).bind fun header hheader => ?_
      refine keeps_drawName.bind fun number _ => ?_
      have hstem : Inline "za" := by simp [Inline]
      have hlocal := Local.inline_text (l := ⟨"za", number⟩) hstem
      have hloop := keeps_block (.items ⟨"za", number⟩ v.place) ⟨hstem, hv⟩
        (ih hs.2 (v := .ofLocal _) hlocal)
      exact hloop.bind fun loop hloop => .pure (hheader.append hloop)
  | ptr pointee ih =>
    refine keeps_drawName.bind fun number _ => ?_
    have hstem : Inline "zp" := by simp [Inline]
    have hlocal := Local.inline_text (l := ⟨"zp", number⟩) hstem
    refine keeps_flush.bind fun before hbefore => ?_
    refine (ih hs.2 (v := .ofLocal _) hlocal).bind fun value hvalue => ?_
    refine keeps_flush.bind fun after hafter => ?_
    refine (keeps_constant c .nil trivial _).bind fun absent habsent => ?_
    refine keeps_flush.bind fun rest hrest => .pure ?_
    exact hbefore.append (neat_optional hstem hv (hvalue.append hafter) (habsent.append hrest))
  | base info =>
    unfold shapeCode scalarCode
    split
    · exact keeps_dynamic (.delegate v.place) hv
    · exact keeps_dynamic (.scalar info.kind (.reference v)) (v.inline_reference hv)
    · exact keeps_dynamic (.scalar info.kind (.reference v)) (v.inline_reference hv)
    · exact keeps_dynamic (.scalar info.kind (info.arg v)) (info.inline_arg hv)

/-- No line of an encoder is broken. -/
theorem neat_body {c : Config} {s : Shape} (hs : s.Everywhere InlineNames) {code : Body}
    (h : body c s = .ok code) : Neat code := by
  have hidentity : Keeps (identityCode c s) Neat := by
    obtain ⟨info, fields, rfl⟩ | hw := s.struct_or
    · have hself : Inline (Var.mk .self false).place.text := by simp [Inline, Place.text]
      refine Keeps.append ?_ keeps_flush
      exact keeps_structCode hs.here hself true fun layout t =>
        keeps_fieldsCode layout t hself hs.here.2
          (fun f hf v hv => keeps_shapeCode (hs.field hf) hv) 0
    · have hreceiver : Inline (Var.receiver s).place.text := by
        cases s with
        | struct info fields => exact absurd rfl (hw info fields)
        | _ => simp [Inline, Var.receiver, Place.text]
      rw [identityCode_wrapped c hw]
      exact (keeps_shapeCode hs hreceiver).append keeps_flush
  obtain ⟨p, hp⟩ := exists_of_run' h
  exact (hidentity _ _ _ (fun _ h => absurd h List.not_mem_nil) hp).1

/-- No line of a companion is broken. -/
theorem neat_companion {c : Config} {s : Shape} (hs : s.Everywhere InlineNames) {code : Body}
    (h : companion c s = .ok (some code)) : Neat code := by
  unfold companion at h
  split at h
  · rename_i info fields
    obtain ⟨layout, hlayout, h⟩ := bind_eq_ok h
    obtain ⟨-, hfields⟩ := inline_of_plan hs.here hlayout
    have hself : Inline (Var.mk .self false).place.text := by simp [Inline, Place.text]
    split at h
    · obtain rfl := Option.some.inj (Except.ok.inj h)
      have hchecks := neat_checks hself hfields .computed
      exact ((neat_line (.declareCount .computed layout.live) trivial).append hchecks).append
        (neat_line (.giveCount .computed) trivial)
    · cases h
  · cases h

end Marshal

end Packwright
