import Packwright.Proofs.OneLine
import Packwright.Proofs.Reading

/-
  The comments above constant bytes. They quote field names with escapes, so a field name cannot
  break a comment, whatever it is. The name of a struct stands in its type identification as it is,
  so a comment stays on one line exactly when the structs that it identifies have names without a
  line break (`oneComment_notes_iff`). Notes are held back with the bytes they are about and
  written with them, so the structs that the comments of an encoder identify are, in order, the
  structs of its shape that are written with a type identification (`structs_body`).
-/

namespace Packwright

/-! ## What lines of code note -/

namespace Marshal

/-- The struct whose type a note identifies. -/
def Note.struct? : Note → Option String
  | typeIdentification struct => some struct
  | _ => none

/-- The structs whose types notes identify. -/
def structsOf (run : List Note) : List String := run.filterMap Note.struct?

/-- The structs whose types a comment identifies. -/
def Line.structs : Line → List String
  | notes run => structsOf run
  | _ => []

/-- The structs whose types the comments of code identify. -/
def structsIn (code : Body) : List String := (Code.leavesAll code).flatMap Line.structs

@[simp] theorem structsIn_nil : structsIn [] = [] := rfl

@[simp] theorem structsIn_append (a b : Body) :
    structsIn (a ++ b) = structsIn a ++ structsIn b := by
  simp [structsIn]

@[simp] theorem structsIn_line (l : Line) (rest : Body) :
    structsIn (.line l :: rest) = l.structs ++ structsIn rest := by
  simp [structsIn, Code.leaves]

@[simp] theorem structsIn_block (head : Head) (body rest : Body) :
    structsIn (.block head body :: rest) = structsIn body ++ structsIn rest := by
  simp [structsIn, Code.leaves]

@[simp] theorem structsIn_optional (name : Local) (source : Var) (body orElse rest : Body) :
    structsIn (.optional name source body orElse :: rest) =
      structsIn body ++ structsIn orElse ++ structsIn rest := by
  simp [structsIn, Code.leaves]

/-! ## One comment -/

/-- All of a line is one comment: the slashes stand in front of it, and it has no line break. -/
def Line.OneComment (l : Line) : Prop :=
  ∀ w : Writer, ∃ t, (Line.write w l).text =
    w.text ++ w.indent.text w.depth ++ Writer.commentText t ++ "\n" ∧ Inline t

theorem inline_intercalate_iff {sep : String} (hsep : Inline sep) {l : List String} :
    Inline (sep.intercalate l) ↔ ∀ t ∈ l, Inline t := by
  refine ⟨fun h => ?_, inline_intercalate hsep⟩
  rw [Inline, String.toList_intercalate] at h
  induction l with
  | nil => exact List.forall_mem_nil _
  | cons a rest ih =>
    cases rest with
    | nil => simpa using h
    | cons b rest =>
      rw [List.map_cons, List.map_cons, List.intercalate_cons_cons] at h
      simp only [List.mem_append, not_or] at h
      exact List.forall_mem_cons.2 ⟨h.1.1, ih h.2⟩

theorem Note.inline_text_iff (note : Note) : Inline note.text ↔ note.Tidy := by
  refine ⟨fun h => ?_, Tidy.inline_text⟩
  cases note with
  | typeIdentification struct =>
    have hquoted : Inline ("runtime struct type identification for '" ++ struct ++ "'") := h
    exact (inline_append.1 (inline_append.1 hquoted).1).2
  | _ => trivial

theorem Note.tidy_iff (note : Note) : note.Tidy ↔ ∀ struct ∈ note.struct?, Inline struct := by
  cases note <;> simp [Tidy, struct?]

theorem write_notes (w : Writer) (run : List Note) :
    (Line.write w (.notes run)).text = w.text ++ w.indent.text w.depth ++
      Writer.commentText ("; ".intercalate (run.map Note.text)) ++ "\n" := by
  have hne : (Writer.commentText ("; ".intercalate (run.map Note.text))).isEmpty = false := by
    rw [Writer.commentText, Bool.eq_false_iff, ne_eq, String.isEmpty_iff]
    intro h
    have hlength := congrArg String.length h
    simp at hlength
  show (w.line (Writer.commentText _)).text = _
  rw [Writer.line, hne]
  rfl

/-- A comment above constant bytes stays on one line exactly when the structs that it identifies
have names without a line break. -/
theorem oneComment_notes_iff (run : List Note) :
    (Line.notes run).OneComment ↔ ∀ struct ∈ structsOf run, Inline struct := by
  have htext : Inline ("; ".intercalate (run.map Note.text)) ↔
      ∀ struct ∈ structsOf run, Inline struct := by
    rw [inline_intercalate_iff (by simp [Inline]), List.forall_mem_map]
    simp only [Note.inline_text_iff, Note.tidy_iff, structsOf, List.mem_filterMap]
    constructor
    · rintro h struct ⟨note, hnote, hstruct⟩
      exact h note hnote struct hstruct
    · exact fun h note hnote struct hstruct => h struct ⟨note, hnote, hstruct⟩
  rw [← htext]
  constructor
  · intro h
    obtain ⟨t, hwrite, ht⟩ := h (.new .tabs)
    rw [write_notes] at hwrite
    have hsame := congrArg String.toList hwrite
    simp only [String.toList_append, List.append_left_inj, List.append_right_inj,
      Writer.commentText] at hsame
    rwa [Inline, hsame]
  · exact fun h w => ⟨_, write_notes w run, h⟩

/-! ## The structs of an encoder -/

end Marshal

mutual

/-- The structs of a shape that are written with a type identification, each before those inside
it. -/
def Shape.identified (p : Protocol) : Shape → List String
  | .struct info fields =>
    (if Layout.modeOf info p = .fast then [info.name] else []) ++ identifiedFields p fields
  | .map _ value => value.identified p
  | .slice element => element.identified p
  | .array _ element => element.identified p
  | .ptr pointee => pointee.identified p
  | .base _ => []

/-- The structs in live fields that are written with a type identification. -/
def Shape.identifiedFields (p : Protocol) : List Field → List String
  | [] => []
  | .mk info value :: rest =>
    (if info.skip then [] else value.identified p) ++ identifiedFields p rest

end

namespace Marshal

/-- Notes are only held back together with bytes. -/
def Pending.Backed (p : Pending) : Prop := p.fusion.pending = [] → p.notes = []

/-- If a step of a generator succeeds then, of the structs identified by what was held back and of
those given here, its result accounts for the first ones, and the rest is held back. -/
def Identifies {α : Type} (x : Emit α) (Q : α → List String → Prop) (structs : List String) :
    Prop :=
  ∀ p a p', p.Backed → x p = .ok (a, p') → p'.Backed ∧
    ∃ written, Q a written ∧ written ++ structsOf p'.notes = structsOf p.notes ++ structs

/-- The comments of code identify these structs. -/
def Notes (code : Body) (structs : List String) : Prop := structsIn code = structs

namespace Identifies

variable {α β : Type} {Q : α → List String → Prop} {R : β → List String → Prop} {x : Emit α}
  {f : α → Emit β} {structs more : List String}

theorem of_eq (h : Identifies x Q structs) (heq : structs = more) : Identifies x Q more := heq ▸ h

theorem pure {a : α} (h : Q a []) : Identifies (pure a) Q [] := by
  intro p b p' hp hrun
  obtain ⟨rfl, rfl⟩ := run_pure_eq_ok hrun
  exact ⟨hp, [], h, by simp⟩

theorem bind (hx : Identifies x Q structs)
    (hf : ∀ a written, Q a written → Identifies (f a) (fun b rest => R b (written ++ rest)) more) :
    Identifies (x >>= f) R (structs ++ more) := by
  intro p b p' hp hrun
  obtain ⟨a, q, hfirst, hsecond⟩ := run_bind_eq_ok hrun
  obtain ⟨hq, written, ha, haccount⟩ := hx p a q hp hfirst
  obtain ⟨hp', rest, hb, hrest⟩ := hf a written ha q b p' hq hsecond
  refine ⟨hp', written ++ rest, hb, ?_⟩
  rw [List.append_assoc, hrest, ← List.append_assoc, haccount, List.append_assoc]

theorem lift {e : Except Fault α} (h : ∀ a, e = .ok a → Q a []) :
    Identifies (liftM e : Emit α) Q [] := by
  intro p b p' hp hrun
  obtain ⟨he, rfl⟩ := run_lift_eq_ok hrun
  exact ⟨hp, [], h b he, by simp⟩

theorem append {x y : Emit Body} (hx : Identifies x Notes structs) (hy : Identifies y Notes more) :
    Identifies (do let a ← x; return a ++ (← y)) Notes (structs ++ more) :=
  (hx.bind fun _ _ ha => hy.bind fun _ _ hb => .pure (by simp_all [Notes])).of_eq (by simp)

end Identifies

theorem identifies_drawName : Identifies drawName (fun _ written => written = []) [] := by
  intro p n p' hp hrun
  obtain rfl := (Prod.mk.inj (Except.ok.inj hrun)).2
  exact ⟨hp, [], rfl, by simp⟩

/-- What is held back is written. -/
theorem identifies_flush : Identifies flush Notes [] := by
  intro p code p' hp hrun
  rw [flush_eq] at hrun
  obtain ⟨rfl, rfl⟩ := Prod.mk.inj (Except.ok.inj hrun)
  refine ⟨fun _ => rfl, structsOf p.notes, ?_, by simp [structsOf]⟩
  split
  · rename_i hempty
    rw [hp (List.isEmpty_iff.1 hempty)]
    rfl
  · split
    · rename_i hnotes
      rw [List.isEmpty_iff.1 hnotes]
      rfl
    · simp [Notes, Line.structs]

theorem identifies_constant (c : Config) (note : Note) {bytes : Bytes} (hbytes : bytes ≠ []) :
    Identifies (constant c note bytes) Notes (structsOf [note]) := by
  have hmodify : Identifies
      (modify fun p => { p with fusion := p.fusion.append bytes, notes := p.notes ++ [note] })
      (fun (_ : PUnit) written => written = []) (structsOf [note]) := by
    intro p a p' hp hrun
    obtain rfl := (Prod.mk.inj (Except.ok.inj hrun)).2
    refine ⟨fun h => absurd h (by simp [Fusion.append, hbytes]), [], rfl, ?_⟩
    simp [structsOf]
  refine (hmodify.bind fun _ written hwritten => ?_).of_eq (List.append_nil _)
  subst hwritten
  split
  · exact .pure rfl
  · exact identifies_flush

theorem identifies_dynamic {l : Line} (h : l.structs = []) : Identifies (dynamic l) Notes [] :=
  identifies_flush.bind fun code written hcode => .pure (by simp_all [Notes])

theorem identifies_block {structs : List String} (head : Head) {body : Emit Body}
    (h : Identifies body Notes structs) : Identifies (block head body) Notes structs :=
  (identifies_flush.bind fun _ _ hbefore => h.bind fun _ _ hinside =>
    identifies_flush.bind fun _ _ hafter => .pure (by simp_all [Notes])).of_eq (by simp)

theorem structsOf_slotNote (layout : Layout) (slot : Slot) :
    structsOf [slotNote layout slot] = [] := by
  unfold slotNote
  split <;> rfl

theorem identifies_slotCode {structs : List String} (c : Config) (layout : Layout) (t : Tally)
    (slot : Slot) (hkey : layout.mode ≠ .tuple → slot.key ≠ []) {value : Emit Body}
    (h : Identifies value Notes structs) :
    Identifies (slotCode c layout t slot value) Notes structs := by
  by_cases hm : layout.mode = .tuple
  · rwa [slotCode_tuple hm]
  · have hentry : Identifies (entryCode c layout slot value) Notes structs :=
      ((identifies_constant c (slotNote layout slot) (hkey hm)).append h).of_eq
        (by rw [structsOf_slotNote, List.nil_append])
    rw [slotCode_entry hm]
    split
    · exact identifies_block _ hentry
    · exact hentry

theorem structsIn_checks (layout : Layout) (v : Var) (t : Tally) :
    structsIn (checks layout v t) = [] := by
  unfold checks
  induction layout.slots.filter Slot.conditional with
  | nil => rfl
  | cons slot rest ih =>
    rw [List.flatMap_cons, structsIn_append, ih, List.append_nil]
    split <;> simp [Line.structs]

theorem identifies_tallyCode (layout : Layout) (v : Var) (isTop : Bool) :
    Identifies (tallyCode layout v isTop) (fun r => Notes r.2) [] := by
  refine identifies_flush.bind fun before _ hbefore => ?_
  split
  · exact .pure (by simp_all [Notes, Line.structs])
  · refine identifies_drawName.bind fun number _ hnumber => .pure ?_
    simp_all [Notes, Line.structs, structsIn_checks]

end Marshal

namespace Layout

variable {p : Protocol} {info : StructInfo} {fields : List Field} {l : Layout}

/-- A layout has a header if its mode has one, and the entry that identifies the type in the fast
mode alone. -/
theorem constants_of_plan (h : plan p info fields = .ok l) :
    (l.mode.isDynamic = false → l.header.getD [] ≠ []) ∧
      l.fingerprint = (if l.mode = .fast then some (Wire.fingerprint info.name) else none) := by
  rw [(of_plan h).2.1]
  obtain ⟨live, -, hl⟩ := bind_eq_ok h
  have harray := Wire.ne_nil_of_readToken (Wire.readToken_arrayHeader (UInt32.ofNat live))
  have hmap := Wire.ne_nil_of_readToken (Wire.readToken_mapHeader (UInt32.ofNat live))
  cases hm : modeOf info p <;> simp only [hm] at hl
  all_goals
    split at hl
    · split at hl
      · obtain rfl := Except.ok.inj hl
        simp [Mode.isDynamic, harray, hmap]
      · cases hl
    · obtain rfl := Except.ok.inj hl
      simp [Mode.isDynamic, harray, hmap]

theorem slotOf_key_ne_nil {mode : Mode} (hm : mode ≠ .tuple) (intKeys : Bool) (f : Field)
    (index : Nat) : (slotOf mode intKeys f index).key ≠ [] := by
  have hint := Wire.ne_nil_of_readToken (Wire.readToken_int f.info.zid)
  have hheader (n : Nat) : Wire.strHeader n ≠ [] := by
    unfold Wire.strHeader
    split
    · simp [Wire.bigEndian_one]
    · repeat' split
      all_goals exact List.cons_ne_nil _ _
  have hstr : Wire.str f.info.name ≠ [] := by simp [Wire.str, hheader]
  unfold slotOf
  cases mode with
  | tuple => exact absurd rfl hm
  | _ => cases intKeys <;> simp [hint, hstr]

end Layout

namespace Marshal

theorem identifies_identification (c : Config) {p : Protocol} {info : StructInfo}
    {fields : List Field} {l : Layout} (h : Layout.plan p info fields = .ok l) :
    Identifies (identification c l) Notes (if l.mode = .fast then [info.name] else []) := by
  have hfingerprint : Wire.fingerprint info.name ≠ [] := by
    have hkey := Wire.ne_nil_of_readToken (Wire.readToken_int (-1))
    simp [Wire.fingerprint, hkey]
  unfold identification
  rw [(Layout.constants_of_plan h).2, (Layout.of_plan h).1]
  by_cases hm : l.mode = .fast
  · rw [if_pos hm, if_pos hm]
    exact identifies_constant c (.typeIdentification info.name) hfingerprint
  · rw [if_neg hm, if_neg hm]
    exact .pure rfl

theorem identifies_structCode {c : Config} {info : StructInfo} {fields : List Field} (v : Var)
    (isTop : Bool) {structs : List String} {slots : Layout → Tally → Emit Body}
    (hslots : ∀ l t, Layout.plan c.protocol info fields = .ok l →
      Identifies (slots l t) Notes structs) :
    Identifies (structCode c info fields v isTop slots) Notes
      ((if Layout.modeOf info c.protocol = .fast then [info.name] else []) ++ structs) := by
  refine Identifies.of_eq (Identifies.bind (Q := fun l written =>
    written = [] ∧ Layout.plan c.protocol info fields = .ok l)
    (.lift fun l hl => ⟨rfl, hl⟩) fun l _ hl => ?_) (List.nil_append _)
  obtain ⟨rfl, hl⟩ := hl
  obtain ⟨hheader, -⟩ := Layout.constants_of_plan hl
  have hentry := identifies_identification c hl
  rw [← (Layout.of_plan hl).2.1]
  cases hm : l.mode with
  | tuple =>
    exact (identifies_constant c (.arrayHeader l.live) (hheader (by rw [hm]; rfl))).append
      (hslots l .outer hl)
  | static =>
    exact (identifies_constant c (.mapHeader l.live) (hheader (by rw [hm]; rfl))).append
      (hslots l .outer hl)
  | fast =>
    rw [hm] at hentry
    refine ((identifies_tallyCode l v isTop).bind fun r _ hr => hentry.bind fun entry _ he =>
      (hslots l r.1 hl).bind fun rest _ hrest => .pure ?_).of_eq (by simp)
    simp_all [Notes, Line.structs]
  | omitEmpty =>
    rw [hm] at hentry
    refine ((identifies_tallyCode l v isTop).bind fun r _ hr => hentry.bind fun entry _ he =>
      (hslots l r.1 hl).bind fun rest _ hrest => .pure ?_).of_eq (by simp)
    simp_all [Notes, Line.structs]

theorem identifies_fieldsCode {c : Config} {l : Layout} (t : Tally) (v : Var)
    {fields : List Field}
    (h : ∀ f ∈ fields, ∀ v,
      Identifies (shapeCode c f.value v) Notes (f.value.identified c.protocol))
    (index : Nat) :
    Identifies (fieldsCode c l t v fields index) Notes
      (Shape.identifiedFields c.protocol fields) := by
  induction fields generalizing index with
  | nil => exact .pure rfl
  | cons f rest ih =>
    obtain ⟨info, value⟩ := f
    obtain ⟨hvalue, hrest⟩ := List.forall_mem_cons.1 h
    unfold fieldsCode Shape.identifiedFields
    split
    · exact ih hrest (index + 1)
    · exact (identifies_slotCode c l t _ (fun hm => Layout.slotOf_key_ne_nil hm _ _ _)
        (hvalue _)).append (ih hrest (index + 1))

/-- The comments of the code of a shape identify the structs that the shape does. -/
theorem identifies_shapeCode (c : Config) (s : Shape) (v : Var) :
    Identifies (shapeCode c s v) Notes (s.identified c.protocol) := by
  induction s generalizing v with
  | struct info fields ih =>
    exact identifies_structCode v false fun l t _ => identifies_fieldsCode t v ih 0
  | map key value ih =>
    refine (identifies_drawName.bind fun number _ hnumber => ?_).of_eq (List.nil_append _)
    subst hnumber
    have hbody := (identifies_dynamic (l := .mapKey key (keyLocal number)) rfl).append
      (ih (.ofLocal (valueLocal number)))
    exact (identifies_dynamic (l := .mapHeader v.place) rfl).append
      (identifies_block (.entries number v.place) hbody)
  | slice element ih =>
    refine (identifies_drawName.bind fun number _ hnumber => ?_).of_eq (List.nil_append _)
    subst hnumber
    exact (identifies_dynamic (l := .arrayHeader v.place) rfl).append
      (identifies_block (.items ⟨"za", number⟩ v.place) (ih _))
  | array info element ih =>
    refine Identifies.of_eq (Identifies.bind (Q := fun _ written => written = [])
      (.lift fun _ _ => rfl) fun size _ hsize => ?_) (List.nil_append _)
    subst hsize
    split
    · rename_i hnarrow
      refine (identifies_dynamic (l := .byteArray v.place) rfl).of_eq ?_
      cases element with
      | base info => rfl
      | _ => simp [Shape.isSingleByte] at hnarrow
    · have hheader := Wire.ne_nil_of_readToken (Wire.readToken_arrayHeader (UInt32.ofNat size))
      have hnote : structsOf [.arrayHeader size] = [] := rfl
      refine ((identifies_constant c (.arrayHeader size) hheader).bind fun header _ hh =>
        identifies_drawName.bind fun number _ hnumber =>
          (identifies_block (.items ⟨"za", number⟩ v.place) (ih (.ofLocal ⟨"za", number⟩))).bind
            fun loop _ hloop => .pure ?_).of_eq (by simp [hnote, Shape.identified])
      simp_all [Notes]
  | ptr pointee ih =>
    have hnote : structsOf [.nil] = [] := rfl
    refine (identifies_drawName.bind fun number _ hnumber =>
      identifies_flush.bind fun before _ hb =>
      (ih (.ofLocal ⟨"zp", number⟩)).bind fun value _ hv => identifies_flush.bind fun after _ ha =>
        (identifies_constant c .nil (List.cons_ne_nil _ _)).bind fun absent _ habsent =>
          identifies_flush.bind fun rest _ hrest => .pure ?_).of_eq
            (by simp [hnote, Shape.identified])
    simp_all [Notes]
  | base info =>
    unfold shapeCode scalarCode
    split <;> exact identifies_dynamic rfl

theorem structs_body {c : Config} {s : Shape} {code : Body} (h : body c s = .ok code) :
    structsIn code = s.identified c.protocol := by
  have hidentity : ∃ x : Emit Body, identityCode c s = (do let a ← x; return a ++ (← flush)) ∧
      Identifies x Notes (s.identified c.protocol) := by
    obtain ⟨info, fields, rfl⟩ | hw := s.struct_or
    · exact ⟨_, identityCode_struct c info fields, identifies_structCode _ true fun l t _ =>
        identifies_fieldsCode t _ (fun f _ v => identifies_shapeCode c f.value v) 0⟩
    · exact ⟨_, identityCode_wrapped c hw, identifies_shapeCode c s _⟩
  obtain ⟨x, hx, hnotes⟩ := hidentity
  obtain ⟨p', hrun⟩ := exists_of_run' h
  rw [hx] at hrun
  obtain ⟨first, q, hfirst, hrun⟩ := run_bind_eq_ok hrun
  obtain ⟨last, r, hlast, hrun⟩ := run_bind_eq_ok hrun
  obtain ⟨rfl, rfl⟩ := run_pure_eq_ok hrun
  obtain ⟨hq, _, rfl, haccount⟩ := hnotes {} first q (fun _ => rfl) hfirst
  obtain ⟨-, _, rfl, hrest⟩ := identifies_flush q last _ hq hlast
  -- after the last flush nothing is held back
  have hempty : p'.notes = [] := by
    rw [flush_eq] at hlast
    rw [← (Prod.mk.inj (Except.ok.inj hlast)).2]
  have hlast : structsIn last = structsOf q.notes := by simpa [hempty, structsOf] using hrest
  rw [structsIn_append, hlast, haccount]
  rfl

theorem notes_notMem_checks (run : List Note) (layout : Layout) (v : Var) (t : Tally) :
    .notes run ∉ Code.leavesAll (checks layout v t) := by
  unfold checks
  induction layout.slots.filter Slot.conditional with
  | nil => exact List.not_mem_nil
  | cons slot rest ih =>
    rw [List.flatMap_cons, Code.leavesAll_append, List.mem_append]
    refine not_or.2 ⟨?_, ih⟩
    split <;> simp [Code.leaves]

/-- A companion has no comments. -/
theorem notes_notMem_companion {c : Config} {s : Shape} {code : Body}
    (h : companion c s = .ok (some code)) (run : List Note) : .notes run ∉ Code.leavesAll code := by
  unfold companion at h
  split at h
  · obtain ⟨layout, -, h⟩ := bind_eq_ok h
    split at h
    · obtain rfl := Option.some.inj (Except.ok.inj h)
      simp [Code.leaves, notes_notMem_checks]
    · cases h
  · cases h

/-- The comments that an encoder has above constant bytes identify the structs of its shape that
are written with a type identification. Each is one line exactly when the structs that it
identifies have names without a line break, whatever the names of fields are; so all are exactly
when no such struct has a name with one. The companion has no such comments. -/
theorem render_comments_hold_iff (c : Config) (name : String) (s : Shape) (text : String)
    (h : render c name s = .ok (some text)) :
    ∃ code side, body c s = .ok code ∧ companion c s = .ok side ∧
      text = implText c name code side ∧
      structsIn code = s.identified c.protocol ∧
      (∀ run, (Line.notes run).OneComment ↔ ∀ struct ∈ structsOf run, Inline struct) ∧
      ((∀ run, .notes run ∈ Code.leavesAll code → (Line.notes run).OneComment) ↔
        ∀ struct ∈ s.identified c.protocol, Inline struct) ∧
      ∀ sideCode ∈ side, ∀ run, .notes run ∉ Code.leavesAll sideCode := by
  obtain ⟨code, side, hcode, hside, htext⟩ := render_eq_some h
  have hstructs := structs_body hcode
  refine ⟨code, side, hcode, hside, htext, hstructs, oneComment_notes_iff, ?_, ?_⟩
  · rw [← hstructs]
    simp only [oneComment_notes_iff]
    constructor
    · intro hall struct hstruct
      obtain ⟨l, hl, hin⟩ := List.mem_flatMap.1 hstruct
      cases l with
      | notes run => exact hall run hl struct hin
      | _ => cases hin
    · intro hall run hrun struct hstruct
      exact hall struct (List.mem_flatMap.2 ⟨.notes run, hrun, hstruct⟩)
  · rintro sideCode rfl run
    exact notes_notMem_companion hside run

/-- A struct with a name, and a field whose name has a line break. -/
def crew (struct : String) : Shape :=
  .struct { name := struct } [.mk { zid := 0, name := "first\nlast" } (.ofKind .string)]

/-- The statements of its encoder. -/
def crewCode (struct : String) : Body := [
  .line .blank, .line (.comment "honor the omitempty tags"),
  .line (.declareFlags .outer 1), .line (.computeTally .outer), .line (.structHeader .outer true),
  .line (.notes [.typeIdentification struct]), .line (.literal (Wire.fingerprint struct)),
  .block (.unlessFlag .outer 0) [
    .line (.notes [.zid 0 "first\nlast"]), .line (.literal [0]),
    .line (.scalar .string (.reference ⟨.field .self "first\nlast", false⟩))]]

theorem body_crew (struct : String) : body {} (crew struct) = .ok (crewCode struct) := rfl

/-- The name of the field breaks no comment. -/
theorem crew_comments_hold :
    (∃ text, render {} "Crew" (crew "Crew") = .ok (some text)) ∧
      body {} (crew "Crew") = .ok (crewCode "Crew") ∧
      .notes [.zid 0 "first\nlast"] ∈ Code.leavesAll (crewCode "Crew") ∧
      ∀ run, .notes run ∈ Code.leavesAll (crewCode "Crew") → (Line.notes run).OneComment := by
  obtain ⟨side, hside⟩ : ∃ side, companion {} (crew "Crew") = .ok side := ⟨_, rfl⟩
  have hrender := render_of_body "Crew" rfl (body_crew "Crew") hside
  obtain ⟨code, _, hcode, -, -, -, -, hhold, -⟩ := render_comments_hold_iff {} "Crew" _ _ hrender
  obtain rfl : crewCode "Crew" = code := Except.ok.inj ((body_crew "Crew").symm.trans hcode)
  refine ⟨⟨_, hrender⟩, hcode, by simp [crewCode, Code.leaves], hhold.2 ?_⟩
  have hnames : (crew "Crew").identified .fast = ["Crew"] := rfl
  show ∀ struct ∈ (crew "Crew").identified .fast, Inline struct
  rw [hnames]
  simp [Inline]

/-- A name that ends a comment and begins a statement. -/
def breakout : String := "Crew\nstd::process::exit(1); //"

/-- The name of a struct can break a comment: what stands behind the line break is code. -/
theorem breakout_leaves_comment :
    body {} (crew breakout) = .ok (crewCode breakout) ∧
      .notes [.typeIdentification breakout] ∈ Code.leavesAll (crewCode breakout) ∧
      ¬(Line.notes [.typeIdentification breakout]).OneComment ∧
      Statement.ofText (Line.notes [.typeIdentification breakout]).text =
        [.code "std::process::exit(1); //'"] := by
  refine ⟨body_crew breakout, by simp [crewCode, Code.leaves], ?_, by decide +kernel⟩
  rw [oneComment_notes_iff]
  intro h
  have hinline : Inline breakout := h breakout List.mem_cons_self
  exact hinline (by decide)

end Marshal

end Packwright
