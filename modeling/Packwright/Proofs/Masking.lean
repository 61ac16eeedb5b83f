import Packwright.Proofs.Generation
import Packwright.Proofs.Planned

/-
  Skipped fields. `masked` blanks what a shape says about its skipped fields: their names, zids,
  tags and shapes, at every depth; only that there is a skipped field at a place is kept. Two
  shapes differ in nothing else exactly when they are the same once masked. Layouts, generated
  code and encodings are those of the masked shape.
-/

namespace Packwright

/-! ## Masking -/

/-- A skipped field of which nothing is known. -/
def Field.blank : Field := .mk { name := "", skip := true } (.ofKind .bool)

mutual

/-- A shape without what it says about skipped fields. -/
def Shape.masked : Shape → Shape
  | .struct info fields => .struct info (maskedFields fields)
  | .map key value => .map key value.masked
  | .slice element => .slice element.masked
  | .array info element => .array info element.masked
  | .ptr pointee => .ptr pointee.masked
  | .base info => .base info

/-- Fields of which the skipped ones are blank. -/
def Shape.maskedFields : List Field → List Field
  | [] => []
  | .mk info value :: rest =>
    (if info.skip then Field.blank else .mk info value.masked) :: maskedFields rest

end

namespace Field

/-- A live field with its shape masked. -/
def masked (f : Field) : Field := mk f.info f.value.masked

@[simp] theorem info_masked (f : Field) : f.masked.info = f.info := rfl

@[simp] theorem value_masked (f : Field) : f.masked.value = f.value.masked := rfl

end Field

namespace Shape

theorem maskedFields_cons (f : Field) (rest : List Field) :
    maskedFields (f :: rest) =
      (if f.info.skip then Field.blank else f.masked) :: maskedFields rest := by
  obtain ⟨info, value⟩ := f
  rfl

@[simp] theorem length_maskedFields (fields : List Field) :
    (maskedFields fields).length = fields.length := by
  induction fields with
  | nil => rfl
  | cons f rest ih => rw [maskedFields_cons, List.length_cons, List.length_cons, ih]

/-- The live fields keep their places. -/
theorem live_maskedFields (fields : List Field) :
    Field.live (maskedFields fields) = (Field.live fields).map fun x => (x.1.masked, x.2) := by
  unfold Field.live
  suffices h : ∀ n, ((maskedFields fields).zipIdx n).filter (fun x => !x.1.info.skip) =
      ((fields.zipIdx n).filter fun x => !x.1.info.skip).map fun x => (x.1.masked, x.2) from h 0
  induction fields with
  | nil => exact fun n => rfl
  | cons f rest ih =>
    intro n
    rw [maskedFields_cons, List.zipIdx_cons, List.zipIdx_cons]
    by_cases hskip : f.info.skip = true
    · simp [hskip, Field.blank, ih]
    · simp [hskip, ih]

@[simp] theorem isPrintable_masked (s : Shape) : s.masked.isPrintable = s.isPrintable := by
  cases s <;> rfl

@[simp] theorem isSingleByte_masked (s : Shape) : s.masked.isSingleByte = s.isSingleByte := by
  cases s <;> rfl

@[simp] theorem receiver_masked (s : Shape) : Var.receiver s.masked = Var.receiver s := by
  cases s <;> rfl

@[simp] theorem emptiness_masked (s : Shape) : Emptiness.of s.masked = Emptiness.of s := by
  cases s <;> rfl

@[simp] theorem condition_masked (s : Shape) (v : Var) :
    Condition.of? s.masked v = Condition.of? s v := by
  cases s <;> rfl

theorem staticSize_masked (s : Shape) : s.masked.staticSize = s.staticSize := by
  induction s with
  | array info element ih =>
    simp only [masked, staticSize, isSingleByte_masked, ih]
  | _ => rfl

end Shape

/-! ## Layouts -/

/-- A slot with the shape of its field masked. -/
def Slot.masked (slot : Slot) : Slot := { slot with field := slot.field.masked }

/-- A layout with the shapes of its fields masked. -/
def Layout.masked (l : Layout) : Layout := { l with slots := l.slots.map Slot.masked }

namespace Layout

variable (l : Layout)

@[simp] theorem mode_masked : l.masked.mode = l.mode := rfl

@[simp] theorem header_masked : l.masked.header = l.header := rfl

@[simp] theorem live_masked : l.masked.live = l.live := rfl

@[simp] theorem slots_masked : l.masked.slots = l.slots.map Slot.masked := rfl

theorem checkZids_masked (struct : String) (seen : List (Int64 × String)) (fields : List Field) :
    checkZids struct seen (fields.map Field.masked) = checkZids struct seen fields := by
  induction fields generalizing seen with
  | nil => rfl
  | cons f rest ih =>
    simp only [List.map_cons, checkZids, Field.hasZid, Field.info_masked, ih]
    rfl

/-- Skipped fields have no part in a layout. -/
theorem plan_masked (p : Protocol) (info : StructInfo) (fields : List Field) :
    plan p info (Shape.maskedFields fields) = (plan p info fields).map masked := by
  have hlive : (Field.live (Shape.maskedFields fields)).map Prod.fst =
      ((Field.live fields).map Prod.fst).map Field.masked := by
    rw [Shape.live_maskedFields, List.map_map, List.map_map]
    rfl
  have hslots (mode : Mode) (intKeys : Bool) :
      (Field.live (Shape.maskedFields fields)).map (fun x => slotOf mode intKeys x.1 x.2) =
        ((Field.live fields).map fun x => slotOf mode intKeys x.1 x.2).map Slot.masked := by
    rw [Shape.live_maskedFields, List.map_map, List.map_map]
    rfl
  unfold plan StructInfo.liveCount
  simp only [Shape.length_maskedFields, hlive, checkZids_masked, hslots]
  cases checkedSub fields.length info.skipCount with
  | error fault => rfl
  | ok live =>
    simp only [ok_bind]
    split
    · cases checkZids info.name [] ((Field.live fields).map Prod.fst) with
      | error e => rfl
      | ok _ => rfl
    · rfl

end Layout

/-! ## Generated code -/

theorem liftM_map_bind {α β γ σ : Type} (f : α → β) (x : Except Fault α)
    (g : β → StateT σ (Except Fault) γ) :
    ((liftM (x.map f) : StateT σ (Except Fault) β) >>= g) =
      ((liftM x : StateT σ (Except Fault) α) >>= fun a => g (f a)) := by
  cases x <;> rfl

namespace Marshal

theorem checks_masked (l : Layout) (v : Var) (t : Tally) :
    checks l.masked v t = checks l v t := by
  have hfilter : (l.slots.map Slot.masked).filter Slot.conditional =
      (l.slots.filter Slot.conditional).map Slot.masked := by
    rw [List.filter_map]
    rfl
  unfold checks
  simp only [Layout.masked, hfilter, List.flatMap_map, Slot.masked, Field.value_masked,
    Field.info_masked, Shape.condition_masked]

theorem identification_masked (c : Config) (l : Layout) :
    identification c l.masked = identification c l := rfl

theorem tallyCode_masked (l : Layout) (v : Var) (isTop : Bool) :
    tallyCode l.masked v isTop = tallyCode l v isTop := by
  unfold tallyCode
  simp only [checks_masked]
  rfl

theorem structCode_masked {c : Config} {info : StructInfo} {fields : List Field} {v : Var}
    {isTop : Bool} {slots slots' : Layout → Tally → Emit Body}
    (h : ∀ l t, slots' l.masked t = slots l t) :
    structCode c info (Shape.maskedFields fields) v isTop slots' =
      structCode c info fields v isTop slots := by
  unfold structCode
  rw [Layout.plan_masked, liftM_map_bind]
  simp only [h, tallyCode_masked, identification_masked, Layout.mode_masked, Layout.header_masked,
    Layout.live_masked]

theorem fieldsCode_masked {c : Config} {l : Layout} {t : Tally} {v : Var} {fields : List Field}
    (ih : ∀ f ∈ fields, ∀ v, shapeCode c f.value.masked v = shapeCode c f.value v) (index : Nat) :
    fieldsCode c l.masked t v (Shape.maskedFields fields) index =
      fieldsCode c l t v fields index := by
  induction fields generalizing index with
  | nil => rfl
  | cons f rest ihrest =>
    obtain ⟨info, value⟩ := f
    have hrest := ihrest (fun f hf => ih f (List.mem_cons_of_mem _ hf)) (index + 1)
    have hvalue : ∀ v, shapeCode c value.masked v = shapeCode c value v :=
      ih (.mk info value) List.mem_cons_self
    cases hskip : info.skip with
    | true =>
      simp only [Shape.maskedFields, hskip, if_true, fieldsCode, hrest, Field.blank]
    | false =>
      simp only [Shape.maskedFields, hskip, Bool.false_eq_true, if_false, fieldsCode, hrest]
      rw [hvalue]
      rfl

theorem shapeCode_masked (c : Config) (s : Shape) (v : Var) :
    shapeCode c s.masked v = shapeCode c s v := by
  induction s generalizing v with
  | struct info fields ih =>
    exact structCode_masked fun l t => fieldsCode_masked ih 0
  | map key value ih => simp only [Shape.masked, shapeCode, ih]
  | slice element ih => simp only [Shape.masked, shapeCode, ih]
  | array info element ih => simp only [Shape.masked, shapeCode, ih, Shape.isSingleByte_masked]
  | ptr pointee ih => simp only [Shape.masked, shapeCode, ih]
  | base info => rfl

theorem identityCode_masked (c : Config) (s : Shape) :
    identityCode c s.masked = identityCode c s := by
  obtain ⟨info, fields, rfl⟩ | hw := s.struct_or
  · rw [Shape.masked, identityCode_struct, identityCode_struct,
      structCode_masked fun l t => fieldsCode_masked (fun f _ v => shapeCode_masked c f.value v) 0]
  · rw [identityCode_wrapped c hw, identityCode_wrapped c, shapeCode_masked, Shape.receiver_masked]
    intro info fields h
    cases s with
    | struct info fields => exact hw _ _ rfl
    | _ => cases h

theorem companion_masked (c : Config) (s : Shape) : companion c s.masked = companion c s := by
  cases s with
  | struct info fields =>
    simp only [Shape.masked, companion, Layout.plan_masked]
    cases Layout.plan c.protocol info fields with
    | error fault => rfl
    | ok l =>
      simp only [Except.map, ok_bind, Layout.mode_masked, Layout.live_masked, checks_masked]
  | _ => rfl

/-- Nothing about skipped fields shows in an encoder. -/
theorem render_masked (c : Config) (name : String) (s : Shape) :
    render c name s.masked = render c name s := by
  simp only [render, body, Shape.isPrintable_masked, identityCode_masked, companion_masked]

end Marshal

namespace Msgsize

theorem fieldsCode_masked {c : Config} {l : Layout} {v : Var} {fields : List Field}
    (ih : ∀ f ∈ fields, ∀ v, shapeCode c f.value.masked v = shapeCode c f.value v) (index : Nat) :
    fieldsCode c l.masked v (Shape.maskedFields fields) index = fieldsCode c l v fields index := by
  induction fields generalizing index with
  | nil => rfl
  | cons f rest ihrest =>
    obtain ⟨info, value⟩ := f
    have hrest := ihrest (fun f hf => ih f (List.mem_cons_of_mem _ hf)) (index + 1)
    have hvalue : ∀ v, shapeCode c value.masked v = shapeCode c value v :=
      ih (.mk info value) List.mem_cons_self
    cases hskip : info.skip with
    | true =>
      simp only [Shape.maskedFields, hskip, if_true, fieldsCode, hrest, Field.blank]
    | false =>
      simp only [Shape.maskedFields, hskip, Bool.false_eq_true, if_false, fieldsCode, hrest]
      rw [hvalue]
      rfl

theorem shapeCode_masked (c : Config) (s : Shape) (v : Var) :
    shapeCode c s.masked v = shapeCode c s v := by
  induction s generalizing v with
  | struct info fields ih =>
    rw [Shape.masked, shapeCode, shapeCode, Layout.plan_masked, liftM_map_bind]
    simp only [fieldsCode_masked ih]
    rfl
  | map key value ih => simp only [Shape.masked, shapeCode, ih]
  | slice element ih => simp only [Shape.masked, shapeCode, ih, Shape.staticSize_masked]
  | array info element ih =>
    have hsize := Shape.staticSize_masked (.array info element)
    simp only [Shape.masked] at hsize
    simp only [Shape.masked, shapeCode, ih, hsize]
  | ptr pointee ih => simp only [Shape.masked, shapeCode, ih, Shape.staticSize_masked]
  | base info => rfl

/-- Nothing about skipped fields shows in a size estimate. -/
theorem render_masked (c : Config) (name : String) (s : Shape) :
    render c name s.masked = render c name s := by
  simp only [render, body, identityCode, Shape.isPrintable_masked, shapeCode_masked,
    Shape.receiver_masked]

end Msgsize

/-! ## The encoder -/

namespace Table

/-- A table with its shapes masked. -/
def masked (t : Table) : Table := t.filterMap fun _ s => some s.masked

theorem get?_masked (t : Table) (name : String) :
    t.masked.get? name = (t.get? name).map Shape.masked := by
  obtain ⟨entries, distinct⟩ := t
  show Assoc.get? (entries.filterMap fun e => some (e.1, e.2.masked)) name =
    (Assoc.get? entries name).map Shape.masked
  rw [List.filterMap_eq_map']
  clear distinct
  induction entries with
  | nil => rfl
  | cons e rest ih =>
    simp only [List.map_cons, Assoc.get?]
    split
    · rfl
    · exact ih

end Table

namespace Planned

open Format (gather)

/-- A slot that is masked, with its value. -/
def maskedHeld (x : Slot × Value × Bool) : Slot × Value × Bool := (x.1.masked, x.2)

theorem mapM_map_eq {α β γ δ : Type} {f : β → Except Fault δ} {f' : α → Except Fault γ}
    {g : α → β} {k : γ → δ} (h : ∀ x, f (g x) = (f' x).map k) (xs : List α) :
    (xs.map g).mapM f = (xs.mapM f').map (List.map k) := by
  induction xs with
  | nil => rfl
  | cons x rest ih =>
    rw [List.map_cons, List.mapM_cons, List.mapM_cons, h, ih]
    cases f' x with
    | error fault => rfl
    | ok y => cases rest.mapM f' <;> rfl

theorem slotValues_masked (struct : String) (values : List (String × Value)) (slots : List Slot) :
    Encoder.slotValues struct values (slots.map Slot.masked) =
      (Encoder.slotValues struct values slots).map (List.map maskedHeld) := by
  refine mapM_map_eq (fun slot => ?_) slots
  have hname : slot.masked.field.info.name = slot.field.info.name := rfl
  have hempty : Emptiness.of slot.masked.field.value = Emptiness.of slot.field.value :=
    Shape.emptiness_masked _
  rw [hname, hempty]
  cases Assoc.get? values slot.field.info.name with
  | none => rfl
  | some v => rfl

theorem start_masked (l : Layout) (held : List (Slot × Value × Bool)) :
    start l.masked (held.map maskedHeld) = start l held := by
  have hcount : (held.map maskedHeld).countP (fun x => !x.2.2) = held.countP fun x => !x.2.2 := by
    rw [List.countP_map]
    rfl
  unfold start
  rw [hcount]
  rfl

theorem structNode_masked {p : Protocol} {part part' : Shape → Value → Except Fault Bytes}
    (h : ∀ s v, part' s.masked v = part s v) (info : StructInfo) (fields : List Field)
    (values : List (String × Value)) :
    structNode p part' info (Shape.maskedFields fields) values =
      structNode p part info fields values := by
  unfold structNode
  rw [Layout.plan_masked]
  cases Layout.plan p info fields with
  | error fault => rfl
  | ok l =>
    simp only [Except.map, ok_bind, Layout.slots_masked, slotValues_masked]
    cases Encoder.slotValues info.name values l.slots with
    | error fault => rfl
    | ok held =>
      have hentry : (fun x => entry part' (maskedHeld x)) = entry part := by
        funext x
        simp only [entry, maskedHeld, Slot.masked, Field.value_masked, h]
      simp only [ok_bind, start_masked, Encoder.gather_map, hentry]

theorem node_masked {t : Table} {p : Protocol} {part part' : Shape → Value → Except Fault Bytes}
    (h : ∀ s v, part' s.masked v = part s v) (s : Shape) (v : Value) :
    node t.masked p part' s.masked v = node t p part s v := by
  have hpart (s : Shape) : part' s.masked = part s := funext (h s)
  cases s with
  | struct info fields =>
    cases v with
    | record values => exact structNode_masked h info fields values
    | _ => rfl
  | map key value => simp only [Shape.masked, node, Format.node, hpart]
  | slice element => simp only [Shape.masked, node, Format.node, hpart]
  | array info element =>
    simp only [Shape.masked, node, Format.node, Format.arrayNode, hpart,
      Shape.isSingleByte_masked]
  | ptr pointee => simp only [Shape.masked, node, Format.node, hpart]
  | base info =>
    simp only [Shape.masked, node, Format.node, Table.get?_masked]
    split
    · cases t.get? (info.typeName.getD "") with
      | none => rfl
      | some target => exact h target v
    · rfl

/-- Nothing about skipped fields shows in an encoding. -/
theorem bytes_masked (t : Table) (p : Protocol) (depth : Nat) (s : Shape) (v : Value) :
    bytes t.masked p depth s.masked v = bytes t p depth s v := by
  induction depth generalizing s v with
  | zero => rfl
  | succ depth ih => exact node_masked ih s v

end Planned

end Packwright
